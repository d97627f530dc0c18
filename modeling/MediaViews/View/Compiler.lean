import MediaViews.Filter.Stages
import MediaViews.LabelTags.Filter
import MediaViews.Log.Scope
import MediaViews.View.Config
import MediaViews.View.Group

/-! Compiling requests to views. The executor runs stages in sequence, so their order is part of
what a view means. -/
namespace MediaViews

structure Compiler where
  library : Library
  config : Config

structure CompiledView where
  view : View
  mediaTypes : Option (List MediaType)
  deriving DecidableEq

structure BuildStamp where
  id : String
  elapsedMillis : Nat

namespace CompiledView

def toJson (c : CompiledView) : Json :=
  .obj [("dataset", .str c.view.dataset.name), ("stages", .arr (c.view.stages.map Stage.toJson)),
    ("group_slice", .ofOption .str c.view.slice),
    ("media_types", .ofOption (fun types => .arr (types.map MediaType.toJson)) c.mediaTypes)]

end CompiledView

namespace Compiler

def extendedStages (entries : List (String × Json)) : Except StageError (List Stage) :=
  entries.mapM fun e => Stage.ofQualified e.1 e.2

def dictFields (v : View) (mediaTypes : Option (List MediaType)) : List String :=
  let withFrames := match mediaTypes with
    | some types => types.contains .video
    | none => v.dataset.hasFrames
  let fields := v.dataset.catalog.documentFields true ++
    if withFrames then v.dataset.catalog.frameFields true else []
  (fields.filter (·.kind == .dict)).map (·.path)

def projection (config : Config) (v : View) (e : Extension) : List Stage :=
  if e.paginated && config.projectDicts then
    match dictFields v e.mediaTypes with
    | [] => []
    | dicts => [.excludeFields dicts]
  else []

def tagStages (filters : Filters) : List Stage :=
  match filters.get? FilterTarget.tagsPath with
  | some f => [.matchTags f.presentValues (!f.exclude)]
  | none => []

def labelTagStages (catalog : Catalog) (filters : Filters) : Except FilterError (List Stage) :=
  match filters.get? LabelTags.field with
  | some f => LabelTags.filterStages (TagSource.ofCatalog catalog) f
  | none => .ok []

def filterContext (config : Config) (d : Dataset) : FilterContext :=
  ⟨d.catalog, d.skeletons, config.excludeDropsEmpty⟩

def filterStages (config : Config) (d : Dataset) (filters : Filters) :
    Except FilterError (List Stage) := do
  let labelTags ← labelTagStages d.catalog filters
  let others ← (filterContext config d).stages filters
  return tagStages filters ++ labelTags ++ others

def filterRecord (d : Dataset) (filters : Filters) (stages : List Stage) : LogRecord :=
  LogEvent.filterStagesCompiled.record
    [("dataset", d.name), ("filters", toString filters.size), ("stages", toString stages.length)]

def tracedFilterStages (config : Config) (d : Dataset) : Option Filters → Traced (List Stage)
  | none => pure []
  | some filters => do
    let stages ← Traced.lift ((filterStages config d filters).mapError .filter)
    Traced.log (filterRecord d filters stages)
    return stages

def countStages (config : Config) (v : View) (e : Extension) : List Stage :=
  if e.paginated && config.countLabelTags then
    LabelTags.countStages (TagSource.ofCatalog v.dataset.catalog)
  else []

/-- Appends the extended stages, which see all documents, then the projection, the filters and the
counts of label tags. -/
def extend (config : Config) (v : View) (e : Extension) : Traced View := do
  let extended ← Traced.lift ((extendedStages (e.extendedStages.getD [])).mapError .stage)
  let filtered ← tracedFilterStages config v.dataset e.filters
  return v.append (extended ++ projection config v e ++ filtered ++ countStages config v e)

def baseView (d : Dataset) (r : ViewRequest) : Except StageError View :=
  match r.stages with
  | some stages => View.ofJsonStages d stages
  | none => .ok (.ofDataset d)

def applySampleFilter (v : View) : Option SampleFilter → Traced (View × Option (List MediaType))
  | none => pure (v, none)
  | some filter =>
    match filter.group, filter.id with
    | some group, _ => v.resolveGroup group
    | none, some id => do return (← Traced.lift (v.select [id] false), none)
    | none, none => pure (v, none)

def savedView (d : Dataset) (name : String) : Traced CompiledView := do
  let stages ← Traced.lift (d.savedView name)
  let view ← Traced.lift ((View.ofJsonStages d stages).mapError .stage)
  Traced.log (LogEvent.savedViewLoaded.record [("dataset", d.name), ("view", name)])
  return ⟨view, none⟩

def adHocView (config : Config) (d : Dataset) (r : ViewRequest) : Traced CompiledView := do
  let base ← Traced.lift ((baseView d r).mapError .stage)
  let (narrowed, mediaTypes) ← applySampleFilter base r.sampleFilter
  let view ←
    if r.needsExtension then extend config narrowed (r.extension mediaTypes) else pure narrowed
  return ⟨view, mediaTypes⟩

/-- A saved view is returned as it is stored. -/
def build (c : Compiler) (r : ViewRequest) : Traced CompiledView := do
  let d ← Traced.lift (c.library.dataset r.dataset)
  match r.viewName with
  | some name => savedView d name
  | none => adHocView c.config d r

def outcomeOf (stamp : BuildStamp) : Except ViewError CompiledView → ScopeEnd
  | .ok compiled => .complete stamp.elapsedMillis [("stages", toString compiled.view.stages.length)]
  | .error e => .failed e.code e.message

def scope (buildId dataset : String) : LogScope :=
  ⟨"VIEW_BUILD", [("build_id", buildId), ("dataset", dataset)]⟩

def buildLog (r : ViewRequest) (built : Traced CompiledView) (stamp : BuildStamp) :
    List LogRecord :=
  let scope := scope stamp.id r.dataset
  scope.start :: built.records ++ [scope.finish (outcomeOf stamp built.outcome)]

def compile (c : Compiler) (stamp : BuildStamp) (r : ViewRequest) : Traced CompiledView :=
  let built := c.build r
  { built with records := buildLog r built stamp }

end Compiler
end MediaViews
