import MediaViews.Log.Event
import MediaViews.View.Request
import MediaViews.View.Select
import MediaViews.View.Trace

/-! Group filters on views of grouped datasets. -/
namespace MediaViews.View

def sliceMembership (groupField : String) (slices : List String) : Stage :=
  .matchQuery (.field (groupField ++ ".name") (.isIn (slices.map .str)))

def groupKey (groupField : String) : String := groupField ++ ".id"

/-- The stages that are kept when a view is flattened. One that drops or reorders documents is void
where a group is selected first; one that groups by the group acts on the slices alone. -/
def replayed (v : View) (groupField : String) (slices : List String) (id : Option String) :
    List Stage :=
  match id with
  | some _ => v.stages.filter fun stage => !stage.reordersOrSelects
  | none =>
    v.stages.flatMap fun stage =>
      if stage.groupsBy (groupKey groupField) then [sliceMembership groupField slices, stage]
      else [stage]

def flatten (v : View) (groupField : String) (slices : List String) (id : Option String) :
    Except ViewError View := do
  let front := Stage.flattenSlices (some slices) true
  let rest := v.replayed groupField slices id
  match id with
  | some id =>
    let selection ← (Stage.selectByIds (groupField ++ "._id") [id]).mapError .ofObjectId
    return v.base.append (front :: selection :: rest)
  | none => return v.base.append (front :: rest)

def remainingTypes (v : View) (filter : GroupFilter) : List MediaType :=
  match filter.slices with
  | some slices => MediaType.setOf (slices.filterMap v.dataset.sliceTypes.get?)
  | none => MediaType.setOf v.dataset.sliceTypes.values

def groupRecord (v : View) (flattened : Bool) : LogRecord :=
  LogEvent.groupFilterResolved.record
    [("dataset", v.dataset.name), ("flattened", if flattened then "true" else "false"),
      ("slice", v.slice.getD ""), ("stages", toString v.stages.length)]

/-- The narrowed view, and whether it was flattened. Slices that cannot be flattened across, since
the view selects slices already, are matched at the end, unless the view groups by the group. -/
def narrow (v : View) (filter : GroupFilter) : Except ViewError (View × Bool) := do
  let field ← v.groupField
  let selectsSlices := v.stages.any (·.selectsGroupSlices)
  let groups := v.stages.any (·.groupsBy (groupKey field))
  let active := { v with slice := filter.slice.or v.slice }
  match filter.slices, selectsSlices with
  | some slices, false => return (← active.flatten field slices filter.id, true)
  | slices, _ =>
    let selected ←
      match filter.id with
      | some id => active.select [id] true
      | none => pure active
    match slices with
    | some slices =>
      let membership := if groups then [] else [sliceMembership field slices]
      return (selected.append membership, false)
    | none => return (selected, false)

/-- The view narrowed by a group filter, and the media types it can contain. An empty filter narrows
nothing and tells nothing. -/
def resolveGroup (v : View) (filter : GroupFilter) :
    Traced (View × Option (List MediaType)) := do
  if filter.isEmpty then return (v, none)
  else
    let (narrowed, flattened) ← Traced.lift (v.narrow filter)
    Traced.log (narrowed.groupRecord flattened)
    return (narrowed, some (v.remainingTypes filter))

end MediaViews.View
