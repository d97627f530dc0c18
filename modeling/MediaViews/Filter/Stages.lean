import MediaViews.Filter.Condition
import MediaViews.Filter.Keypoint
import MediaViews.Filter.Target

/-! The stages that filters are compiled to: one match of documents, then one stage for each filter
that prunes an embedded list, then one for each that prunes labels or their points. Each group
follows the order of paths. -/
namespace MediaViews

structure FilterContext where
  catalog : Catalog
  skeletons : Skeletons
  excludeDropsEmpty : Bool

namespace FilterTarget

def isPointAttribute (t : FilterTarget) : Bool :=
  match t.labelKind? with
  | some kind => Filter.isPointAttribute kind t.field
  | none => false

/-- Whether the filter prunes points. One on the coordinates names points of the skeleton, which no
match of documents can do, so it prunes also in matching mode. -/
def prunesPoints (t : FilterTarget) : Bool :=
  t.isPointAttribute && (!t.filter.isMatching || t.field.name == Filter.pointsAttribute)

def matchesDocuments (t : FilterTarget) : Bool :=
  match t.owner with
  | .other => true
  | .embeddedList => t.filter.isMatching
  | .label _ => t.filter.isMatching && !t.prunesPoints

def prunesList (t : FilterTarget) : Bool := t.owner == .embeddedList && !t.filter.isMatching

def prunesLabels (t : FilterTarget) : Bool :=
  t.isLabelAttribute && (t.prunesPoints || !t.filter.isMatching)

def condition (c : Catalog) (t : FilterTarget) : Except FilterError Query :=
  Filter.condition (c.storagePath t.path) t.field.kind t.filter

def elementPredicate (t : FilterTarget) : Except FilterError Expr :=
  Filter.predicate t.path (.thisField t.field.storageName) t.filter false t.field.kind

def listStage (c : Catalog) (t : FilterTarget) : Except FilterError Stage := do
  let predicate ← t.elementPredicate
  let list := Expr.field (c.storagePath t.ownerPath)
  return .set t.ownerPath (.filter list.orEmpty predicate)

def labelStage (ctx : FilterContext) (t : FilterTarget) : Except FilterError Stage := do
  if t.prunesPoints then Filter.keypointStage t.ownerPath t.field t.filter ctx.skeletons
  else
    let predicate ← t.elementPredicate
    return .filterLabelsBy t.ownerPath predicate (!t.filter.exclude || ctx.excludeDropsEmpty)

end FilterTarget

namespace FilterContext

def matchStage? (ctx : FilterContext) (filters : Filters) :
    Except FilterError (Option Stage) := do
  let targets ← FilterTarget.ofFilters ctx.catalog filters
  let conditions ← (targets.filter (·.matchesDocuments)).mapM (·.condition ctx.catalog)
  return if conditions.isEmpty then none else some (.matchQuery (.allOf conditions))

def listStages (ctx : FilterContext) (filters : Filters) : Except FilterError (List Stage) := do
  let targets ← FilterTarget.ofFilters ctx.catalog filters
  (targets.filter (·.prunesList)).mapM (·.listStage ctx.catalog)

def labelStages (ctx : FilterContext) (filters : Filters) : Except FilterError (List Stage) := do
  let targets ← FilterTarget.ofFilters ctx.catalog filters
  (targets.filter (·.prunesLabels)).mapM (·.labelStage ctx)

def stages (ctx : FilterContext) (filters : Filters) : Except FilterError (List Stage) := do
  let matched ← ctx.matchStage? filters
  let lists ← ctx.listStages filters
  let labels ← ctx.labelStages filters
  return matched.toList ++ lists ++ labels

end FilterContext
end MediaViews
