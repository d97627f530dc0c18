import MediaViews.Filter.Predicate
import MediaViews.LabelTags.Counts

/-! Filters on label tags. The field they name is not stored, so they are compiled against the tags
of every label field. -/
namespace MediaViews.LabelTags

def anyTagged (sources : List TagSource) (values : List String) : Query :=
  .anyOf (sources.map fun s => .field s.tagsPath (.isIn (values.map .str)))

def labelPredicate (values : List String) (exclude : Bool) : Except FilterError Expr :=
  let filter := { Filter.ofValues values with exclude }
  Filter.predicate field (.thisField "tags") filter false (.list .string)

/-- Documents are narrowed by one match, except when labels are pruned by exclusion; labels are
pruned unless whole documents are asked for. Without a label field no document has a label tag. -/
def filterStages (sources : List TagSource) (filter : Filter) :
    Except FilterError (List Stage) := do
  if filter.values.isNone then
    throw (.unsupported field (.list .string) .tagValuesNeeded)
  else if sources.isEmpty then
    return if filter.exclude then [] else [.matchQuery (.expr (.ofBool false))]
  else
    let values := filter.presentValues
    let query := anyTagged sources values
    let matched :=
      if !filter.exclude || filter.isMatching then
        [Stage.matchQuery (if filter.exclude then query.not else query)]
      else []
    if filter.isMatching then return matched
    else
      let predicate ← labelPredicate values filter.exclude
      return matched ++ sources.map fun s => .filterLabelsBy s.path predicate false

end MediaViews.LabelTags
