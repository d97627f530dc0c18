import MediaViews.Expr.Query

/-! Stages: the steps of a view, each of which transforms the documents that it is given. -/
namespace MediaViews

inductive Stage where
  | matching (filter : Json)
  | matchTags (tags : List String) (wanted : Bool)
  | setField (field : String) (expr : Json) (allowMissing : Bool)
  /-- Keeps the labels that satisfy a predicate, and with `onlyMatches` only the documents left with
  one. -/
  | filterLabels (field : String) (filter : Json) (onlyMatches : Bool)
  /-- Keeps the points of keypoint labels that satisfy a predicate or have one of the names. -/
  | filterKeypoints (field : String) (filter : Option Json) (labels : Option (List String))
      (onlyMatches : Bool)
  | selectFields (names : List String)
  | excludeFields (names : List String)
  | select (ids : List String) (ordered : Bool)
  | selectBy (field : String) (values : List Json) (ordered : Bool)
  | exclude (ids : List String)
  /-- Narrows a grouped collection to some slices, or flattens it across them. -/
  | selectGroupSlices (slices : Option (List String)) (allowMixed forceMixed : Bool)
  | groupBy (key : String) (orderBy : Option String) (reverse : Bool)
  | sortBy (key : Json) (reverse : Bool)
  | sortBySimilarity (query : Json) (count : Option UInt64) (reverse : Bool)
      (distanceField brainKey : Option String)
  | limit (count : UInt64)
  | skip (count : UInt64)
  | take (size : UInt64) (seed : Option UInt64)
  | shuffle (seed : Option UInt64)
  | pipeline (steps : List Json)
  deriving DecidableEq, Inhabited

namespace Stage

def className : Stage → String
  | matching .. => "Match"
  | matchTags .. => "MatchTags"
  | setField .. => "SetField"
  | filterLabels .. => "FilterLabels"
  | filterKeypoints .. => "FilterKeypoints"
  | selectFields .. => "SelectFields"
  | excludeFields .. => "ExcludeFields"
  | select .. => "Select"
  | selectBy .. => "SelectBy"
  | exclude .. => "Exclude"
  | selectGroupSlices .. => "SelectGroupSlices"
  | groupBy .. => "GroupBy"
  | sortBy .. => "SortBy"
  | sortBySimilarity .. => "SortBySimilarity"
  | limit .. => "Limit"
  | skip .. => "Skip"
  | take .. => "Take"
  | shuffle .. => "Shuffle"
  | pipeline .. => "Mongo"

/-- Whether the stage may drop or reorder documents, so that a selection placed before it would
change what it does. -/
def reordersOrSelects : Stage → Bool
  | setField .. | selectFields .. | excludeFields .. | selectGroupSlices .. => false
  | filterLabels _ _ onlyMatches | filterKeypoints _ _ _ onlyMatches => onlyMatches
  | matching .. | matchTags .. | select .. | selectBy .. | exclude .. | groupBy .. | sortBy ..
  | sortBySimilarity .. | limit .. | skip .. | take .. | shuffle .. | pipeline .. => true

def selectsGroupSlices : Stage → Bool
  | selectGroupSlices .. => true
  | _ => false

def groupsBy (field : String) : Stage → Bool
  | groupBy key .. => key == field
  | _ => false

def matchQuery (query : Query) : Stage := .matching query.toJson

def set (field : String) (expr : Expr) : Stage := .setField field expr.toJson true

def filterLabelsBy (field : String) (predicate : Expr) (onlyMatches : Bool) : Stage :=
  .filterLabels field predicate.toJson onlyMatches

def keepPointsNamed (field : String) (labels : List String) : Stage :=
  .filterKeypoints field none (some labels) true

def keepPointsWhere (field : String) (predicate : Expr) : Stage :=
  .filterKeypoints field (some predicate.toJson) none true

def selectIds (ids : List String) (ordered : Bool) : Except ObjectIdError Stage := do
  let ids ← ObjectId.parseAll ids
  return .select (ids.map ObjectId.toHex) ordered

def selectByIds (field : String) (ids : List String) : Except ObjectIdError Stage := do
  let ids ← ObjectId.parseAll ids
  return .selectBy field (ids.map ObjectId.toExtendedJson) false

def flattenSlices (slices : Option (List String)) (force : Bool) : Stage :=
  .selectGroupSlices slices force force

end Stage
end MediaViews
