import MediaViews.Filter.Predicate
import MediaViews.Schema.Field
import MediaViews.Schema.Skeleton
import MediaViews.Stage.Basic

/-! Filters on the points of keypoint labels. A keypoint label keeps one entry for each point in
every list attribute, so a filter on such a list prunes points and not labels. -/
namespace MediaViews.Filter

def pointsAttribute : String := "points"

def isPointAttribute (label : LabelKind) (field : Field) : Bool :=
  label.isKeypoints && field.kind.isList && field.name != "tags"

def retainedPoints (skeleton : Skeleton) (f : Filter) : List String :=
  if f.exclude then skeleton.complement f.presentValues else f.presentValues

def pointPredicate (path : String) (e : Expr) (kind : FieldKind) (f : Filter) :
    Except FilterError Expr := do
  match kind with
  | .bool => return truthPredicate e f
  | .float | .int =>
    match f.range with
    | none => throw (.unsupported path kind .pointRangeNeeded)
    | some range =>
      let (min, max) ← boundLiterals path kind range
      let inside := withinBounds e kind min max
      return if f.exclude then .negation inside else inside
  | _ => throw (.unsupportedPoints path kind)

def keypointStage (labelPath : String) (field : Field) (f : Filter) (skeletons : Skeletons) :
    Except FilterError Stage := do
  if field.name = pointsAttribute then
    match skeletons.get? labelPath with
    | some skeleton => return .keepPointsNamed labelPath (retainedPoints skeleton f)
    | none => throw (.missingSkeleton labelPath)
  else
    let element := field.kind.element?.getD field.kind
    let predicate ← pointPredicate field.path (.thisField field.storageName) element f
    return .keepPointsWhere labelPath predicate

end MediaViews.Filter
