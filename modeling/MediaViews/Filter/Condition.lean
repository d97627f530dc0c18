import MediaViews.Expr.Query
import MediaViews.Filter.Operand

/-! Conditions on whole documents: what a filter asks of the values at a stored path. -/
namespace MediaViews.Filter

open Query (compare)

def rangeCondition (path : String) (min max : Literal) (f : Filter) : Query :=
  let set := f.setSentinels.map Sentinel.literal
  if f.exclude then
    let outside := Query.any [compare path .lt min, compare path .gt max]
    if set.isEmpty then outside else .all [outside, .field path (.notIn set)]
  else
    let inside := Query.all [compare path .gte min, compare path .lte max]
    if set.isEmpty then inside else .any [inside, .field path (.isIn set)]

/-- Without a range everything is kept but the sentinels that are not asked for; excluding asks for
equality with each of these. -/
def flagCondition (path : String) (f : Filter) : Query :=
  let op : Comparison := if f.exclude then .eq else .ne
  match f.unsetSentinels with
  | [] => .expr (.ofBool true)
  | unset => .allOf (unset.map fun s => compare path op s.literal)

def numericCondition (path : String) (kind : FieldKind) (f : Filter) :
    Except FilterError Query := do
  match f.range with
  | some range =>
    let (min, max) ← boundLiterals path kind range
    return rangeCondition path min max f
  | none =>
    if f.hasFlags then return flagCondition path f
    else throw (.unsupported path kind .rangeNeeded)

def valueCondition (path : String) (kind : FieldKind) (f : Filter) :
    Except FilterError Query := do
  match f.values, f.search, kind with
  | some _, _, _ =>
    let present ← f.presentLiterals kind
    let values := if f.wantsMissing then present ++ [.null] else present
    return .field path (if f.exclude then .notIn values else .isIn values)
  | none, some text, .string =>
    let found := Query.field path (.search (searchPattern text))
    return if f.exclude then found.not else found
  | none, _, _ => throw (.unsupported path kind .valuesNeeded)

def bothTruths : List Literal := [.bool true, .bool false]

def truthCondition (path : String) (f : Filter) : Query :=
  match f.includeTrue.getD false, f.includeFalse.getD false with
  | true, true => .field path (.isIn bothTruths)
  | false, true => compare path .eq (.bool false)
  | true, false => compare path .eq (.bool true)
  | false, false => .field path (.notIn bothTruths)

def leafCondition (path : String) (kind : FieldKind) (f : Filter) : Except FilterError Query :=
  match kind with
  | .int | .float | .date | .dateTime | .frameSupport => numericCondition path kind f
  | .string | .objectId => valueCondition path kind f
  | .bool => .ok (truthCondition path f)
  | .dict | .embedded | .label _ | .list _ => .error (.unsupported path kind .notFilterable)

/-- A condition on a list is met by its elements, so one layer of list goes without saying. -/
def condition (path : String) (kind : FieldKind) (f : Filter) : Except FilterError Query :=
  leafCondition path (kind.element?.getD kind) f

end MediaViews.Filter
