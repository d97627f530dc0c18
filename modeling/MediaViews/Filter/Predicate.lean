import MediaViews.Expr.Basic
import MediaViews.Filter.Operand

/-! Predicates on one element: a label, an embedded document or an item of a list. In matching mode
a predicate tells which documents are kept and never which elements, so it is not negated. -/
namespace MediaViews.Filter

def truthPredicate (e : Expr) (f : Filter) : Expr :=
  match f.includeTrue.getD false, f.includeFalse.getD false with
  | true, true => e.isIn [.bool true, .bool false]
  | false, true => e.eq (.ofBool false)
  | true, false => e.eq (.ofBool true)
  | false, false => (e.ne (.ofBool true)).and (e.ne (.ofBool false))

def absent (e : Expr) : Expr := .negation (.present e)

def sentinelTest (e : Expr) (s : Sentinel) (equal : Bool) : Expr :=
  match s, equal with
  | .missing, true => absent e
  | .missing, false => .present e
  | s, true => e.eq (.literal s.literal)
  | s, false => e.ne (.literal s.literal)

def flagPredicate (e : Expr) (f : Filter) : Expr :=
  match f.unsetSentinels.map fun s => sentinelTest e s f.exclude with
  | [] => .ofBool true
  | [test] => test
  | tests => .all tests

/-- The value lies within the bounds; a frame support has to lie within them as a whole. -/
def withinBounds (e : Expr) (kind : FieldKind) (min max : Literal) : Expr :=
  match kind with
  | .frameSupport =>
    ((Expr.elementAt e 0).gte (.literal min)).and ((Expr.elementAt e 1).lte (.literal max))
  | _ => (e.gte (.literal min)).and (e.lte (.literal max))

def rangePredicate (e : Expr) (inside : Expr) (f : Filter) (isMatching : Bool) : Expr :=
  let finite := (f.setSentinels.filter (· ≠ .missing)).map Sentinel.literal
  let withSentinels := if finite.isEmpty then inside else inside.or (e.isIn finite)
  let withMissing :=
    if f.missing = some true then withSentinels.or (absent e) else withSentinels
  if f.exclude && !isMatching then .negation withMissing else withMissing

def numericPredicate (path : String) (e : Expr) (kind : FieldKind) (f : Filter)
    (isMatching : Bool) : Except FilterError Expr := do
  match f.range with
  | some range =>
    let (min, max) ← boundLiterals path kind range
    return rangePredicate e (withinBounds e kind min max) f isMatching
  | none =>
    if f.hasFlags then return flagPredicate e f
    else throw (.unsupported path kind .rangeNeeded)

/-- Negates the test of present values where asked to, and says what becomes of missing ones. -/
def settleMissing (e test : Expr) (f : Filter) (isMatching : Bool) : Expr :=
  let test := if f.exclude && !isMatching then .negation test else test
  if f.wantsMissing then
    if f.exclude then test.and (.present e) else test.or (absent e)
  else test

def valuePredicate (path : String) (e : Expr) (kind : FieldKind) (f : Filter)
    (isMatching : Bool) : Except FilterError Expr := do
  match f.values, f.search, kind with
  | some _, _, _ =>
    let present ← f.presentLiterals kind
    return settleMissing e (e.isIn present) f isMatching
  | none, some text, .string =>
    return settleMissing e (.search e (searchPattern text)) f isMatching
  | none, _, _ => throw (.unsupported path kind .valuesNeeded)

/-- The predicate on the value `e` of a kind. A list is tested by the number of its elements that
satisfy the including predicate. -/
def predicate (path : String) (e : Expr) (f : Filter) (isMatching : Bool) :
    FieldKind → Except FilterError Expr
  | .list element => do
    let inner ← predicate path .this f.including isMatching element
    let count := Expr.size (.filter e.orEmpty inner)
    return if f.exclude then count.eq (.ofInt 0) else count.gt (.ofInt 0)
  | .bool => .ok (truthPredicate e f)
  | .frameSupport => numericPredicate path e .frameSupport f isMatching
  | .int => numericPredicate path e .int f isMatching
  | .float => numericPredicate path e .float f isMatching
  | .date => numericPredicate path e .date f isMatching
  | .dateTime => numericPredicate path e .dateTime f isMatching
  | .string => valuePredicate path e .string f isMatching
  | .objectId => valuePredicate path e .objectId f isMatching
  | .dict => .error (.unsupported path .dict .notFilterable)
  | .embedded => .error (.unsupported path .embedded .notFilterable)
  | .label kind => .error (.unsupported path (.label kind) .notFilterable)

end MediaViews.Filter
