import MediaViews.Proofs.Filter.Judging

/-! What a filter asks of the values under any number of list layers, told by its record alone. Here
the bounds and the accepted texts of a filter are values, and no constant of a stage is looked at. -/
namespace MediaViews

def FieldKind.layered (leaf : FieldKind) : Nat → FieldKind
  | 0 => leaf
  | n + 1 => .list (leaf.layered n)

namespace Filter

def boundValue (kind : FieldKind) (bound : Double) : Value :=
  if kind.isTemporal then ((boundInstant? bound).map Value.instant).getD .null else .float bound

def textValue (kind : FieldKind) (text : String) : Value :=
  if kind = .objectId then
    match ObjectId.parse text with
    | .ok id => .objectId id
    | .error _ => .null
  else .str text

def insideRange (kind : FieldKind) (range : Double × Double) (v : Value) : Bool :=
  match kind with
  | .frameSupport =>
    Comparison.gte.admits ((v.elementAt 0).compare (boundValue kind range.1)) &&
      Comparison.lte.admits ((v.elementAt 1).compare (boundValue kind range.2))
  | _ => v.within (boundValue kind range.1) (boundValue kind range.2)

def includesTruth (f : Filter) (v : Value) : Bool :=
  match f.includeTrue.getD false, f.includeFalse.getD false with
  | true, true => v.same (.bool true) || v.same (.bool false)
  | true, false => v.same (.bool true)
  | false, true => v.same (.bool false)
  | false, false => !v.same (.bool true) && !v.same (.bool false)

def includesNumber (f : Filter) (kind : FieldKind) (v : Value) : Bool :=
  match f.range with
  | some range => insideRange kind range v || f.setSentinels.any fun s => v.same s.value
  | none => f.unsetSentinels.all fun s => !v.same s.value

def includesText (ex : Executor) (f : Filter) (kind : FieldKind) (v : Value) : Bool :=
  match f.values, f.search with
  | some _, _ =>
    f.presentValues.any (fun text => v.same (textValue kind text)) || (f.wantsMissing && v.isNull)
  | none, some text => ex.finds "i" (searchPattern text) v || (f.missing == some true && v.isNull)
  | none, none => false

def includes (ex : Executor) (f : Filter) (kind : FieldKind) (v : Value) : Bool :=
  match kind with
  | .bool => f.includesTruth v
  | .string | .objectId => f.includesText ex kind v
  | _ => f.includesNumber kind v

/-- Whether a value of a kind that is no list is kept. The opposite of flags alone is asked for by
equality with each sentinel that is not set, and truth values have no opposite. -/
def keeps (ex : Executor) (f : Filter) (kind : FieldKind) (v : Value) : Bool :=
  match kind, f.range with
  | .bool, _ => f.includesTruth v
  | .int, none | .float, none | .date, none | .dateTime, none | .frameSupport, none =>
    f.unsetSentinels.all fun s => v.same s.value == f.exclude
  | _, _ => f.includes ex kind v != f.exclude

end Filter

namespace Value

theorem compare_ofDouble (v : Value) (x : Double) :
    v.compare (.ofLiteral (.ofDouble x)) = v.compare (.float x) := by
  cases x with
  | nan => rfl
  | number negative rank =>
    rw [Literal.ofDouble]
    split
    · next h =>
      simp only [Bool.and_eq_true] at h
      have hposition : (Double.ofInt (Double.truncate (.number negative rank))).position =
          (Double.number negative rank).position := Double.position_ofInt_truncate h.1.2
      rw [ofLiteral]
      cases v with
      | int n => exact congrArg (Ord.compare (Double.ofInt n).position) hposition
      | float y => exact congrArg (Ord.compare y.position) hposition
      | _ => rfl
    · rfl

end Value

namespace Filter

theorem compare_bound {path : String} {kind : FieldKind} {bound : Double} {l : Literal}
    (h : boundLiteral path kind bound = .ok l) (v : Value) :
    v.compare (.ofLiteral l) = v.compare (boundValue kind bound) := by
  rw [boundLiteral] at h
  rw [boundValue]
  split at h
  · next htemporal =>
    rw [if_pos htemporal]
    cases hinstant : boundInstant? bound with
    | none =>
      rw [hinstant] at h
      cases h
    | some t =>
      rw [hinstant] at h
      obtain rfl := Except.ok.inj h
      rfl
  · next htemporal =>
    rw [if_neg htemporal]
    split at h
    · obtain rfl := Except.ok.inj h
      rfl
    · obtain rfl := Except.ok.inj h
      exact Value.compare_ofDouble v bound

theorem eval_withinBounds (ex : Executor) (e : Expr) {path : String} {kind : FieldKind}
    {range : Double × Double} {min max : Literal} (hmin : boundLiteral path kind range.1 = .ok min)
    (hmax : boundLiteral path kind range.2 = .ok max) (σ : Scope) :
    (ex.eval (withinBounds e kind min max) σ).isTrue = insideRange kind range (ex.eval e σ) := by
  have hlower := compare_bound hmin
  have hupper := compare_bound hmax
  cases kind with
  | frameSupport =>
    rw [withinBounds, Executor.eval_and, insideRange, ← hlower, ← hupper]
    rfl
  | _ =>
    rw [withinBounds, Executor.eval_and, insideRange, Value.within, ← hlower, ← hupper]
    · rfl
    all_goals simp

end Filter

/-! A predicate evaluates to a truth value. -/

namespace Expr

end Expr

namespace Filter

theorem demand_including (path : String) (kind : FieldKind) (f : Filter) :
    demand path kind f.including = demand path kind f := by
  cases kind <;> rfl

theorem exists_predicate_layered_iff {path : String} {leaf : FieldKind} {f : Filter}
    {isMatching : Bool} (hleaf : leaf.isList = false) (n : Nat) (e : Expr) :
    (∃ p, predicate path e f isMatching (leaf.layered n) = .ok p) ↔
      ∃ d, demand path leaf f = .ok d := by
  induction n generalizing e f with
  | zero =>
    rw [FieldKind.layered, predicate_eq_map path e f isMatching hleaf]
    constructor
    · rintro ⟨p, h⟩
      obtain ⟨d, hd, -⟩ := Outcome.exists_of_map_eq_ok h
      exact ⟨d, hd⟩
    · rintro ⟨d, hd⟩
      exact ⟨_, congrArg (Except.map _) hd⟩
  | succ n ih =>
    rw [← demand_including, ← ih (f := f.including) .this, FieldKind.layered]
    constructor
    · rintro ⟨p, h⟩
      obtain ⟨inner, hinner, -⟩ := Outcome.exists_of_bind_eq_ok h
      exact ⟨inner, hinner⟩
    · rintro ⟨inner, hinner⟩
      rw [predicate, hinner]
      exact ⟨_, rfl⟩

end Filter
end MediaViews
