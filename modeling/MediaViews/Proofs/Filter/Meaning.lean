import MediaViews.Proofs.Filter.Demand

/-! What conditions and predicates mean, told by the values that they meet. A condition on documents
looks at all values that are met at its path, and a predicate at one value. -/
namespace MediaViews

namespace Value

def within (v min max : Value) : Bool :=
  Comparison.gte.admits (v.compare min) && Comparison.lte.admits (v.compare max)

end Value

namespace Filter

variable (f : Filter)

def wantedTruths : List Bool :=
  [true, false].filter fun b => (if b then f.includeTrue else f.includeFalse).getD false

theorem any_setSentinels (p : Sentinel → Bool) :
    f.setSentinels.any p =
      ((f.setSentinels.filter (· ≠ .missing)).any p ||
        (decide (f.missing = some true) && p .missing)) := by
  have hmissing : (f.missing == some true) = decide (f.missing = some true) :=
    Bool.beq_eq_decide_eq _ _
  simp only [setSentinels, Sentinel.all, List.filter, flag?, hmissing]
  cases f.nan == some true <;> cases f.inf == some true <;> cases f.negInf == some true <;>
    cases decide (f.missing = some true) <;> simp [Bool.or_assoc]

end Filter

namespace Demand

theorem any_any_comm {α β : Type} (xs : List α) (ys : List β) (p : α → β → Bool) :
    xs.any (fun x => ys.any (p x)) = ys.any fun y => xs.any fun x => p x y := by
  rw [Bool.eq_iff_iff, List.any_eq_true, List.any_eq_true]
  simp only [List.any_eq_true]
  exact ⟨fun ⟨x, hx, y, hy, h⟩ => ⟨y, hy, x, hx, h⟩, fun ⟨y, hy, x, hx, h⟩ => ⟨x, hx, y, hy, h⟩⟩

variable (ex : Executor) (f : Filter)

def meets (met : List Value) : Demand → Bool
  | .range min max =>
    let sentinel := f.setSentinels.any fun s => Executor.equalsAny met s.value
    if f.exclude then
      (Executor.comparesAny met .lt (.ofLiteral min) ||
        Executor.comparesAny met .gt (.ofLiteral max)) && !sentinel
    else
      (Executor.comparesAny met .gte (.ofLiteral min) &&
        Executor.comparesAny met .lte (.ofLiteral max)) || sentinel
  | .flags => f.unsetSentinels.all fun s => Executor.equalsAny met s.value == f.exclude
  | .values present =>
    f.exclude != (present.any (fun l => Executor.equalsAny met (.ofLiteral l)) ||
      (f.wantsMissing && Executor.equalsAny met .null))
  | .search pattern => f.exclude != met.any (ex.finds "i" pattern)
  | .truth =>
    if f.wantedTruths.isEmpty then
      !([true, false].any fun b => Executor.equalsAny met (.bool b))
    else f.wantedTruths.any fun b => Executor.equalsAny met (.bool b)

def admits (v : Value) : Demand → Bool
  | .range min max =>
    f.exclude != (v.within (.ofLiteral min) (.ofLiteral max) ||
      f.setSentinels.any fun s => v.same s.value)
  | .flags => f.unsetSentinels.all fun s => v.same s.value == f.exclude
  | .values present =>
    f.exclude != (present.any (fun l => v.same (.ofLiteral l)) || (f.wantsMissing && v.isNull))
  | .search pattern => f.exclude != (ex.finds "i" pattern v || (f.wantsMissing && v.isNull))
  | .truth =>
    if f.wantedTruths.isEmpty then !([true, false].any fun b => v.same (.bool b))
    else f.wantedTruths.any fun b => v.same (.bool b)

end Demand

namespace Executor

variable (ex : Executor)

theorem holdsAll_eq_all (qs : List Query) (d : Document) :
    ex.holdsAll qs d = qs.all (ex.holds · d) := by
  induction qs with
  | nil => rfl
  | cons q qs ih => rw [holdsAll, ih, List.all_cons]

theorem holds_allOf (qs : List Query) (d : Document) :
    ex.holds (.allOf qs) d = qs.all (ex.holds · d) := by
  rw [← holdsAll_eq_all]
  unfold Query.allOf
  split
  · rw [holdsAll, holdsAll, Bool.and_true]
  · rw [holds]

theorem holdsAny_eq_any (qs : List Query) (d : Document) :
    ex.holdsAny qs d = qs.any (ex.holds · d) := by
  induction qs with
  | nil => rfl
  | cons q qs ih => rw [holdsAny, ih, List.any_cons]

theorem holds_anyOf (qs : List Query) (d : Document) :
    ex.holds (.anyOf qs) d = qs.any (ex.holds · d) := by
  rw [← holdsAny_eq_any]
  unfold Query.anyOf
  split
  · rw [holdsAny, holdsAny, Bool.or_false]
  · rw [holds]

theorem holds_not (q : Query) (d : Document) : ex.holds q.not d = !ex.holds q d := by
  rw [Query.not, holds, holdsAny, holdsAny, Bool.or_false]

end Executor

namespace Filter

open Executor

variable (ex : Executor)

theorem holds_rangeCondition (path : String) (min max : Literal) (f : Filter) (d : Document) :
    ex.holds (rangeCondition path min max f) d =
      (Demand.range min max).meets ex f ((Value.obj d).reached (Path.components path)) := by
  have hset : ∀ met, (f.setSentinels.map Sentinel.literal).any
      (fun l => equalsAny met (.ofLiteral l)) = f.setSentinels.any fun s => equalsAny met s.value := by
    intro met
    rw [List.any_map]
    rfl
  have hempty : ∀ met, (f.setSentinels.map Sentinel.literal).isEmpty = true →
      f.setSentinels.any (fun s => equalsAny met s.value) = false := by
    intro met h
    rw [List.isEmpty_iff, List.map_eq_nil_iff] at h
    rw [h, List.any_nil]
  rw [rangeCondition, Demand.meets]
  generalize hmet : (Value.obj d).reached (Path.components path) = met
  cases f.exclude
  · by_cases h : (f.setSentinels.map Sentinel.literal).isEmpty
    · simp [h, hempty met h, Query.compare, holds, holdsAll, passes, hmet]
    · simp [h, hset, Query.compare, holds, holdsAll, holdsAny, passes, hmet]
  · by_cases h : (f.setSentinels.map Sentinel.literal).isEmpty
    · simp [h, hempty met h, Query.compare, holds, holdsAny, passes, hmet]
    · simp [h, hset, Query.compare, holds, holdsAll, holdsAny, passes, hmet]

theorem holds_flagCondition (path : String) (f : Filter) (d : Document) :
    ex.holds (flagCondition path f) d =
      Demand.flags.meets ex f ((Value.obj d).reached (Path.components path)) := by
  have hcompare : ∀ s : Sentinel, ex.holds (Query.compare path (if f.exclude then .eq else .ne)
      s.literal) d =
        (equalsAny ((Value.obj d).reached (Path.components path)) s.value == f.exclude) := by
    intro s
    rw [Query.compare, holds, Sentinel.value]
    cases f.exclude <;> simp [passes]
  rw [flagCondition, Demand.meets]
  split
  · next h => rw [h]; rfl
  · rw [holds_allOf, List.all_map]
    exact congrArg _ (funext hcompare)

theorem holds_truthCondition (path : String) (f : Filter) (d : Document) :
    ex.holds (truthCondition path f) d =
      Demand.truth.meets ex f ((Value.obj d).reached (Path.components path)) := by
  rw [truthCondition, Demand.meets, wantedTruths]
  cases ht : f.includeTrue.getD false <;> cases hf : f.includeFalse.getD false <;>
    simp [ht, hf, holds, Query.compare, passes, bothTruths, Value.ofLiteral]

theorem holds_demandCondition (path : String) (f : Filter) (demand : Demand) (d : Document) :
    ex.holds (demandCondition path f demand) d =
      demand.meets ex f ((Value.obj d).reached (Path.components path)) := by
  cases demand with
  | range min max => exact holds_rangeCondition ex path min max f d
  | flags => exact holds_flagCondition ex path f d
  | values present =>
    rw [demandCondition, holds, Demand.meets]
    cases f.exclude <;> cases f.wantsMissing <;> simp [passes, Value.ofLiteral]
  | search pattern =>
    rw [demandCondition, Demand.meets]
    cases f.exclude
    · simp [holds, passes]
    · simp [holds_not, holds, passes]
  | truth => exact holds_truthCondition ex path f d

theorem eval_present (e : Expr) (σ : Scope) :
    (ex.eval (.present e) σ).isTrue = !(ex.eval e σ).isNull := by
  rw [eval, Value.isTrue_bool, Value.compare_null]
  cases (ex.eval e σ).isNull <;> rfl

theorem eval_absent (e : Expr) (σ : Scope) :
    (ex.eval (absent e) σ).isTrue = (ex.eval e σ).isNull := by
  rw [absent, eval, Value.isTrue_bool, eval_present, Bool.not_not]

theorem eval_isIn (e : Expr) (ls : List Literal) (σ : Scope) :
    (ex.eval (e.isIn ls) σ).isTrue = ls.any fun l => (ex.eval e σ).same (.ofLiteral l) := by
  rw [Expr.isIn, eval, Value.isTrue_bool, eval, Value.ofLiteral, Value.ofLiterals_eq_map,
    Value.items, List.any_map]
  congr 1
  funext l
  exact Value.same_comm _ _

theorem eval_sentinelTest (e : Expr) (s : Sentinel) (equal : Bool) (σ : Scope) :
    (ex.eval (sentinelTest e s equal) σ).isTrue = ((ex.eval e σ).same s.value == equal) := by
  cases s with
  | missing =>
    have hnull : (ex.eval e σ).same Sentinel.missing.value = (ex.eval e σ).isNull :=
      Value.same_null _
    rw [hnull]
    cases equal
    · rw [sentinelTest, eval_present]
      cases (ex.eval e σ).isNull <;> rfl
    · rw [sentinelTest, eval_absent]
      cases (ex.eval e σ).isNull <;> rfl
  | nan | inf | negInf =>
    cases equal
    · simp [sentinelTest, Expr.ne, eval, Comparison.admits, Value.same, Sentinel.value, bne]
    · simp [sentinelTest, Expr.eq, eval, Comparison.admits, Value.same, Sentinel.value]

theorem eval_rangePredicate (e inside : Expr) (f : Filter) (σ : Scope) :
    (ex.eval (rangePredicate e inside f false) σ).isTrue =
      (f.exclude != ((ex.eval inside σ).isTrue ||
        f.setSentinels.any fun s => (ex.eval e σ).same s.value)) := by
  have hfinite : (ex.eval (if ((f.setSentinels.filter (· ≠ .missing)).map Sentinel.literal).isEmpty
      then inside else inside.or
        (e.isIn ((f.setSentinels.filter (· ≠ .missing)).map Sentinel.literal))) σ).isTrue =
      ((ex.eval inside σ).isTrue ||
        (f.setSentinels.filter (· ≠ .missing)).any fun s => (ex.eval e σ).same s.value) := by
    split
    · next h =>
      rw [List.isEmpty_iff, List.map_eq_nil_iff] at h
      rw [h, List.any_nil, Bool.or_false]
    · rw [eval_or, eval_isIn, List.any_map]
      rfl
  have hmissing : (ex.eval e σ).same Sentinel.missing.value = (ex.eval e σ).isNull :=
    Value.same_null _
  rw [any_setSentinels, hmissing, ← Bool.or_assoc, ← hfinite, rangePredicate]
  by_cases hm : f.missing = some true
  · rw [if_pos hm, decide_eq_true hm, Bool.true_and, ← eval_absent, ← eval_or]
    cases f.exclude <;> simp [eval]
  · rw [if_neg hm, decide_eq_false hm, Bool.false_and, Bool.or_false]
    cases f.exclude <;> simp [eval]

theorem eval_flagPredicate (e : Expr) (f : Filter) (σ : Scope) :
    (ex.eval (flagPredicate e f) σ).isTrue =
      f.unsetSentinels.all fun s => (ex.eval e σ).same s.value == f.exclude := by
  have hall : (f.unsetSentinels.map fun s => sentinelTest e s f.exclude).all
      (fun test => (ex.eval test σ).isTrue) =
        f.unsetSentinels.all fun s => (ex.eval e σ).same s.value == f.exclude := by
    rw [List.all_map]
    exact congrArg _ (funext fun s => eval_sentinelTest ex e s f.exclude σ)
  rw [← hall, flagPredicate]
  split
  · next h => rw [h]; rfl
  · next test h => rw [h, List.all_cons, List.all_nil, Bool.and_true]
  · rw [eval, Value.isTrue_bool, evalList_eq_map, List.all_map]
    rfl

theorem eval_settleMissing (e test : Expr) (f : Filter) (σ : Scope) :
    (ex.eval (settleMissing e test f false) σ).isTrue =
      (f.exclude != ((ex.eval test σ).isTrue || (f.wantsMissing && (ex.eval e σ).isNull))) := by
  rw [settleMissing]
  cases f.exclude <;> cases f.wantsMissing
  · simp
  · simp [eval_or, eval_absent]
  · simp [eval]
  · simp only [if_true, Bool.not_false, Bool.and_self, eval_and, eval_present]
    simp [eval]

theorem eval_truthPredicate (e : Expr) (f : Filter) (σ : Scope) :
    (ex.eval (truthPredicate e f) σ).isTrue =
      Demand.truth.admits ex f (ex.eval e σ) := by
  have heq (b : Bool) : (ex.eval (e.eq (.ofBool b)) σ).isTrue =
      (ex.eval e σ).same (.bool b) := rfl
  have hne (b : Bool) : (ex.eval (e.ne (.ofBool b)) σ).isTrue =
      !(ex.eval e σ).same (.bool b) := rfl
  rw [truthPredicate, Demand.admits, wantedTruths]
  cases ht : f.includeTrue.getD false <;> cases hf : f.includeFalse.getD false <;>
    simp [ht, hf, heq, hne, eval_and, eval_isIn, Value.ofLiteral]

/-- A frame support is compared by its ends and not as a value, so it is left out. -/
theorem eval_demandPredicate (e : Expr) {kind : FieldKind} (hkind : kind ≠ .frameSupport)
    (f : Filter) (demand : Demand) (σ : Scope) :
    (ex.eval (demandPredicate e kind f false demand) σ).isTrue =
      demand.admits ex f (ex.eval e σ) := by
  cases demand with
  | range min max =>
    have hinside : (ex.eval (withinBounds e kind min max) σ).isTrue =
        (ex.eval e σ).within (.ofLiteral min) (.ofLiteral max) := by
      unfold withinBounds
      split
      · exact absurd rfl hkind
      · rw [eval_and, Expr.gte, Expr.lte, eval, eval, eval, eval, Value.isTrue_bool,
          Value.isTrue_bool, Value.within]
    rw [demandPredicate, eval_rangePredicate, hinside, Demand.admits]
  | flags => exact eval_flagPredicate ex e f σ
  | values present => rw [demandPredicate, eval_settleMissing, eval_isIn, Demand.admits]
  | search pattern => rw [demandPredicate, eval_settleMissing, eval, Value.isTrue_bool, Demand.admits]
  | truth => exact eval_truthPredicate ex e f σ

end Filter
end MediaViews
