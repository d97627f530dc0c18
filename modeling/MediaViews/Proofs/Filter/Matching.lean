import MediaViews.Proofs.Executor.Rendering
import MediaViews.Proofs.Executor.Stages
import MediaViews.Proofs.Filter.Agreement
import MediaViews.Proofs.Filter.Targets
import MediaViews.Proofs.Schema.StoragePath

/-! Matching mode on the elements of a list. The match of documents asks each of its tests of the
list as a whole, so that one element may pass one test and another element the next; a predicate
asks all of them of one element. -/
namespace MediaViews

namespace Value

def Carries (names : List String) (element : Value) : Prop :=
  element.crossesList names = false ∧ ∃ v, element.at? names = some v ∧ v.isList = false

def held (names : List String) (element : Value) : Value :=
  (element.at? names).getD .null

theorem Carries.reached {names : List String} {element : Value} (h : element.Carries names) :
    element.reached names = [element.held names] := by
  obtain ⟨hpath, v, hv, hlist⟩ := h
  rw [reached_of_not_crossesList hpath (by
    intro w hw
    rw [hv] at hw
    exact Option.some.inj hw ▸ hlist), held, hv]
  rfl

theorem flatMap_reached {names : List String} {elements : List Value}
    (h : ∀ element ∈ elements, element.Carries names) :
    elements.flatMap (·.reached names) = elements.map (held names) := by
  rw [List.map_eq_flatMap]
  exact List.flatMap_congr fun element helement => (h element helement).reached

end Value

namespace Executor

theorem equalsAny_eq (vs : List Value) (c : Value) :
    equalsAny vs c = ((c.isNull && vs.isEmpty) || vs.any (·.same c)) := by
  rw [equalsAny]
  split
  · next h =>
    have hc : c = .null := Value.eq_null_of_isNull h
    have hnull : Value.null.isNull = true := rfl
    simp only [hc, Value.same_null, hnull, Bool.true_and]
  · next h => simp [h]

end Executor

theorem Sentinel.isNull_value (s : Sentinel) : s.value.isNull = decide (s = .missing) := by
  cases s <;> rfl

namespace Demand

variable (ex : Executor) (f : Filter)

/-- Whether a list of values meets a demand exactly when one of them does. A range must not be
straddled by values outside of it, the flags must not divide the values, and an empty list must not
stand for a missing value. -/
def IsDecidedByOne (vs : List Value) : Demand → Prop
  | .range min max =>
    (vs = [] → f.missing ≠ some true) ∧
      (Executor.comparesAny vs .gte (.ofLiteral min) →
        Executor.comparesAny vs .lte (.ofLiteral max) →
          vs.any ((Demand.range min max).admits ex f ·))
  | .flags =>
    (vs = [] → f.missing ≠ some true) ∧
      (vs.any (Demand.flags.admits ex f ·) → vs.all (Demand.flags.admits ex f ·))
  | .values _ => vs = [] → f.wantsMissing = false
  | .search pattern => f.wantsMissing → vs.any Value.isNull → vs.any (ex.finds "i" pattern)
  | .truth =>
    f.wantedTruths = [] →
      vs ≠ [] ∧ (vs.any (Demand.truth.admits ex f ·) → vs.all (Demand.truth.admits ex f ·))

theorem any_or {α : Type} (xs : List α) (p q : α → Bool) :
    xs.any (fun x => p x || q x) = (xs.any p || xs.any q) := by
  induction xs with
  | nil => rfl
  | cons x xs ih =>
    rw [List.any_cons, List.any_cons, List.any_cons, ih]
    cases p x <;> cases q x <;> simp

theorem any_sentinel_equalsAny (vs : List Value) :
    f.setSentinels.any (fun s => Executor.equalsAny vs s.value) =
      ((decide (f.missing = some true) && vs.isEmpty) ||
        vs.any fun v => f.setSentinels.any fun s => v.same s.value) := by
  -- Sentinels are met by one value each, but for the missing one, which an empty list meets too.
  have hset : f.setSentinels.any (fun s => decide (s = .missing) && vs.isEmpty) =
      (decide (f.missing = some true) && vs.isEmpty) := by
    have hfilter : (f.setSentinels.filter (· ≠ .missing)).any
        (fun s => decide (s = .missing) && vs.isEmpty) = false := by
      rw [List.any_eq_false]
      intro s hs
      have hne := (List.mem_filter.1 hs).2
      simp at hne
      simp [hne]
    rw [Filter.any_setSentinels, hfilter, Bool.false_or]
    simp
  simp only [Executor.equalsAny_eq, Sentinel.isNull_value]
  rw [any_or, hset, any_any_comm]

theorem any_within {min max : Literal} {rank : Nat} (hmin : (Value.ofLiteral min).rank = rank)
    (hmax : (Value.ofLiteral max).rank = rank) (hnan : (Value.ofLiteral min).isNan = false)
    {vs : List Value} (h : vs.any (·.within (.ofLiteral min) (.ofLiteral max))) :
    Executor.comparesAny vs .gte (.ofLiteral min) ∧
      Executor.comparesAny vs .lte (.ofLiteral max) := by
  obtain ⟨v, hv, hwithin⟩ := List.any_eq_true.1 h
  have hplaced : v.comparableTo rank := by
    by_contra hne
    rw [Value.within_of_not_comparableTo hmin hmax hnan (by simpa using hne)] at hwithin
    cases hwithin
  rw [Value.within, Bool.and_eq_true] at hwithin
  rw [Value.comparableTo] at hplaced
  simp only [Executor.comparesAny, List.any_eq_true, hmin, hmax]
  exact ⟨⟨v, hv, by rw [hplaced, hwithin.1]; rfl⟩, ⟨v, hv, by rw [hplaced, hwithin.2]; rfl⟩⟩

theorem meets_range_iff {min max : Literal} {rank : Nat}
    (hmin : (Value.ofLiteral min).rank = rank) (hmax : (Value.ofLiteral max).rank = rank)
    (hnan : (Value.ofLiteral min).isNan = false) (hinclude : f.exclude = false) (vs : List Value) :
    (Demand.range min max).meets ex f vs = vs.any ((Demand.range min max).admits ex f ·) ↔
      (Demand.range min max).IsDecidedByOne ex f vs := by
  have hwithin := @any_within _ _ _ hmin hmax hnan vs
  simp only [meets, admits, IsDecidedByOne, hinclude, Bool.false_eq_true, if_false,
    Bool.false_bne, any_sentinel_equalsAny, any_or]
  -- Values on both sides of the range meet both bounds, so what is left are the truth values of
  -- the bounds, with a value within the range meeting both.
  by_cases hnil : vs = []
  · subst hnil
    cases hm : decide (f.missing = some true) <;>
      simp [Executor.comparesAny, of_decide_eq_true, of_decide_eq_false, hm]
  · have hempty : vs.isEmpty = false := by simpa using hnil
    simp only [hempty, hnil, false_implies, true_and, Bool.and_false, Bool.false_or]
    generalize vs.any (·.within (.ofLiteral min) (.ofLiteral max)) = within at hwithin ⊢
    generalize (vs.any fun v => f.setSentinels.any fun s => v.same s.value) = sentinel
    generalize Executor.comparesAny vs .gte (.ofLiteral min) = lower at hwithin ⊢
    generalize Executor.comparesAny vs .lte (.ofLiteral max) = upper at hwithin ⊢
    revert hwithin
    cases within <;> cases sentinel <;> cases lower <;> cases upper <;> simp

theorem all_eq_any_iff {α : Type} (xs : List α) (p : α → Bool) :
    xs.all p = xs.any p ↔ xs ≠ [] ∧ (xs.any p → xs.all p) := by
  cases xs with
  | nil => simp
  | cons x xs =>
    have hany : (x :: xs).all p = true → (x :: xs).any p = true := by
      intro hall
      rw [List.all_cons, Bool.and_eq_true] at hall
      rw [List.any_cons, hall.1, Bool.true_or]
    generalize (x :: xs).all p = all at hany ⊢
    generalize (x :: xs).any p = any at hany ⊢
    revert hany
    cases all <;> cases any <;> simp

theorem mem_unset_missing : Sentinel.missing ∈ f.unsetSentinels ↔ f.missing ≠ some true := by
  simp [Filter.unsetSentinels, Sentinel.all, Filter.flag?]

theorem meets_flags_iff (hinclude : f.exclude = false) (vs : List Value) :
    Demand.flags.meets ex f vs = vs.any (Demand.flags.admits ex f ·) ↔
      Demand.flags.IsDecidedByOne ex f vs := by
  cases vs with
  | nil =>
    -- Nothing is met here, and of the sentinels only the missing one equals nothing.
    have hmeets : Demand.flags.meets ex f [] = !decide (Sentinel.missing ∈ f.unsetSentinels) := by
      rw [meets, Bool.eq_iff_iff, List.all_eq_true]
      simp only [hinclude, Executor.equalsAny_eq, Sentinel.isNull_value, List.isEmpty_nil,
        Bool.and_true, List.any_nil, Bool.or_false, beq_iff_eq, decide_eq_false_iff_not,
        Bool.not_eq_true']
      exact ⟨fun h hmem => h _ hmem rfl, fun h s hs hmissing => h (hmissing ▸ hs)⟩
    rw [hmeets, IsDecidedByOne, List.any_nil, Bool.not_eq_false', decide_eq_true_iff,
      mem_unset_missing]
    simp
  | cons v vs =>
    have hmeets : Demand.flags.meets ex f (v :: vs) =
        (v :: vs).all (Demand.flags.admits ex f ·) := by
      rw [meets, Bool.eq_iff_iff, List.all_eq_true, List.all_eq_true]
      simp only [admits, hinclude, Executor.equalsAny_eq, List.isEmpty_cons, Bool.and_false,
        Bool.false_or, List.all_eq_true, beq_iff_eq, List.any_eq_false, Bool.not_eq_true]
      exact ⟨fun h w hw s hs => h s hs w hw, fun h s hs w hw => h w hw s hs⟩
    have hne : v :: vs ≠ [] := List.cons_ne_nil v vs
    rw [hmeets, all_eq_any_iff, IsDecidedByOne]
    exact ⟨fun h => ⟨fun hnil => absurd hnil hne, h.2⟩, fun h => ⟨hne, h.2⟩⟩

theorem meets_values_iff {present : List Literal}
    (hpresent : ∀ l ∈ present, (Value.ofLiteral l).isNull = false) (hinclude : f.exclude = false)
    (vs : List Value) :
    (Demand.values present).meets ex f vs = vs.any ((Demand.values present).admits ex f ·) ↔
      (Demand.values present).IsDecidedByOne ex f vs := by
  have hequals : present.any (fun l => Executor.equalsAny vs (.ofLiteral l)) =
      vs.any fun v => present.any fun l => v.same (.ofLiteral l) := by
    rw [any_any_comm]
    rw [Bool.eq_iff_iff, List.any_eq_true, List.any_eq_true]
    refine exists_congr fun l => and_congr_right fun hl => ?_
    rw [Executor.equalsAny_eq, hpresent l hl, Bool.false_and, Bool.false_or]
  have hnull : Executor.equalsAny vs .null = (vs.isEmpty || vs.any Value.isNull) := rfl
  simp only [meets, admits, hinclude, Bool.false_bne, hequals, hnull, any_or, IsDecidedByOne]
  cases f.wantsMissing with
  | false => simp
  | true =>
    by_cases hnil : vs = []
    · simp [hnil]
    · have hempty : vs.isEmpty = false := by simpa using hnil
      simp [hnil, hempty]

theorem meets_search_iff (pattern : String) (hinclude : f.exclude = false) (vs : List Value) :
    (Demand.search pattern).meets ex f vs = vs.any ((Demand.search pattern).admits ex f ·) ↔
      (Demand.search pattern).IsDecidedByOne ex f vs := by
  simp only [meets, admits, hinclude, Bool.false_bne, any_or, IsDecidedByOne]
  generalize vs.any (ex.finds "i" pattern) = found
  cases f.wantsMissing <;> cases found <;> simp

theorem meets_truth_iff (vs : List Value) :
    Demand.truth.meets ex f vs = vs.any (Demand.truth.admits ex f ·) ↔
      Demand.truth.IsDecidedByOne ex f vs := by
  have hequals : ∀ b : Bool, Executor.equalsAny vs (.bool b) = vs.any (·.same (.bool b)) :=
    fun b => rfl
  by_cases hnone : f.wantedTruths = []
  · have hmeets : Demand.truth.meets ex f vs = vs.all (Demand.truth.admits ex f ·) := by
      simp only [meets, admits, hnone, List.isEmpty_nil, if_true, hequals]
      rw [← any_any_comm, List.not_any_eq_all_not]
    rw [hmeets, all_eq_any_iff, IsDecidedByOne]
    exact ⟨fun h _ => h, fun h => h hnone⟩
  · have hsome : f.wantedTruths.isEmpty = false := by simpa using hnone
    simp only [meets, admits, hsome, Bool.false_eq_true, if_false, hequals, IsDecidedByOne, hnone,
      false_implies, iff_true]
    exact (any_any_comm vs f.wantedTruths _).symm

end Demand

namespace Filter

theorem valueLiteral_isNull {kind : FieldKind} {value : String} {l : Literal}
    (h : valueLiteral kind value = .ok l) : (Value.ofLiteral l).isNull = false := by
  rw [valueLiteral] at h
  split at h
  · split at h
    · obtain rfl := Except.ok.inj h
      rfl
    · cases h
  · obtain rfl := Except.ok.inj h
    rfl

theorem presentLiterals_isNull {kind : FieldKind} {f : Filter} {present : List Literal}
    (h : f.presentLiterals kind = .ok present) :
    ∀ l ∈ present, (Value.ofLiteral l).isNull = false := by
  intro l hl
  obtain ⟨value, -, hvalue⟩ := Outcome.exists_of_mem_of_mapM_eq_ok h hl
  exact valueLiteral_isNull hvalue

theorem demandPredicate_of_including (e : Expr) (kind : FieldKind) {f : Filter}
    (hinclude : f.exclude = false) (isMatching : Bool) (demand : Demand) :
    demandPredicate e kind f isMatching demand = demandPredicate e kind f false demand := by
  cases demand <;> simp [demandPredicate, rangePredicate, settleMissing, hinclude]

end Filter

theorem Demand.meets_eq_any_iff (ex : Executor) {path : String} {kind : FieldKind} {f : Filter}
    {demand : Demand} (hkind : kind.isScalar) (hbounds : f.BoundsAreNumbers)
    (hinclude : f.exclude = false) (h : Filter.demand path kind f = .ok demand) (vs : List Value) :
    demand.meets ex f vs = vs.any (demand.admits ex f ·) ↔ demand.IsDecidedByOne ex f vs := by
  cases demand with
  | range min max =>
    obtain ⟨-, -, hmin, hmax, hnan⟩ := Filter.range_of_demand hkind hbounds h
    exact meets_range_iff ex f hmin hmax hnan hinclude vs
  | flags => exact meets_flags_iff ex f hinclude vs
  | values present =>
    have hliterals := Filter.values_of_demand hkind h
    exact meets_values_iff ex f (Filter.presentLiterals_isNull hliterals) hinclude vs
  | search pattern => exact meets_search_iff ex f pattern hinclude vs
  | truth => exact meets_truth_iff ex f vs

end MediaViews
