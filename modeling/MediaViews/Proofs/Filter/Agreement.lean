import MediaViews.Proofs.Filter.Bounds
import MediaViews.Proofs.Filter.Meaning

/-! On a value that is no list the condition on documents and the predicate on elements agree,
though one compares only values of one type and the other orders values across types. -/
namespace MediaViews

namespace FieldKind

def isScalar : FieldKind → Bool
  | bool | int | float | date | dateTime | string | objectId => true
  | frameSupport | dict | list _ | embedded | label _ => false

def isRanged (kind : FieldKind) : Bool := kind.isNumeric || kind.isTemporal

def boundRank (kind : FieldKind) : Nat := if kind.isTemporal then 7 else 1

theorem isList_of_isScalar {kind : FieldKind} (h : kind.isScalar) : kind.isList = false := by
  cases kind <;> first | rfl | cases h

theorem element?_of_isScalar {kind : FieldKind} (h : kind.isScalar) : kind.element? = none := by
  cases kind <;> first | rfl | cases h

theorem ne_frameSupport_of_isScalar {kind : FieldKind} (h : kind.isScalar) :
    kind ≠ .frameSupport := by
  rintro rfl
  cases h

end FieldKind

namespace Value

def comparableTo (rank : Nat) (v : Value) : Bool := v.rank == rank && !v.isNan

theorem compare_numbers {v w : Value} {x y : Double} (hv : v.number? = some x)
    (hw : w.number? = some y) : v.compare w = Ord.compare x.position y.position := by
  cases v <;> cases w <;> simp only [number?, Option.some.injEq, reduceCtorEq] at hv hw <;>
    subst hv hw <;> rfl

theorem exists_number {v : Value} (h : v.rank = 1) : ∃ x, v.number? = some x := by
  cases v <;> simp [rank] at h
  · exact ⟨_, rfl⟩
  · exact ⟨_, rfl⟩

theorem rank_of_isNan {v : Value} (h : v.isNan) : v.rank = 1 := by
  cases v <;> first | rfl | simp [isNan, number?] at h

theorem compare_of_isNan {v w : Value} (hv : v.isNan) (hrank : w.rank = 1) (hw : w.isNan = false) :
    v.compare w = .lt := by
  have hvalue : v.number? = some .nan := by simpa [isNan] using hv
  obtain ⟨y, hy⟩ := exists_number hrank
  rw [compare_numbers hvalue hy]
  cases y with
  | nan => simp [isNan, hy] at hw
  | number negative rank => rfl

theorem within_of_rank_ne {v min max : Value} (hrank : min.rank = max.rank)
    (h : v.rank ≠ min.rank) : v.within min max = false := by
  rw [within, compare_of_rank_ne h, compare_of_rank_ne (hrank ▸ h), ← hrank]
  rcases Nat.lt_or_gt_of_ne h with hlt | hgt
  · rw [Nat.compare_eq_lt.2 hlt]
    rfl
  · rw [Nat.compare_eq_gt.2 hgt]
    rfl

theorem within_of_not_comparableTo {v min max : Value} {rank : Nat} (hmin : min.rank = rank)
    (hmax : max.rank = rank) (hnan : min.isNan = false) (h : v.comparableTo rank = false) :
    v.within min max = false := by
  by_cases hrank : v.rank = min.rank
  · have hv : v.isNan := by simpa [comparableTo, hrank, hmin] using h
    rw [within, compare_of_isNan hv (hrank ▸ rank_of_isNan hv) hnan]
    rfl
  · exact within_of_rank_ne (hmin.trans hmax.symm) hrank

end Value

namespace Executor

theorem equalsAny_single (met : Option Value) (c : Value) :
    equalsAny met.toList c = (met.getD .null).same c := by
  cases met with
  | none =>
    rw [Option.toList_none, Option.getD_none, Value.same_comm, Value.same_null, equalsAny]
    cases c.isNull <;> rfl
  | some v =>
    rw [Option.toList_some, Option.getD_some, equalsAny]
    split
    · next h =>
      cases c <;> simp only [Value.isNull, Bool.false_eq_true] at h
      rw [Value.same_null]
      simp
    · simp

theorem comparesAny_single (met : Option Value) (op : Comparison) {c : Value} (hc : c.rank ≠ 0) :
    comparesAny met.toList op c =
      ((met.getD .null).comparableTo c.rank && op.admits ((met.getD .null).compare c)) := by
  cases met with
  | none =>
    have hnull : (Value.null.rank == c.rank) = false := by simpa [Value.rank] using Ne.symm hc
    simp [comparesAny, Value.comparableTo, hnull]
  | some v => simp [comparesAny, Value.comparableTo]

end Executor

namespace Filter

theorem boundLiteral_spec {path : String} {kind : FieldKind} {value : Double} {l : Literal}
    (h : boundLiteral path kind value = .ok l) :
    (Value.ofLiteral l).rank = kind.boundRank ∧
      (value ≠ .nan → (Value.ofLiteral l).isNan = false) := by
  rw [boundLiteral] at h
  rw [FieldKind.boundRank]
  split at h
  · next htemporal =>
    split at h
    · obtain rfl := Except.ok.inj h
      rw [if_pos htemporal]
      exact ⟨rfl, fun _ => rfl⟩
    · cases h
  · next htemporal =>
    rw [if_neg htemporal]
    split at h
    · obtain rfl := Except.ok.inj h
      exact ⟨rfl, fun hne => by simpa [Value.ofLiteral, Value.isNan, Value.number?] using hne⟩
    · obtain rfl := Except.ok.inj h
      cases value with
      | nan => exact ⟨rfl, fun hne => absurd rfl hne⟩
      | number negative rank =>
        rw [Literal.ofDouble]
        split
        · exact ⟨rfl, fun _ => rfl⟩
        · exact ⟨rfl, fun _ => rfl⟩

theorem demand_cases {path : String} {kind : FieldKind} {f : Filter} {d : Demand}
    (hkind : kind.isScalar) (h : demand path kind f = .ok d) :
    (kind.isRanged ∧ numericDemand path kind f = .ok d) ∨ valueDemand path kind f = .ok d ∨
      d = .truth := by
  cases kind with
  | int | float | date | dateTime => exact .inl ⟨rfl, h⟩
  | string | objectId => exact .inr (.inl h)
  | bool => exact .inr (.inr (Except.ok.inj h).symm)
  | frameSupport | dict | list _ | embedded | label _ => cases hkind

theorem range_of_demand {path : String} {kind : FieldKind} {f : Filter} {min max : Literal}
    (hkind : kind.isScalar) (hbounds : f.BoundsAreNumbers)
    (h : demand path kind f = .ok (.range min max)) :
    kind.isRanged ∧ f.range.isSome ∧ (Value.ofLiteral min).rank = kind.boundRank ∧
      (Value.ofLiteral max).rank = kind.boundRank ∧ (Value.ofLiteral min).isNan = false := by
  rcases demand_cases hkind h with ⟨hranged, hnumeric⟩ | hvalue | htruth
  · rcases numericDemand_cases hnumeric with ⟨range, lo, hi, hrange, hlo, hhi, hdemand⟩ | ⟨-, hdemand⟩
    · obtain ⟨rfl, rfl⟩ := Demand.range.inj hdemand
      have hnan := (boundLiteral_spec hlo).2 (hbounds range hrange).1
      exact ⟨hranged, hrange ▸ rfl, (boundLiteral_spec hlo).1, (boundLiteral_spec hhi).1, hnan⟩
    · cases hdemand
  · rcases valueDemand_cases hvalue with ⟨present, -, -, hdemand⟩ | ⟨-, -, text, -, hdemand⟩
    · cases hdemand
    · cases hdemand
  · cases htruth

theorem values_of_demand {path : String} {kind : FieldKind} {f : Filter} {present : List Literal}
    (hkind : kind.isScalar) (h : demand path kind f = .ok (.values present)) :
    f.presentLiterals kind = .ok present := by
  rcases demand_cases hkind h with ⟨-, hnumeric⟩ | hvalue | htruth
  · rcases numericDemand_cases hnumeric with ⟨range, min, max, -, -, -, hdemand⟩ | ⟨-, hdemand⟩
    · cases hdemand
    · cases hdemand
  · rcases valueDemand_cases hvalue with ⟨literals, -, hliterals, hdemand⟩ | ⟨-, -, text, -, hdemand⟩
    · exact Demand.values.inj hdemand ▸ hliterals
    · cases hdemand
  · cases htruth

def SearchesMissing (f : Filter) (kind : FieldKind) : Prop :=
  kind = .string ∧ f.values = none ∧ f.search.isSome ∧ f.missing = some true

end Filter

namespace Demand

variable (ex : Executor)

theorem meets_range_single {min max : Literal} {rank : Nat} (hrank : rank ≠ 0)
    (hmin : (Value.ofLiteral min).rank = rank) (hmax : (Value.ofLiteral max).rank = rank)
    (hnan : (Value.ofLiteral min).isNan = false) (f : Filter) (met : Option Value)
    (hplaced : f.exclude → (met.getD .null).comparableTo rank) :
    (Demand.range min max).meets ex f met.toList =
      (Demand.range min max).admits ex f (met.getD .null) := by
  have hmin' : (Value.ofLiteral min).rank ≠ 0 := hmin ▸ hrank
  have hmax' : (Value.ofLiteral max).rank ≠ 0 := hmax ▸ hrank
  rw [meets, admits]
  simp only [Executor.equalsAny_single, Executor.comparesAny_single met _ hmin',
    Executor.comparesAny_single met _ hmax', hmin, hmax]
  generalize met.getD .null = v at hplaced ⊢
  -- A condition that excludes compares within the type of the bounds and a predicate negates the
  -- order across types, so without a place between the bounds the two would differ.
  cases hexclude : f.exclude with
  | true =>
    rw [hplaced hexclude, Value.within]
    cases v.compare (.ofLiteral min) <;> cases v.compare (.ofLiteral max) <;>
      simp [Comparison.admits]
  | false =>
    cases hv : v.comparableTo rank with
    | true => simp [Value.within]
    | false => simp [Value.within_of_not_comparableTo hmin hmax hnan hv]

end Demand

namespace Filter

variable (ex : Executor)

end Filter
end MediaViews
