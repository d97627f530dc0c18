import MediaViews.Proofs.Filter.Depth
import MediaViews.Proofs.Filter.Matching

/-! Ranges on frame supports. A frame support is stored as a list of its ends, and a condition on
documents compares each bound with either end, so it asks for less than the predicate on elements,
which compares the lower bound with the first end and the upper bound with the last one. -/
namespace MediaViews

namespace Value

def IsAtMost (v w : Value) : Prop := (v.compare w).isLE

instance (v w : Value) : Decidable (v.IsAtMost w) :=
  inferInstanceAs (Decidable ((v.compare w).isLE = true))

theorem admits_lte_iff (v w : Value) : Comparison.lte.admits (v.compare w) ↔ v.IsAtMost w := by
  rw [IsAtMost]
  cases v.compare w <;> decide

theorem admits_gte_iff (v w : Value) : Comparison.gte.admits (v.compare w) ↔ w.IsAtMost v := by
  rw [IsAtMost, ← swap_compare v w]
  cases v.compare w <;> decide

theorem IsAtMost.trans {u v w : Value} (hu : u.rank = 1) (hv : v.rank = 1) (hw : w.rank = 1)
    (huv : u.IsAtMost v) (hvw : v.IsAtMost w) : u.IsAtMost w := by
  obtain ⟨x, hx⟩ := exists_number hu
  obtain ⟨y, hy⟩ := exists_number hv
  obtain ⟨z, hz⟩ := exists_number hw
  rw [IsAtMost, compare_numbers hx hy] at huv
  rw [IsAtMost, compare_numbers hy hz] at hvw
  rw [IsAtMost, compare_numbers hx hz]
  exact Std.TransCmp.isLE_trans huv hvw

structure AreEnds (first last : Value) : Prop where
  comparable_first : first.comparableTo 1
  comparable_last : last.comparableTo 1
  ordered : first.IsAtMost last

def Overlaps (range : Double × Double) (first last : Value) : Prop :=
  (float range.1).IsAtMost last ∧ first.IsAtMost (.float range.2)

def LiesWithin (range : Double × Double) (first last : Value) : Prop :=
  (float range.1).IsAtMost first ∧ last.IsAtMost (.float range.2)

variable {first last : Value} {range : Double × Double}

theorem AreEnds.rank_first (h : AreEnds first last) : first.rank = 1 := by
  have hcomparable := h.comparable_first
  simp only [comparableTo, Bool.and_eq_true, beq_iff_eq] at hcomparable
  exact hcomparable.1

theorem AreEnds.rank_last (h : AreEnds first last) : last.rank = 1 := by
  have hcomparable := h.comparable_last
  simp only [comparableTo, Bool.and_eq_true, beq_iff_eq] at hcomparable
  exact hcomparable.1

theorem LiesWithin.overlaps (hends : AreEnds first last) (h : LiesWithin range first last) :
    Overlaps range first last :=
  ⟨h.1.trans rfl hends.rank_first hends.rank_last hends.ordered,
    hends.ordered.trans hends.rank_first hends.rank_last rfl h.2⟩

end Value

namespace Filter

open Value (AreEnds Overlaps LiesWithin)

def AdmitsEnd (f : Filter) (first last : Value) : Prop :=
  ∃ s ∈ f.setSentinels, first.same s.value ∨ last.same s.value

variable {first last : Value} {range : Double × Double} {f : Filter}

theorem boundLiteral_frameSupport (path : String) (bound : Double) :
    boundLiteral path .frameSupport bound = .ok (.ofDouble bound) := rfl

theorem comparesAny_ends (hends : AreEnds first last) (op : Comparison) (bound : Double) :
    Executor.comparesAny [first, last] op (.ofLiteral (.ofDouble bound)) =
      (op.admits (first.compare (.float bound)) || op.admits (last.compare (.float bound))) := by
  have hrank : (Value.ofLiteral (.ofDouble bound)).rank = 1 :=
    (boundLiteral_spec (boundLiteral_frameSupport "" bound)).1
  have hfirst := hends.comparable_first
  have hlast := hends.comparable_last
  rw [Value.comparableTo] at hfirst hlast
  simp only [Executor.comparesAny, List.any_cons, List.any_nil, hrank, hfirst, hlast,
    Value.compare_ofDouble, Bool.true_and, Bool.or_false]

theorem comparesAny_ends_iff (hends : AreEnds first last) :
    (Executor.comparesAny [first, last] .gte (.ofLiteral (.ofDouble range.1)) ∧
      Executor.comparesAny [first, last] .lte (.ofLiteral (.ofDouble range.2))) ↔
        Overlaps range first last := by
  -- Where either end reaches a bound, the one that is farther from it does.
  rw [comparesAny_ends hends, comparesAny_ends hends, Bool.or_eq_true, Bool.or_eq_true,
    Value.admits_gte_iff, Value.admits_gte_iff, Value.admits_lte_iff, Value.admits_lte_iff,
    Overlaps]
  refine and_congr (or_iff_right_of_imp fun hfirst => ?_) (or_iff_left_of_imp fun hlast => ?_)
  · exact hfirst.trans rfl hends.rank_first hends.rank_last hends.ordered
  · exact hends.ordered.trans hends.rank_first hends.rank_last rfl hlast

theorem any_sentinel_ends_iff (f : Filter) (first last : Value) :
    f.setSentinels.any (fun s => Executor.equalsAny [first, last] s.value) ↔
      f.AdmitsEnd first last := by
  simp [List.any_eq_true, Executor.equalsAny_eq, AdmitsEnd]

variable (ex : Executor) (e : Expr)

theorem build_frameSupport (path : String) (hrange : f.range = some range) :
    condition path .frameSupport f =
        .ok (rangeCondition path (.ofDouble range.1) (.ofDouble range.2) f) ∧
      predicate path e f false .frameSupport =
        .ok (rangePredicate e
          (withinBounds e .frameSupport (.ofDouble range.1) (.ofDouble range.2)) f false) := by
  have hdemand : demand path .frameSupport f =
      .ok (.range (.ofDouble range.1) (.ofDouble range.2)) := by
    rw [demand, numericDemand, hrange]
    rfl
  constructor
  · have hleaf : condition path .frameSupport f = leafCondition path .frameSupport f := rfl
    rw [hleaf, leafCondition_eq_map, hdemand]
    rfl
  · rw [predicate_eq_map path e f false rfl, hdemand]
    rfl

theorem holds_rangeCondition_ends (path : String) (range : Double × Double)
    (hends : AreEnds first last) (hinclude : f.exclude = false) (d : Document)
    (hd : (Value.obj d).at? (Path.components path) = some (.arr [first, last])) :
    ex.holds (rangeCondition path (.ofDouble range.1) (.ofDouble range.2) f) d ↔
      Overlaps range first last ∨ f.AdmitsEnd first last := by
  have hreached : (Value.obj d).reached (Path.components path) = [first, last] :=
    Value.reached_of_at?_eq hd
  rw [holds_rangeCondition, hreached, Demand.meets, hinclude, if_neg Bool.false_ne_true,
    Bool.or_eq_true, Bool.and_eq_true, any_sentinel_ends_iff, comparesAny_ends_iff hends]

theorem eval_rangePredicate_ends (range : Double × Double) (first last : Value)
    (hinclude : f.exclude = false) (σ : Scope)
    (hσ : ex.eval e σ = .arr [first, last]) :
    (ex.eval (rangePredicate e
      (withinBounds e .frameSupport (.ofDouble range.1) (.ofDouble range.2)) f false) σ).isTrue ↔
        LiesWithin range first last := by
  -- No sentinel is a list, so the predicate looks at the bounds only.
  have hsentinel :
      (f.setSentinels.any fun s => (Value.arr [first, last]).same s.value) = false := by
    rw [List.any_eq_false]
    rintro (_ | _ | _ | _) - hsame <;> cases hsame
  rw [eval_rangePredicate, hσ, hsentinel, Bool.or_false, hinclude, Bool.false_bne,
    eval_withinBounds ex e (boundLiteral_frameSupport "" range.1)
      (boundLiteral_frameSupport "" range.2), hσ, insideRange, Bool.and_eq_true, LiesWithin]
  exact and_congr (Value.admits_gte_iff _ _) (Value.admits_lte_iff _ _)

/-- The condition on documents asks a support for some part between the bounds and the predicate on
elements for all of it, so they agree on it unless it only overlaps the range. -/
theorem frameSupport_condition_iff_overlaps (path : String) (hrange : f.range = some range)
    (hinclude : f.exclude = false) :
    ∃ q p, condition path .frameSupport f = .ok q ∧
      predicate path e f false .frameSupport = .ok p ∧
      ∀ first last, AreEnds first last →
        (∀ d : Document, (Value.obj d).at? (Path.components path) = some (.arr [first, last]) →
          (ex.holds q d ↔ Overlaps range first last ∨ f.AdmitsEnd first last)) ∧
        (∀ σ, ex.eval e σ = .arr [first, last] →
          ((ex.eval p σ).isTrue ↔ LiesWithin range first last)) ∧
        ∀ (d : Document) (σ : Scope),
          (Value.obj d).at? (Path.components path) = some (.arr [first, last]) →
          ex.eval e σ = .arr [first, last] →
            (ex.holds q d = (ex.eval p σ).isTrue ↔
              (Overlaps range first last ∨ f.AdmitsEnd first last →
                LiesWithin range first last)) := by
  obtain ⟨hq, hp⟩ := build_frameSupport e path hrange
  refine ⟨_, _, hq, hp, fun first last hends => ?_⟩
  have hholds := holds_rangeCondition_ends ex path range hends hinclude
  have heval := eval_rangePredicate_ends ex e range first last hinclude
  refine ⟨hholds, heval, fun d σ hd hσ => ?_⟩
  rw [Bool.eq_iff_iff, hholds d hd, heval σ hσ]
  exact ⟨Iff.mp, fun h => ⟨h, fun hwithin => .inl (hwithin.overlaps hends)⟩⟩

def fromTwoToFive : Filter := { range := some (.ofInt 2, .ofInt 5) }

theorem frameSupport_condition_iff_overlaps_inner :
    ∃ q p, condition "support" .frameSupport fromTwoToFive = .ok q ∧
      predicate "support" (.field "support") fromTwoToFive false .frameSupport = .ok p ∧
      ((default : Executor).holds q [("support", .arr [.int 3, .int 4])] =
        ((default : Executor).eval p ⟨[("support", .arr [.int 3, .int 4])], []⟩).isTrue) := by
  have hpath : Path.components "support" = ["support"] := by decide
  obtain ⟨q, p, hq, hp, hends⟩ := frameSupport_condition_iff_overlaps (default : Executor)
    (.field "support") "support" (rfl : fromTwoToFive.range = some (.ofInt 2, .ofInt 5)) rfl
  obtain ⟨-, -, hagree⟩ := hends (.int 3) (.int 4) ⟨by decide, by decide, by decide⟩
  refine ⟨q, p, hq, hp, (hagree _ ⟨[("support", .arr [.int 3, .int 4])], []⟩ ?_ ?_).2 fun _ => ?_⟩
  · rw [hpath]
    rfl
  · rw [Expr.field, Executor.eval, hpath]
    rfl
  · exact ⟨by decide +kernel, by decide +kernel⟩

/-- A support around the range: its first end meets the upper bound and its last one the lower, so
the document is kept, though no more than a part of the support is between the bounds. -/
theorem frameSupport_condition_without_predicate :
    ∃ q p, condition "support" .frameSupport fromTwoToFive = .ok q ∧
      predicate "support" (.field "support") fromTwoToFive false .frameSupport = .ok p ∧
      (default : Executor).holds q [("support", .arr [.int 1, .int 9])] = true ∧
      ((default : Executor).eval p ⟨[("support", .arr [.int 1, .int 9])], []⟩).isTrue = false := by
  have hpath : Path.components "support" = ["support"] := by decide
  obtain ⟨hq, hp⟩ := build_frameSupport (.field "support") "support"
    (rfl : fromTwoToFive.range = some (.ofInt 2, .ofInt 5))
  refine ⟨_, _, hq, hp, ?_, ?_⟩
  · rw [holds_rangeCondition, hpath]
    decide +kernel
  · decide +kernel

end Filter
end MediaViews
