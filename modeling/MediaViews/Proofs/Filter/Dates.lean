import MediaViews.Proofs.Filter.Acceptance
import MediaViews.Proofs.Filter.Agreement

/-! Ranges on dates. Instants are whole milliseconds and bounds need not be: both bounds are cut toward
zero, so a positive lower bound moves down and a negative upper bound up. No instant within the bounds
is lost by that, but one beyond a bound may be taken for one within. -/
namespace MediaViews

namespace Instant

def Between (range : Double × Double) (t : Instant) : Prop :=
  range.1.toRat ≤ t.millis ∧ t.millis ≤ range.2.toRat

/-- The instant lies between the bounds, or at the whole number of milliseconds that one of them is
cut to. -/
def BetweenCut (range : Double × Double) (t : Instant) : Prop :=
  (range.1.toRat ≤ t.millis ∨ (0 < range.1.toRat ∧ range.1.toRat < t.millis + 1)) ∧
    (t.millis ≤ range.2.toRat ∨ (range.2.toRat < 0 ∧ t.millis < range.2.toRat + 1))

variable {range : Double × Double} {t : Instant}

theorem Between.cut (h : t.Between range) : t.BetweenCut range := ⟨.inl h.1, .inl h.2⟩

theorem betweenCut_iff :
    t.BetweenCut range ↔ range.1.truncate ≤ t.millis ∧ t.millis ≤ range.2.truncate := by
  rw [Double.truncate_le_iff, Double.le_truncate_iff, BetweenCut]

theorem BetweenCut.between_of_whole {m n : ℤ} (hmin : range.1.toRat = m) (hmax : range.2.toRat = n)
    (h : t.BetweenCut range) : t.Between range := by
  rw [BetweenCut, hmin, hmax] at h
  rw [Between, hmin, hmax]
  norm_cast at h ⊢
  omega

theorem millis_of_ofMillis? {n : ℤ} (h : ofMillis? n = some t) : t.millis = n := by
  rw [ofMillis?] at h
  split at h
  · exact (Option.some.inj h) ▸ rfl
  · cases h

end Instant

theorem Value.within_instants (t lower upper : Instant) :
    (Value.instant t).within (.instant lower) (.instant upper) ↔
      lower.millis ≤ t.millis ∧ t.millis ≤ upper.millis := by
  have hgte : Comparison.gte.admits (Ord.compare t.millis lower.millis) ↔ lower.millis ≤ t.millis := by
    rw [Comparison.admits, bne_iff_ne, compare_ge_iff_ge]
  have hlte : Comparison.lte.admits (Ord.compare t.millis upper.millis) ↔ t.millis ≤ upper.millis := by
    rw [Comparison.admits, bne_iff_ne, compare_le_iff_le]
  rw [Value.within, Value.compare, Value.compare, Bool.and_eq_true]
  exact and_congr hgte hlte

namespace Filter

variable {path : String} {kind : FieldKind} {f : Filter} {range : Double × Double}

theorem exists_instant_of_boundLiteral (hkind : kind.isTemporal) {bound : Double} {l : Literal}
    (h : boundLiteral path kind bound = .ok l) :
    ∃ t : Instant, l = .instant t ∧ t.millis = bound.truncate := by
  rw [boundLiteral, if_pos hkind] at h
  cases hinstant : boundInstant? bound with
  | none =>
    rw [hinstant] at h
    cases h
  | some t =>
    rw [hinstant] at h
    rw [boundInstant?] at hinstant
    split at hinstant
    · exact ⟨t, (Except.ok.inj h).symm, Instant.millis_of_ofMillis? hinstant⟩
    · cases hinstant

theorem exists_instants_of_demand (hkind : kind.isTemporal) (hrange : f.range = some range)
    {demand : Demand} (h : Filter.demand path kind f = .ok demand) :
    ∃ lower upper : Instant, demand = .range (.instant lower) (.instant upper) ∧
      lower.millis = range.1.truncate ∧ upper.millis = range.2.truncate := by
  have hnumeric : numericDemand path kind f = .ok demand := by
    cases kind with
    | date | dateTime => exact h
    | _ => cases hkind
  rcases numericDemand_cases hnumeric with ⟨bounds, min, max, hbounds, hmin, hmax, rfl⟩ | ⟨hnone, -⟩
  · obtain rfl := Option.some.inj (hrange.symm.trans hbounds)
    obtain ⟨lower, rfl, hlower⟩ := exists_instant_of_boundLiteral hkind hmin
    obtain ⟨upper, rfl, hupper⟩ := exists_instant_of_boundLiteral hkind hmax
    exact ⟨lower, upper, rfl, hlower, hupper⟩
  · rw [hrange] at hnone
    cases hnone

theorem admits_instant_iff (ex : Executor) (f : Filter) (lower upper t : Instant) :
    (Demand.range (.instant lower) (.instant upper)).admits ex f (.instant t) ↔
      (f.exclude = false ↔ lower.millis ≤ t.millis ∧ t.millis ≤ upper.millis) := by
  -- No sentinel is an instant, so the bounds alone decide.
  have hsentinel : (f.setSentinels.any fun s => (Value.instant t).same s.value) = false := by
    rw [List.any_eq_false]
    rintro (_ | _ | _ | _) - hsame <;> cases hsame
  rw [← Value.within_instants t lower upper, Demand.admits, hsentinel, Bool.or_false,
    Value.ofLiteral, Value.ofLiteral]
  cases f.exclude <;> simp

theorem meets_instant (ex : Executor) (f : Filter) (lower upper t : Instant) :
    (Demand.range (.instant lower) (.instant upper)).meets ex f [.instant t] =
      (Demand.range (.instant lower) (.instant upper)).admits ex f (.instant t) :=
  Demand.meets_range_single ex (by decide : 7 ≠ 0) rfl rfl rfl f (some (.instant t)) fun _ => rfl

/-- A range keeps the instants between its bounds as they are cut, and its opposite all others. Those
are the instants between the bounds, and all of them, where the bounds are whole. -/
theorem dateRange_kept_iff (ex : Executor) (e : Expr) {q : Query} (hkind : kind.isTemporal)
    (hrange : f.range = some range) (hq : condition path kind f = .ok q) :
    ∃ p, predicate path e f false kind = .ok p ∧ ∀ t : Instant,
      (∀ d : Document, (Value.obj d).at? (Path.components path) = some (.instant t) →
        (ex.holds q d ↔ (f.exclude = false ↔ t.BetweenCut range))) ∧
      (∀ σ, ex.eval e σ = .instant t →
        ((ex.eval p σ).isTrue ↔ (f.exclude = false ↔ t.BetweenCut range))) ∧
      (t.Between range → t.BetweenCut range) ∧
      ∀ m n : ℤ, range.1.toRat = m → range.2.toRat = n → t.BetweenCut range → t.Between range := by
  have hlist : kind.isList = false := by
    cases kind with
    | list element => cases hkind
    | _ => rfl
  have hsupport : kind ≠ .frameSupport := by
    rintro rfl
    cases hkind
  have hleaf : condition path kind f = leafCondition path kind f := by
    cases kind with
    | list element => cases hkind
    | _ => rfl
  rw [hleaf, leafCondition_eq_map] at hq
  obtain ⟨demand, hdemand, rfl⟩ := Outcome.exists_of_map_eq_ok hq
  obtain ⟨lower, upper, rfl, hlower, hupper⟩ := exists_instants_of_demand hkind hrange hdemand
  refine ⟨demandPredicate e kind f false (.range (.instant lower) (.instant upper)), ?_,
    fun t => ?_⟩
  · rw [predicate_eq_map path e f false hlist, hdemand]
    rfl
  have hkept := admits_instant_iff ex f lower upper t
  rw [hlower, hupper, ← Instant.betweenCut_iff] at hkept
  refine ⟨fun d hd => ?_, fun σ hσ => ?_, Instant.Between.cut, fun m n hmin hmax hcut => ?_⟩
  · have hreached : (Value.obj d).reached (Path.components path) = [.instant t] :=
      Value.reached_of_at? hd rfl
    rw [holds_demandCondition, hreached, meets_instant, hkept]
  · rw [eval_demandPredicate ex e hsupport, hσ, hkept]
  · exact hcut.between_of_whole hmin hmax

def halfMilli : Double := .ofRank false (1022 * 2 ^ 52)

theorem toRat_halfMilli : halfMilli.toRat = 1 / 2 := by
  have hrank : min (1022 * 2 ^ 52) Double.infinityRank = 1022 * 2 ^ 52 := by decide +kernel
  have hsignificand : Double.significand (1022 * 2 ^ 52) = 2 ^ 52 := by decide +kernel
  have hexponent : Double.exponent (1022 * 2 ^ 52) = -53 := by decide +kernel
  simp only [halfMilli, Double.ofRank, Double.toRat, Double.magnitude, hrank, hsignificand, hexponent]
  norm_num

def fromHalfToTwo : Filter := { range := some (halfMilli, .ofInt 2) }

def firstMillis (n : Fin 3) : Instant := ⟨n.val, by omega, by omega⟩

theorem dateRange_kept_iff_inner :
    ∃ q p, condition "taken" .dateTime fromHalfToTwo = .ok q ∧
      predicate "taken" (.field "taken") fromHalfToTwo false .dateTime = .ok p ∧
      (default : Executor).holds q [("taken", .instant (firstMillis 1))] = true ∧
      ((default : Executor).eval p ⟨[("taken", .instant (firstMillis 1))], []⟩).isTrue = true := by
  have hpath : Path.components "taken" = ["taken"] := by decide
  obtain ⟨q, hq⟩ : ∃ q, condition "taken" .dateTime fromHalfToTwo = .ok q := ⟨_, rfl⟩
  obtain ⟨p, hp, hkept⟩ := dateRange_kept_iff (default : Executor) (.field "taken") rfl rfl hq
  have hcut : (firstMillis 1).BetweenCut (halfMilli, .ofInt 2) := by
    rw [Instant.betweenCut_iff]
    decide +kernel
  obtain ⟨hholds, heval, -⟩ := hkept (firstMillis 1)
  refine ⟨q, p, hq, hp, (hholds _ ?_).2 (iff_of_true rfl hcut), (heval _ ?_).2 (iff_of_true rfl hcut)⟩
  · rw [hpath]
    rfl
  · rw [Expr.field, Executor.eval, hpath]
    rfl

/-- The first instant of all is half a millisecond before the lower bound, and it is kept. -/
theorem dateRange_keeps_earlier :
    ∃ q, condition "taken" .dateTime fromHalfToTwo = .ok q ∧
      ¬(firstMillis 0).Between (halfMilli, .ofInt 2) ∧
      (default : Executor).holds q [("taken", .instant (firstMillis 0))] = true := by
  have hpath : Path.components "taken" = ["taken"] := by decide
  refine ⟨rangeCondition "taken" (.instant (firstMillis 0)) (.instant (firstMillis 2)) fromHalfToTwo,
    rfl, fun hbetween => ?_, ?_⟩
  · have hlower := hbetween.1
    rw [toRat_halfMilli] at hlower
    norm_num [firstMillis] at hlower
  · rw [holds_rangeCondition, hpath]
    decide +kernel

end Filter
end MediaViews
