import MediaViews.Proofs.Filter.Depth
import MediaViews.Proofs.Filter.Matching

/-! Missing values of strings and identifiers. The predicate on elements says of every filter what
becomes of them, and the condition on documents of those by values only: a search looks for a text,
whatever else is asked for. -/
namespace MediaViews

open Executor (equalsAny equalsAny_eq)

def Document.IsMissingAt (path : String) (d : Document) : Prop :=
  ∀ v ∈ (Value.obj d).reached (Path.components path), v.isNull

theorem Document.isMissingAt_of_at? {path : String} {d : Document}
    (hpath : (Value.obj d).crossesList (Path.components path) = false)
    (hnull : (((Value.obj d).at? (Path.components path)).getD .null).isNull) :
    d.IsMissingAt path := by
  have hreached : (Value.obj d).reached (Path.components path) =
      ((Value.obj d).at? (Path.components path)).toList :=
    Value.reached_of_not_crossesList hpath fun w hw => by
      rw [Option.mem_def.1 hw, Option.getD_some] at hnull
      rw [Value.eq_null_of_isNull hnull]
      rfl
  intro v hv
  rw [hreached, Option.mem_toList] at hv
  rw [hv] at hnull
  exact hnull

namespace Demand

variable (ex : Executor) {f : Filter} {met : List Value}

theorem equalsAny_of_missing (hmet : ∀ v ∈ met, v.isNull) {c : Value} (hc : c.isNull = false) :
    equalsAny met c = false := by
  rw [equalsAny_eq, hc, Bool.false_and, Bool.false_or, List.any_eq_false]
  intro v hv
  rw [Value.eq_null_of_isNull (hmet v hv), Value.same_comm, Value.same_null, hc]
  exact Bool.false_ne_true

theorem equalsAny_null_of_missing (hmet : ∀ v ∈ met, v.isNull) : equalsAny met .null = true := by
  cases met with
  | nil => rfl
  | cons v met =>
    have hv : v.isNull := hmet v List.mem_cons_self
    simp [equalsAny_eq, Value.same_null, hv]

theorem meets_values_of_missing {present : List Literal}
    (hpresent : ∀ l ∈ present, (Value.ofLiteral l).isNull = false) (hmet : ∀ v ∈ met, v.isNull) :
    (Demand.values present).meets ex f met = (f.wantsMissing != f.exclude) := by
  have hvalues : (present.any fun l => equalsAny met (.ofLiteral l)) = false := by
    rw [List.any_eq_false]
    intro l hl
    rw [equalsAny_of_missing hmet (hpresent l hl)]
    exact Bool.false_ne_true
  rw [meets, hvalues, equalsAny_null_of_missing hmet, Bool.false_or, Bool.and_true, bne_comm]

theorem meets_search_of_missing (pattern : String) (hmet : ∀ v ∈ met, v.isNull) :
    (Demand.search pattern).meets ex f met = f.exclude := by
  have hfound : met.any (ex.finds "i" pattern) = false := by
    rw [List.any_eq_false]
    intro v hv
    rw [Value.eq_null_of_isNull (hmet v hv)]
    exact Bool.false_ne_true
  rw [meets, hfound, Bool.bne_false]

end Demand

namespace Filter

variable (ex : Executor) {path : String} {kind : FieldKind} {f : Filter}

theorem eval_settleMissing_of_isNull {e test : Expr} {σ : Scope} (hnull : (ex.eval e σ).isNull)
    (htest : (ex.eval test σ).isTrue = false) :
    (ex.eval (settleMissing e test f false) σ).isTrue = (f.wantsMissing != f.exclude) := by
  rw [eval_settleMissing, htest, hnull, Bool.false_or, Bool.and_true, bne_comm]

theorem eval_demandPredicate_of_isNull {demand : Demand} (h : valueDemand path kind f = .ok demand)
    {e : Expr} {σ : Scope} (hnull : (ex.eval e σ).isNull) :
    (ex.eval (demandPredicate e kind f false demand) σ).isTrue = (f.wantsMissing != f.exclude) := by
  rcases valueDemand_cases h with ⟨present, -, hpresent, rfl⟩ | ⟨-, -, text, -, rfl⟩
  · refine eval_settleMissing_of_isNull ex hnull ?_
    rw [eval_isIn, Value.eq_null_of_isNull hnull, List.any_eq_false]
    intro l hl
    rw [Value.same_comm, Value.same_null, presentLiterals_isNull hpresent l hl]
    exact Bool.false_ne_true
  · refine eval_settleMissing_of_isNull ex hnull ?_
    rw [Executor.eval, Value.eq_null_of_isNull hnull]
    rfl

theorem holds_demandCondition_of_isMissingAt {demand : Demand}
    (h : valueDemand path kind f = .ok demand) {d : Document} (hd : d.IsMissingAt path) :
    ex.holds (demandCondition path f demand) d =
      ((f.values.isSome && f.wantsMissing) != f.exclude) := by
  rw [holds_demandCondition]
  rcases valueDemand_cases h with ⟨present, hvalues, hpresent, rfl⟩ | ⟨-, hvalues, text, -, rfl⟩
  · rw [Demand.meets_values_of_missing ex (presentLiterals_isNull hpresent) hd, hvalues,
      Bool.true_and]
  · rw [Demand.meets_search_of_missing ex _ hd, hvalues, Option.isSome_none, Bool.false_and,
      Bool.false_bne]

theorem searchesMissing_iff {demand : Demand} (h : valueDemand path kind f = .ok demand) :
    f.SearchesMissing kind ↔ f.values.isSome = false ∧ f.wantsMissing := by
  rcases valueDemand_cases h with ⟨present, hvalues, -, -⟩ | ⟨hkind, hvalues, text, htext, -⟩
  · rw [SearchesMissing, hvalues]
    refine iff_of_false (fun hsearches => ?_) fun hnone => Bool.noConfusion hnone.1
    rw [hsearches.2.1] at hvalues
    cases hvalues
  · simp [SearchesMissing, wantsMissing, hkind, hvalues, htext]

/-- The predicate keeps what is missing just where the filter asks for it or, excluding, does not.
So does the condition on documents, unless it searches for a text and missing values are asked for
beside. -/
theorem missing_kept_iff {q : Query} (hkind : kind = .string ∨ kind = .objectId)
    (hq : condition path kind f = .ok q) (e : Expr) :
    ∃ p, predicate path e f false kind = .ok p ∧
      (∀ σ, (ex.eval e σ).isNull → (ex.eval p σ).isTrue = (f.wantsMissing != f.exclude)) ∧
      ∀ d : Document, d.IsMissingAt path →
        ex.holds q d = ((f.values.isSome && f.wantsMissing) != f.exclude) ∧
        (ex.holds q d = (f.wantsMissing != f.exclude) ↔ ¬f.SearchesMissing kind) := by
  have hlist : kind.isList = false := by rcases hkind with rfl | rfl <;> rfl
  have hleaf : condition path kind f = leafCondition path kind f := by
    rcases hkind with rfl | rfl <;> rfl
  have hdemands : demand path kind f = valueDemand path kind f := by
    rcases hkind with rfl | rfl <;> rfl
  rw [hleaf, leafCondition_eq_map, hdemands] at hq
  obtain ⟨demand, hdemand, rfl⟩ := Outcome.exists_of_map_eq_ok hq
  refine ⟨demandPredicate e kind f false demand, ?_, fun σ hnull => ?_, fun d hd => ?_⟩
  · rw [predicate_eq_map path e f false hlist, hdemands, hdemand]
    rfl
  · exact eval_demandPredicate_of_isNull ex hdemand hnull
  · have hholds := holds_demandCondition_of_isMissingAt ex hdemand hd
    refine ⟨hholds, ?_⟩
    rw [hholds, searchesMissing_iff hdemand]
    cases f.values.isSome <;> cases f.wantsMissing <;> cases f.exclude <;> decide

def catsOrMissing : Filter := { values := some [some "cat", none] }

theorem missing_kept_iff_catsOrMissing :
    ∃ q p, condition "label" .string catsOrMissing = .ok q ∧
      predicate "label" (.field "label") catsOrMissing false .string = .ok p ∧
      (default : Executor).holds q [("label", .null)] = true ∧
      ((default : Executor).eval p ⟨[], []⟩).isTrue = true := by
  obtain ⟨q, hq⟩ : ∃ q, condition "label" .string catsOrMissing = .ok q := ⟨_, rfl⟩
  have hpath : Path.components "label" = ["label"] := by decide
  obtain ⟨p, hp, heval, hholds⟩ :=
    missing_kept_iff (default : Executor) (.inl rfl) hq (.field "label")
  have hmissing : Document.IsMissingAt "label" [("label", .null)] :=
    Document.isMissingAt_of_at? (by rw [hpath]; rfl) (by rw [hpath]; rfl)
  refine ⟨q, p, hq, hp, (hholds _ hmissing).1, heval ⟨[], []⟩ ?_⟩
  rw [Expr.field, Executor.eval, hpath]
  rfl

def searchedOrMissing : Filter := { search := some "cat", missing := some true }

/-- Missing labels are asked for and not excluded, but the document without a label is dropped. -/
theorem missing_dropped_by_search :
    ∃ q, condition "label" .string searchedOrMissing = .ok q ∧ Document.IsMissingAt "label" [] ∧
      (searchedOrMissing.wantsMissing != searchedOrMissing.exclude) = true ∧
      (default : Executor).holds q [] = false := by
  have hpath : Path.components "label" = ["label"] := by decide
  have hmissing : Document.IsMissingAt "label" [] :=
    Document.isMissingAt_of_at? (by rw [hpath]; rfl) (by rw [hpath]; rfl)
  refine ⟨.field "label" (.search (searchPattern "cat")), rfl, hmissing, rfl, ?_⟩
  rw [Executor.holds, Executor.passes, hpath]
  rfl

end Filter
end MediaViews
