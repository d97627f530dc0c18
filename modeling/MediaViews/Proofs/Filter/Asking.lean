import MediaViews.Proofs.Executor.Face
import MediaViews.Proofs.Executor.Rendering
import MediaViews.Proofs.Filter.Demand

/-! The paths that a condition asks about. Documents that look alike at these paths satisfy the same
conditions. -/
namespace MediaViews

def Expr.isTruth : Expr → Bool
  | .literal (.bool _) => true
  | _ => false

theorem Expr.exists_of_isTruth {e : Expr} (h : e.isTruth) : ∃ b, e = .ofBool b := by
  unfold Expr.isTruth at h
  split at h
  · exact ⟨_, rfl⟩
  · cases h

namespace Query

mutual

def asksOnly (paths : List String) : Query → Bool
  | .all qs => asksOnlyList paths qs
  | .any qs => asksOnlyList paths qs
  | .neither qs => asksOnlyList paths qs
  | .field path _ => paths.contains path
  | .expr e => e.isTruth

def asksOnlyList (paths : List String) : List Query → Bool
  | [] => true
  | q :: qs => asksOnly paths q && asksOnlyList paths qs

end

variable {paths : List String}

theorem asksOnlyList_of_forall {qs : List Query} (h : ∀ q ∈ qs, q.asksOnly paths) :
    asksOnlyList paths qs := by
  induction qs with
  | nil => rfl
  | cons q qs ih =>
    rw [asksOnlyList, h q List.mem_cons_self, ih fun q' hq' => h q' (List.mem_cons_of_mem q hq')]
    rfl

theorem asksOnly_allOf {qs : List Query} (h : ∀ q ∈ qs, q.asksOnly paths) :
    (allOf qs).asksOnly paths := by
  unfold allOf
  split
  · next q => exact h q List.mem_cons_self
  · exact asksOnlyList_of_forall h

theorem asksOnly_anyOf {qs : List Query} (h : ∀ q ∈ qs, q.asksOnly paths) :
    (anyOf qs).asksOnly paths := by
  unfold anyOf
  split
  · next q => exact h q List.mem_cons_self
  · exact asksOnlyList_of_forall h

theorem asksOnly_not {q : Query} (h : q.asksOnly paths) : q.not.asksOnly paths := by
  rw [Query.not, asksOnly, asksOnlyList, h]
  rfl

mutual

theorem readable_of_asksOnly (hpaths : ∀ path ∈ paths, path ∉ connectives) :
    ∀ {q : Query}, q.asksOnly paths → q.readable
  | .all _, h => readableList_of_asksOnly hpaths h
  | .any _, h => readableList_of_asksOnly hpaths h
  | .neither _, h => readableList_of_asksOnly hpaths h
  | .field path _, h => by
    have hpath : path ∈ paths := by simpa [asksOnly] using h
    simpa [readable] using hpaths path hpath
  | .expr _, h => by
    obtain ⟨b, rfl⟩ := Expr.exists_of_isTruth h
    rfl

theorem readableList_of_asksOnly (hpaths : ∀ path ∈ paths, path ∉ connectives) :
    ∀ {qs : List Query}, asksOnlyList paths qs → readableList qs
  | [], _ => rfl
  | q :: qs, h => by
    simp only [asksOnlyList, Bool.and_eq_true] at h
    rw [readableList, readable_of_asksOnly hpaths h.1, readableList_of_asksOnly hpaths h.2]
    rfl

end

end Query

namespace Executor

variable (ex : Executor) {paths : List String} {d d' : Document}

/-- A connective's key in place of a path makes a condition that is always or never met. -/
theorem satisfies_field_congr {path : String} (test : FieldTest) (hpath : path ≠ "$expr")
    (h : ((Value.obj d).reached (Path.components path)).map Value.face =
      ((Value.obj d').reached (Path.components path)).map Value.face) :
    ex.satisfies (Query.field path test).toJson d = ex.satisfies (Query.field path test).toJson d' := by
  by_cases hmem : path ∈ Query.connectives
  · simp only [Query.connectives, List.mem_cons, List.not_mem_nil, or_false, hpath] at hmem
    rcases hmem with rfl | rfl | rfl <;> cases test <;> rfl
  · show ex.satisfiesMembers [(path, test.toJson)] d = ex.satisfiesMembers [(path, test.toJson)] d'
    rw [satisfiesMembers_field ex hmem, satisfiesMembers_field ex hmem, meets_toJson, meets_toJson,
      ex.passes_congr h]

mutual

theorem satisfies_congr (hpaths : ∀ path ∈ paths, path ≠ "$expr" ∧
      ((Value.obj d).reached (Path.components path)).map Value.face =
        ((Value.obj d').reached (Path.components path)).map Value.face) :
    ∀ {q : Query}, q.asksOnly paths → ex.satisfies q.toJson d = ex.satisfies q.toJson d'
  | .all qs, h => by
    show ((ex.satisfiesItems (Query.listJson qs) d).all id && true) =
      ((ex.satisfiesItems (Query.listJson qs) d').all id && true)
    rw [satisfiesItems_congr hpaths h]
  | .any qs, h => by
    show ((ex.satisfiesItems (Query.listJson qs) d).any id && true) =
      ((ex.satisfiesItems (Query.listJson qs) d').any id && true)
    rw [satisfiesItems_congr hpaths h]
  | .neither qs, h => by
    show (!(ex.satisfiesItems (Query.listJson qs) d).any id && true) =
      (!(ex.satisfiesItems (Query.listJson qs) d').any id && true)
    rw [satisfiesItems_congr hpaths h]
  | .field path test, h => by
    have hpath : path ∈ paths := by simpa [Query.asksOnly] using h
    exact satisfies_field_congr ex test (hpaths path hpath).1 (hpaths path hpath).2
  | .expr e, h => by
    obtain ⟨b, rfl⟩ := Expr.exists_of_isTruth h
    rfl

theorem satisfiesItems_congr (hpaths : ∀ path ∈ paths, path ≠ "$expr" ∧
      ((Value.obj d).reached (Path.components path)).map Value.face =
        ((Value.obj d').reached (Path.components path)).map Value.face) :
    ∀ {qs : List Query}, Query.asksOnlyList paths qs →
      ex.satisfiesItems (Query.listJson qs) d = ex.satisfiesItems (Query.listJson qs) d'
  | [], _ => rfl
  | q :: qs, h => by
    simp only [Query.asksOnlyList, Bool.and_eq_true] at h
    rw [Query.listJson, satisfiesItems, satisfiesItems, satisfies_congr hpaths h.1,
      satisfiesItems_congr hpaths h.2]

end

end Executor

namespace Filter

open Query (asksOnly)

theorem asksOnly_demandCondition {path : String} {paths : List String} (hpath : path ∈ paths)
    (f : Filter) (demand : Demand) : (demandCondition path f demand).asksOnly paths := by
  have hfield : ∀ test, (Query.field path test).asksOnly paths := by
    intro test
    simpa [asksOnly] using hpath
  cases demand with
  | range min max =>
    simp only [demandCondition, rangeCondition, Query.compare]
    split <;> split <;> simp [asksOnly, Query.asksOnlyList, hpath]
  | flags =>
    simp only [demandCondition, flagCondition]
    split
    · rfl
    · refine Query.asksOnly_allOf fun q hq => ?_
      obtain ⟨s, -, hs⟩ := List.mem_map.1 hq
      exact hs ▸ hfield _
  | values present => exact hfield _
  | search pattern =>
    simp only [demandCondition]
    split
    · exact Query.asksOnly_not (hfield _)
    · exact hfield _
  | truth =>
    simp only [demandCondition, truthCondition, Query.compare]
    split <;> exact hfield _

theorem readable_demandCondition {path : String} (hpath : path ∉ Query.connectives) (f : Filter)
    (demand : Demand) : (demandCondition path f demand).readable := by
  have hpaths : ∀ other ∈ [path], other ∉ Query.connectives := by simpa using hpath
  exact Query.readable_of_asksOnly hpaths
    (asksOnly_demandCondition (List.mem_singleton_self path) f demand)

theorem asksOnly_condition {path : String} {paths : List String} (hpath : path ∈ paths)
    {kind : FieldKind} {f : Filter} {q : Query} (h : condition path kind f = .ok q) :
    q.asksOnly paths := by
  rw [condition, leafCondition_eq_map] at h
  obtain ⟨demand, -, rfl⟩ := Outcome.exists_of_map_eq_ok h
  exact asksOnly_demandCondition hpath f demand

end Filter
end MediaViews
