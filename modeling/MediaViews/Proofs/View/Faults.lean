import MediaViews.Proofs.Json.Faults
import MediaViews.View.Request

/-! The faults of written requests. Every value that is no request has a fault, and where it is found
depends on the order in which the request is written. -/
namespace MediaViews

open Json (Explains explains_leaf)
open Outcome (isSome_bind_iff)

namespace Filter

theorem explains_range : Explains rangeFault? range? := by
  intro j
  have hnumber := explains_leaf "f64" Json.double?
  cases j with
  | arr items =>
    match items with
    | [] => exact iff_of_false (Option.some_ne_none _) Bool.false_ne_true
    | [x] => exact iff_of_false (by simp [rangeFault?]) Bool.false_ne_true
    | [x, y] =>
      show ([x, y].findSome? _).or none = none ↔ (x.double? >>= fun min => _ >>= _).isSome
      cases hx : x.double? <;> cases hy : y.double? <;> simp [hx, hy, hnumber x, hnumber y]
    | x :: y :: z :: more => exact iff_of_false (by simp [rangeFault?]) Bool.false_ne_true
  | _ => exact iff_of_false (Option.some_ne_none _) Bool.false_ne_true

theorem explains : Explains fault? ofJson? := by
  intro j
  have hflag := explains_leaf "a boolean" Json.bool?
  have htext := explains_leaf "a string" Json.string?
  have hnames : fieldFaults.map (·.1) = fieldNames := rfl
  rw [fault?, Json.recordFault?_eq_none_iff (by decide), hnames]
  unfold ofJson?
  simp only [isSome_bind_iff, Option.isSome_some, Option.pure_def, and_true, exists_and_right,
    ← Option.isSome_iff_exists, htext.nullable.list.optional, explains_range.optional,
    hflag.optional, hflag.withDefault, htext.optional]
  simp [fieldFaults]

end Filter

theorem GroupFilter.explains : Explains fault? ofJson? := by
  intro j
  have htext := explains_leaf "a string" Json.string?
  rw [fault?, Json.recordFault?_eq_none_iff (by decide)]
  unfold ofJson?
  simp only [isSome_bind_iff, Option.isSome_some, Option.pure_def, and_true, exists_and_right,
    ← Option.isSome_iff_exists, htext.list.optional, htext.optional]
  simp [fieldFaults]

theorem SampleFilter.explains : Explains fault? ofJson? := by
  intro j
  have htext := explains_leaf "a string" Json.string?
  rw [fault?, Json.recordFault?_eq_none_iff (by decide)]
  unfold ofJson?
  simp only [isSome_bind_iff, Option.isSome_some, Option.pure_def, and_true, exists_and_right,
    ← Option.isSome_iff_exists, GroupFilter.explains.optional, htext.optional]
  simp [fieldFaults]

theorem Filters.explains : Explains fault? ofJson? := Filter.explains.map

namespace ViewRequest

theorem isSome_ofJson?_iff (j : Json) :
    (ofJson? j).isSome ↔ writtenFault? j = none ∧
      ∃ field, j.record? fieldNames = some field ∧ (field "dataset").isSome := by
  have hflag := explains_leaf "a boolean" Json.bool?
  have htext := explains_leaf "a string" Json.string?
  have hmembers := explains_leaf "a map" Json.members?
  have hany : Explains (fun _ => none) (some : Json → Option Json) := fun _ => iff_of_true rfl rfl
  have hnames : fieldFaults.map (·.1) = fieldNames := rfl
  rw [writtenFault?, Json.recordFault?_eq_none_iff (by decide), hnames]
  unfold ofJson?
  simp only [isSome_bind_iff, Option.isSome_some, Option.pure_def, and_true, exists_and_right,
    ← Option.isSome_iff_exists, htext.optional, hany.list.optional, Filters.explains.optional,
    hflag.withDefault, hmembers.optional, SampleFilter.explains.optional, htext.required]
  cases j.record? fieldNames with
  | none => simp
  | some field =>
    simp only [Option.some.injEq, exists_eq_left', fieldFaults, List.forall_mem_cons,
      List.not_mem_nil, false_imp_iff, implies_true, and_true]
    tauto

theorem decode_eq_ok_iff {j : Json} {r : ViewRequest} : decode j = .ok r ↔ ofJson? j = some r := by
  unfold decode
  cases ofJson? j <;> simp

theorem decode_of_ofJson?_eq_none {j : Json} (h : ofJson? j = none) :
    decode j = .error ((writtenFault? j).getD (absentDataset j)) := by
  rw [decode, h]

theorem decode_eq_error_iff {j : Json} {fault : Json.Fault} :
    decode j = .error fault ↔ writtenFault? j = some fault ∨
      writtenFault? j = none ∧ fault = absentDataset j ∧
        ∀ field, j.record? fieldNames = some field → field "dataset" = none := by
  have hread := isSome_ofJson?_iff j
  cases hj : ofJson? j with
  | some r =>
    rw [hj] at hread
    obtain ⟨hwritten, field, hfield, hdataset⟩ := hread.1 rfl
    rw [decode_eq_ok_iff.2 hj, hwritten]
    refine iff_of_false (by simp) ?_
    rintro (h | ⟨-, -, habsent⟩)
    · cases h
    · rw [habsent field hfield] at hdataset
      cases hdataset
  | none =>
    rw [decode_of_ofJson?_eq_none hj]
    cases hwritten : writtenFault? j with
    | some found => simp [eq_comm]
    | none =>
      have habsent : ∀ field, j.record? fieldNames = some field → field "dataset" = none := by
        intro field hfield
        refine Option.not_isSome_iff_eq_none.1 fun hdataset => ?_
        have hsome := hread.2 ⟨hwritten, field, hfield, hdataset⟩
        rw [hj] at hsome
        cases hsome
      simp only [Option.getD_none, Except.error.injEq, reduceCtorEq, false_or, true_and,
        eq_comm (b := fault)]
      exact (and_iff_left habsent).symm

end ViewRequest
end MediaViews
