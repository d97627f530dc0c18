import MediaViews.Proofs.Json.Finite
import MediaViews.Proofs.Outcome
import MediaViews.View.Request

/-! The bounds of filters that come from a text. -/
namespace MediaViews

theorem Json.exists_of_optional {α : Type} {decode : Json → Option α} {found : Option Json} {a : α}
    (h : optional decode found = some (some a)) : ∃ j, found = some j ∧ decode j = some a := by
  cases found with
  | none => cases h
  | some j =>
    refine ⟨j, rfl, ?_⟩
    cases j with
    | null => cases h
    | _ => simpa [optional, withDefault, nullable?] using h

namespace Filter

/-- Bounds are numbers. JSON has no other, so a filter that was read has none. -/
def BoundsAreNumbers (f : Filter) : Prop := ∀ range ∈ f.range, range.1 ≠ .nan ∧ range.2 ≠ .nan

def BoundsAreFinite (f : Filter) : Prop := ∀ range ∈ f.range, range.1.isFinite ∧ range.2.isFinite

theorem BoundsAreFinite.areNumbers {f : Filter} (h : f.BoundsAreFinite) : f.BoundsAreNumbers := by
  intro range hrange
  obtain ⟨hmin, hmax⟩ := h range hrange
  refine ⟨fun hnan => ?_, fun hnan => ?_⟩
  · rw [hnan] at hmin
    cases hmin
  · rw [hnan] at hmax
    cases hmax

theorem isFinite_of_double? {j : Json} (hj : j.isFinite) {x : Double} (h : j.double? = some x) :
    x.isFinite := by
  cases j with
  | float y =>
    obtain rfl := Option.some.inj h
    exact hj
  | int n =>
    obtain rfl := Option.some.inj h
    exact hj
  | _ => cases h

theorem isFinite_of_range? {j : Json} (hj : j.isFinite) {range : Double × Double}
    (h : range? j = some range) : range.1.isFinite ∧ range.2.isFinite := by
  unfold range? at h
  split at h
  · next min max =>
    obtain ⟨lower, hlower, h⟩ := Option.bind_eq_some_iff.1 h
    obtain ⟨upper, hupper, h⟩ := Option.bind_eq_some_iff.1 h
    obtain rfl := Option.some.inj h
    rw [Json.isFinite] at hj
    exact ⟨isFinite_of_double? (Json.isFinite_of_mem hj (by simp)) hlower,
      isFinite_of_double? (Json.isFinite_of_mem hj (by simp)) hupper⟩
  · cases h

theorem boundsAreFinite_of_ofJson? {j : Json} (hj : j.isFinite) {f : Filter}
    (h : ofJson? j = some f) : f.BoundsAreFinite := by
  obtain ⟨field, hfield, h⟩ := Option.bind_eq_some_iff.1 h
  obtain ⟨values, -, h⟩ := Option.bind_eq_some_iff.1 h
  obtain ⟨range, hrange, h⟩ := Option.bind_eq_some_iff.1 h
  have hf : f.range = range := by
    simp only [Option.bind_eq_bind, Option.bind_eq_some_iff] at h
    obtain ⟨_, -, _, -, _, -, _, -, _, -, _, -, _, -, _, -, _, -, h⟩ := h
    exact Option.some.inj h ▸ rfl
  intro bounds hbounds
  rw [hf, Option.mem_def] at hbounds
  subst hbounds
  obtain ⟨value, hvalue, hread⟩ := Json.exists_of_optional hrange
  exact isFinite_of_range? (Json.isFinite_of_record? hj hfield hvalue) hread

end Filter

namespace SortedMap

variable {α : Type}

theorem mem_of_mem_ofList {pairs : List (String × α)} {e : String × α}
    (h : e ∈ (ofList pairs).entries) : e ∈ pairs := by
  have hfold : ∀ m : SortedMap α, e ∈ (pairs.foldl (fun m p => m.insert p.1 p.2) m).entries →
      e ∈ m.entries ∨ e ∈ pairs := by
    clear h
    induction pairs with
    | nil => exact fun m he => .inl he
    | cons p pairs ih =>
      intro m he
      rcases ih _ he with he | he
      · rcases mem_insertEntry he with rfl | he
        · exact .inr List.mem_cons_self
        · exact .inl he
      · exact .inr (List.mem_cons_of_mem p he)
  rcases hfold ∅ h with he | he
  · cases he
  · exact he

end SortedMap

theorem Filters.boundsAreFinite_of_ofJson? {j : Json} (hj : j.isFinite) {filters : Filters}
    (h : ofJson? j = some filters) : ∀ e ∈ filters.entries, e.2.BoundsAreFinite := by
  obtain ⟨members, hmembers, h⟩ := Option.bind_eq_some_iff.1 h
  obtain ⟨pairs, hpairs, h⟩ := Option.bind_eq_some_iff.1 h
  obtain rfl := Option.some.inj h
  cases j with
  | obj ms =>
    obtain rfl := Option.some.inj hmembers
    intro e he
    obtain ⟨m, hm, hdecoded⟩ :=
      Outcome.exists_of_mem_of_mapM_eq_some hpairs (SortedMap.mem_of_mem_ofList he)
    obtain ⟨f, hf, rfl⟩ := Option.map_eq_some_iff.1 hdecoded
    exact Filter.boundsAreFinite_of_ofJson? (Json.isFinite_of_mem_members hj hm) hf
  | _ => cases hmembers

namespace ViewRequest

def BoundsAreFinite (r : ViewRequest) : Prop :=
  ∀ filters ∈ r.filters, ∀ e ∈ filters.entries, e.2.BoundsAreFinite

theorem boundsAreFinite_of_ofJson? {j : Json} (hj : j.isFinite) {r : ViewRequest}
    (h : ofJson? j = some r) : r.BoundsAreFinite := by
  obtain ⟨field, hfield, h⟩ := Option.bind_eq_some_iff.1 h
  simp only [Option.bind_eq_bind, Option.bind_eq_some_iff] at h
  obtain ⟨_, -, _, -, _, -, found, hfound, _, -, _, -, _, -, _, -, h⟩ := h
  have hr : r.filters = found := Option.some.inj h ▸ rfl
  intro filters hfilters
  rw [hr, Option.mem_def] at hfilters
  subst hfilters
  obtain ⟨value, hvalue, hread⟩ := Json.exists_of_optional hfound
  exact Filters.boundsAreFinite_of_ofJson? (Json.isFinite_of_record? hj hfield hvalue) hread

theorem boundsAreNumbers_of_read {text : String} {r : ViewRequest}
    (h : Json.parse? text >>= ofJson? = some r) {filters : Filters}
    (hfilters : r.filters = some filters) : ∀ e ∈ filters.entries, e.2.BoundsAreNumbers := by
  obtain ⟨j, hj, h⟩ := Option.bind_eq_some_iff.1 h
  intro e he
  exact (boundsAreFinite_of_ofJson? (Json.isFinite_of_readAs? hj) h filters hfilters e he).areNumbers

end ViewRequest
end MediaViews
