import Mathlib
import MediaViews.SortedMap

/-! Maps from lists of pairs. Where no key is given twice, the order of the pairs does not matter. -/
namespace MediaViews.SortedMap

variable {α : Type}

theorem insertEntry_perm_cons {key : String} {entries : List (String × α)}
    (h : key ∉ entries.map (·.1)) (value : α) :
    (insertEntry key value entries).Perm ((key, value) :: entries) := by
  induction entries with
  | nil => exact .refl _
  | cons e entries ih =>
    obtain ⟨k, v⟩ := e
    rw [List.map_cons, List.mem_cons, not_or] at h
    rw [insertEntry]
    split
    · exact .refl _
    · rw [if_neg h.1]
      exact ((ih h.2).cons (k, v)).trans (.swap ..)

theorem entries_foldl_insert_perm {pairs : List (String × α)} {m : SortedMap α}
    (h : ((pairs ++ m.entries).map (·.1)).Nodup) :
    (pairs.foldl (fun m p => m.insert p.1 p.2) m).entries.Perm (pairs ++ m.entries) := by
  induction pairs generalizing m with
  | nil => exact .refl _
  | cons p pairs ih =>
    have hnew : p.1 ∉ (pairs ++ m.entries).map (·.1) := (List.nodup_cons.1 h).1
    have hold : p.1 ∉ m.entries.map (·.1) := by
      rw [List.map_append, List.mem_append, not_or] at hnew
      exact hnew.2
    have hinsert : (m.insert p.1 p.2).entries.Perm (p :: m.entries) := insertEntry_perm_cons hold p.2
    have happend : (pairs ++ (m.insert p.1 p.2).entries).Perm (p :: (pairs ++ m.entries)) :=
      (hinsert.append_left pairs).trans List.perm_middle
    refine (ih ?_).trans happend
    exact (happend.map _).nodup_iff.2 h

theorem entries_ofList_perm {pairs : List (String × α)} (h : (pairs.map (·.1)).Nodup) :
    (ofList pairs).entries.Perm pairs := by
  have hempty : pairs ++ (∅ : SortedMap α).entries = pairs := List.append_nil pairs
  have hfold := @entries_foldl_insert_perm α pairs ∅ (by rwa [hempty])
  rwa [hempty] at hfold

theorem eq_of_perm {m n : SortedMap α} (h : m.entries.Perm n.entries) : m = n := by
  have hentries : m.entries = n.entries :=
    h.eq_of_pairwise (fun a b _ _ hab hba => absurd hba (String.lt_asymm hab)) m.ascending n.ascending
  cases m
  cases n
  cases hentries
  rfl

theorem ofList_eq_of_perm {pairs pairs' : List (String × α)} (h : pairs.Perm pairs')
    (hnodup : (pairs.map (·.1)).Nodup) : ofList pairs = ofList pairs' := by
  have hnodup' : (pairs'.map (·.1)).Nodup := (h.map _).nodup_iff.1 hnodup
  exact eq_of_perm
    ((entries_ofList_perm hnodup).trans (h.trans (entries_ofList_perm hnodup').symm))

theorem mem_entries_iff {m : SortedMap α} {key : String} {value : α} :
    (key, value) ∈ m.entries ↔ m.get? key = some value := by
  rw [get?, List.lookup_eq_some_iff]
  constructor
  · intro h
    obtain ⟨before, after, hentries⟩ := List.append_of_mem h
    have hascending := m.ascending
    rw [hentries, List.pairwise_append] at hascending
    refine ⟨before, after, hentries, fun e he => ?_⟩
    have hlt : e.1 < key := hascending.2.2 e he _ List.mem_cons_self
    simpa using (ne_of_lt hlt).symm
  · rintro ⟨before, after, hentries, -⟩
    rw [hentries]
    exact List.mem_append_right before List.mem_cons_self

theorem nodup_keys (m : SortedMap α) : (m.entries.map (·.1)).Nodup := by
  rw [List.Nodup, List.pairwise_map]
  exact m.ascending.imp ne_of_lt

theorem ofList_entries (m : SortedMap α) : ofList m.entries = m :=
  eq_of_perm (entries_ofList_perm m.nodup_keys)

end MediaViews.SortedMap
