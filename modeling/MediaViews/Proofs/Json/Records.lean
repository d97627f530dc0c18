import MediaViews.Proofs.Json.Finite
import MediaViews.Proofs.Outcome
import MediaViews.Proofs.SortedMap

/-! Records and maps: the order of the members of an object does not matter to the look-up of fields,
and a map is read back from its entries. -/
namespace MediaViews.Json

section Lookup

variable {α : Type}

theorem lookup_eq_head?_filter (members : List (String × α)) (key : String) :
    members.lookup key = (members.filter (·.1 == key)).head?.map (·.2) := by
  induction members with
  | nil => rfl
  | cons m members ih =>
    obtain ⟨k, value⟩ := m
    by_cases hk : key = k
    · subst hk
      simp
    · rw [SortedMap.lookup_cons_of_ne hk, List.filter_cons_of_neg (by simpa using Ne.symm hk), ih]

theorem eq_of_perm_of_length_le_one {xs ys : List α} (h : xs.Perm ys) (hle : xs.length ≤ 1) :
    xs = ys := by
  match xs, h, hle with
  | [], h, _ => exact h.nil_eq
  | [x], h, _ => exact (List.perm_singleton.1 h.symm).symm

theorem lookup_eq_of_perm {ms ns : List (String × α)} (h : ms.Perm ns) {key : String}
    (hkey : (ms.filter (·.1 == key)).length ≤ 1) : ms.lookup key = ns.lookup key := by
  rw [lookup_eq_head?_filter, eq_of_perm_of_length_le_one (h.filter _) hkey,
    ← lookup_eq_head?_filter]

theorem length_filter_key (members : List (String × α)) (key : String) :
    (members.filter (·.1 == key)).length = (members.map (·.1)).count key := by
  rw [← List.countP_eq_length_filter, List.count, List.countP_map]
  rfl

theorem lookup_append_cons {before : List (String × α)} {key : String}
    (h : key ∉ before.map (·.1)) (value : α) (after : List (String × α)) :
    ((before ++ (key, value) :: after).lookup ·) =
      Function.update ((before ++ after).lookup ·) key (some value) := by
  funext k
  by_cases hk : k = key
  · subst hk
    have hbefore : before.lookup k = none := by
      rw [List.lookup_eq_none_iff]
      exact fun m hm => bne_iff_ne.2 fun heq => h (heq ▸ List.mem_map_of_mem hm)
    rw [List.lookup_append, hbefore, Option.none_or, List.lookup_cons_self, Function.update_self]
  · rw [Function.update_of_ne hk, List.lookup_append, List.lookup_append,
      SortedMap.lookup_cons_of_ne hk]

end Lookup

variable {fields : List String}

theorem record?_obj_of_nodup {members : List (String × Json)} (h : (members.map (·.1)).Nodup) :
    (Json.obj members).record? fields = some (members.lookup ·) := by
  rw [record?, if_pos]
  rw [List.all_eq_true]
  intro key _
  rw [decide_eq_true_iff, length_filter_key]
  exact List.nodup_iff_count_le_one.1 h key

def AgreeOn (fields : List String) (f g : String → Option Json) : Prop :=
  ∀ name ∈ fields, f name = g name

theorem record?_perm {ms ns : List (String × Json)} (h : ms.Perm ns) :
    Option.Rel (AgreeOn fields) ((Json.obj ms).record? fields) ((Json.obj ns).record? fields) := by
  have hlength (key : String) :
      (ns.filter (·.1 == key)).length = (ms.filter (·.1 == key)).length :=
    (h.filter (·.1 == key)).length_eq.symm
  simp only [record?, hlength]
  split
  · next hall =>
    refine .some fun name hname => lookup_eq_of_perm h ?_
    simpa using List.all_eq_true.1 hall name hname
  · exact .none

/-- A record with the place of one field left open, in either form of a record. -/
inductive Opening (fields : List String) (name : String) : (Json → Json) → Prop
  | member (before after : List (String × Json)) :
      Opening fields name fun j => .obj (before ++ (name, j) :: after)
  | item (before after : List Json) (h : fields[before.length]? = some name) :
      Opening fields name fun j => .arr (before ++ j :: after)

theorem zip_append_cons {β : Type} {places : List β} {before : List Json} {place : β}
    (h : places[before.length]? = some place) (j : Json) (after : List Json) :
    places.zip (before ++ j :: after) = (places.take before.length).zip before ++
      (place, j) :: (places.drop (before.length + 1)).zip after := by
  obtain ⟨hlt, hget⟩ := List.getElem?_eq_some_iff.1 h
  have hsplit : places.take before.length ++ place :: places.drop (before.length + 1) = places := by
    rw [← hget, List.cons_getElem_drop_succ, List.take_append_drop]
  have hlength : (places.take before.length).length = before.length := by
    rw [List.length_take, Nat.min_eq_left hlt.le]
  calc places.zip (before ++ j :: after)
      = (places.take before.length ++ place :: places.drop (before.length + 1)).zip
          (before ++ j :: after) := by rw [hsplit]
    _ = _ := by rw [List.zip_append hlength, List.zip_cons_cons]

theorem not_mem_take_zip {name : String} {before : List Json}
    (h : fields[before.length]? = some name) (hfields : fields.Nodup) :
    name ∉ ((fields.take before.length).zip before).map (·.1) := by
  obtain ⟨hlt, hget⟩ := List.getElem?_eq_some_iff.1 h
  rw [← List.take_append_drop before.length fields] at hfields
  intro hmem
  obtain ⟨e, he, rfl⟩ := List.mem_map.1 hmem
  refine List.disjoint_of_nodup_append hfields (List.of_mem_zip he).1 ?_
  rw [← hget, ← List.cons_getElem_drop_succ (h := hlt)]
  exact List.mem_cons_self

theorem record?_opening {name : String} {record : Json → Json}
    (h : Opening fields name record) (hname : name ∈ fields) (hfields : fields.Nodup) :
    (∀ j, (record j).record? fields = none) ∨
      ∃ field, ∀ j, (record j).record? fields = some (Function.update field name (some j)) := by
  cases h with
  | member before after =>
    have hcount (j : Json) (key : String) :
        ((before ++ (name, j) :: after).filter (·.1 == key)).length =
          (before.map (·.1) ++ name :: after.map (·.1)).count key := by
      rw [length_filter_key, List.map_append, List.map_cons]
    simp only [record?, hcount]
    split
    · next hall =>
      have hbefore : name ∉ before.map (·.1) := by
        have hle : (before.map (·.1) ++ name :: after.map (·.1)).count name ≤ 1 := by
          simpa using List.all_eq_true.1 hall name hname
        rw [List.count_append, List.count_cons_self] at hle
        exact List.count_eq_zero.1 (by omega)
      exact .inr ⟨_, fun j => congrArg some (lookup_append_cons hbefore j after)⟩
    · exact .inl fun _ => rfl
  | item before after h =>
    simp only [record?, List.length_append, List.length_cons]
    split
    · let front := (fields.take before.length).zip before
      let back := (fields.drop (before.length + 1)).zip after
      refine .inr ⟨((front ++ back).lookup ·), fun j => ?_⟩
      rw [zip_append_cons h j after, lookup_append_cons (not_mem_take_zip h hfields) j]
    · exact .inl fun _ => rfl

theorem map?_entries {α : Type} {encode : α → Json} {decode : Json → Option α}
    {m : SortedMap α} (h : ∀ e ∈ m.entries, decode (encode e.2) = some e.2) :
    map? decode (.obj (m.entries.map fun e => (e.1, encode e.2))) = some m := by
  have hentries : (m.entries.map fun e => (e.1, encode e.2)).mapM
      (fun member => (decode member.2).map (member.1, ·)) = some m.entries := by
    rw [Outcome.mapM_eq_some_iff, List.forall₂_map_left_iff, List.forall₂_same]
    intro e he
    rw [h e he, Option.map_some]
  show ((m.entries.map fun e => (e.1, encode e.2)).mapM _ >>= fun pairs =>
    some (SortedMap.ofList pairs)) = _
  rw [hentries, Option.bind_eq_bind, Option.bind_some, SortedMap.ofList_entries]

end MediaViews.Json
