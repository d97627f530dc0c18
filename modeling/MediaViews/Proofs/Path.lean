import Mathlib
import MediaViews.Path

/-! Paths put together and taken apart: their components, parents and last names. -/
namespace MediaViews.Path

theorem components_child (path name : String) :
    components (path ++ "." ++ name) = components path ++ components name := by
  have hlist : (path ++ "." ++ name).toList = path.toList ++ '.' :: name.toList := by simp
  rw [components, hlist, List.splitOn_append_cons_self, List.map_append]
  rfl

theorem components_ne_nil (path : String) : components path ≠ [] := by
  rw [components, Ne, List.map_eq_nil_iff]
  exact List.splitOn_ne_nil _ _

theorem components_eq_singleton {path : String} (h : '.' ∉ path.toList) :
    components path = [path] := by
  rw [components, List.splitOn_eq_singleton h, List.map_cons, List.map_nil, String.ofList_toList]

theorem join_components (path : String) : join (components path) = path := by
  have hlist : (components path).map String.toList = path.toList.splitOn '.' := by
    rw [components, List.map_map]
    exact List.map_id'' (fun _ => String.toList_ofList) _
  rw [join, hlist, List.intercalate_splitOn, String.ofList_toList]

theorem join_cons_cons (part next : String) (rest : List String) :
    join (part :: next :: rest) = part ++ "." ++ join (next :: rest) := by
  apply String.toList_injective
  simp [join]

theorem join_singleton (part : String) : join [part] = part := by
  simp [join]

theorem join_append {parts more : List String} (h : parts ≠ []) (hmore : more ≠ []) :
    join (parts ++ more) = join parts ++ "." ++ join more := by
  induction parts with
  | nil => exact absurd rfl h
  | cons first rest ih =>
    cases rest with
    | nil =>
      obtain ⟨next, last, rfl⟩ := List.exists_cons_of_ne_nil hmore
      rw [List.singleton_append, join_cons_cons, join_singleton]
    | cons second rest =>
      rw [List.cons_append, List.cons_append, join_cons_cons, ← List.cons_append,
        ih (List.cons_ne_nil _ _), join_cons_cons]
      simp only [String.append_assoc]

def IsAbove (stem path : String) : Prop := ∃ rest, path = stem ++ "." ++ rest

theorem join_take_eq_or_isAbove (path : String) {count : Nat} (h : 0 < count) :
    join ((components path).take count) = path ∨
      IsAbove (join ((components path).take count)) path := by
  have hsplit : (components path).take count ++ (components path).drop count = components path :=
    List.take_append_drop count (components path)
  by_cases hrest : (components path).drop count = []
  · left
    rw [hrest, List.append_nil] at hsplit
    rw [hsplit, join_components]
  · right
    have hfront : (components path).take count ≠ [] := by
      intro hnil
      rcases List.take_eq_nil_iff.1 hnil with hzero | hempty
      · omega
      · exact components_ne_nil path hempty
    refine ⟨join ((components path).drop count), ?_⟩
    rw [← join_append hfront hrest, hsplit, join_components]

theorem exists_child_of_isNested {path : String} (h : isNested path) :
    ∃ stem name, path = stem ++ "." ++ name ∧ '.' ∉ name.toList := by
  have hmem : '.' ∈ path.toList.reverse := by
    rw [List.mem_reverse]
    simpa [isNested] using h
  obtain ⟨tail, front, hpath, htail⟩ := List.eq_append_cons_of_mem hmem
  refine ⟨.ofList front.reverse, .ofList tail.reverse, ?_, by simpa using htail⟩
  apply String.toList_injective
  rw [← List.reverse_reverse path.toList, hpath]
  simp

theorem components_eq_append {name : String} (stem : String) (h : '.' ∉ name.toList) :
    components (stem ++ "." ++ name) = components stem ++ [name] := by
  rw [components_child, components_eq_singleton h]

theorem name_child {name : String} (stem : String) (h : '.' ∉ name.toList) :
    Path.name (child stem name) = name := by
  rw [Path.name, child, components_eq_append stem h, List.getLastD_concat]

theorem head?_child {stem : String} (h : stem ≠ "") (name : String) :
    (child stem name).toList.head? = stem.toList.head? := by
  obtain ⟨c, cs, hstem⟩ := List.exists_cons_of_ne_nil fun hnil => h (String.toList_injective hnil)
  rw [child, String.toList_append, String.toList_append, hstem]
  rfl

theorem child_ne_empty (stem name : String) : child stem name ≠ "" := by
  intro hempty
  have hlist := congrArg String.toList hempty
  simp [child] at hlist

theorem child_ne_self (stem name : String) : child stem name ≠ stem := by
  intro hsame
  have hlength := congrArg (fun path => path.toList.length) hsame
  simp [child] at hlength

theorem eq_of_components_eq {path path' : String} (h : components path = components path') :
    path = path' := by
  rw [← join_components path, h, join_components]

theorem append_two_eq_iff {stem a b x y : String} (ha : '.' ∉ a.toList) (hb : '.' ∉ b.toList) :
    stem ++ "." ++ a ++ "." ++ b = stem ++ "." ++ x ++ "." ++ y ↔ x = a ∧ y = b := by
  constructor
  · intro h
    have hparts := congrArg components h
    rw [components_eq_append _ hb, components_eq_append _ ha, components_child, components_child,
      List.append_assoc, List.append_assoc, List.append_cancel_left_eq] at hparts
    obtain ⟨first, more, hx⟩ := List.exists_cons_of_ne_nil (components_ne_nil x)
    obtain ⟨second, rest, hy⟩ := List.exists_cons_of_ne_nil (components_ne_nil y)
    rw [hx, hy] at hparts
    obtain ⟨rfl, rfl, rfl, rfl⟩ : a = first ∧ [] = more ∧ b = second ∧ [] = rest := by
      cases more <;> simp_all
    exact ⟨eq_of_components_eq (hx.trans (components_eq_singleton ha).symm),
      eq_of_components_eq (hy.trans (components_eq_singleton hb).symm)⟩
  · rintro ⟨rfl, rfl⟩
    rfl

theorem parent_child {name : String} (stem : String) (h : '.' ∉ name.toList) :
    parent (stem ++ "." ++ name) = stem := by
  rw [parent, components_eq_append stem h, List.dropLast_concat]
  split
  · next hnil => exact absurd hnil (components_ne_nil stem)
  · exact join_components stem

theorem exists_first_component {path : String} (hne : path ≠ "")
    (hdot : path.toList.head? ≠ some '.') :
    ∃ first rest, components path = first :: rest ∧ first ≠ "" := by
  obtain ⟨c, cs, hpath⟩ : ∃ c cs, path.toList = c :: cs :=
    List.exists_cons_of_ne_nil fun h => hne (String.toList_injective h)
  have hc : (c == '.') = false := by simpa [hpath] using hdot
  obtain ⟨part, parts, hparts⟩ := List.exists_cons_of_ne_nil (List.splitOn_ne_nil '.' cs)
  refine ⟨.ofList (c :: part), parts.map String.ofList, ?_, fun h => ?_⟩
  · rw [components, hpath, List.splitOn_cons_eq_if_modifyHead, hc, hparts]
    rfl
  · have hlist := congrArg String.toList h
    rw [String.toList_ofList] at hlist
    cases hlist

theorem framesStem_append_of_withinFrame? {path rest : String} (h : withinFrame? path = some rest) :
    framesStem ++ rest = path := by
  unfold withinFrame? at h
  split at h
  · next hlevel =>
    obtain rfl := Option.some.inj h
    obtain ⟨tail, htail⟩ := List.isPrefixOf_iff_prefix.1 hlevel
    have hdrop : path.toList.drop framesStem.length = tail := by
      rw [← htail]
      rfl
    apply String.toList_injective
    rw [hdrop, String.toList_append, String.toList_ofList, htail]
  · cases h

theorem isFrameLevel_iff {path : String} :
    isFrameLevel path ↔ ∃ rest, rest ≠ [] ∧ components path = "frames" :: rest := by
  constructor
  · intro h
    have hwithin : withinFrame? path = some (.ofList (path.toList.drop framesStem.length)) := if_pos h
    rw [← framesStem_append_of_withinFrame? hwithin]
    exact ⟨components _, components_ne_nil _, components_child "frames" _⟩
  · rintro ⟨rest, hrest, hpath⟩
    obtain ⟨next, rest, rfl⟩ := List.exists_cons_of_ne_nil hrest
    rw [← join_components path, hpath, join_cons_cons, isFrameLevel, List.isPrefixOf_iff_prefix,
      String.append_assoc]
    exact ⟨_, String.toList_append.symm⟩

end MediaViews.Path
