import Mathlib

/-! What the success or the error of a computation tells of the computations that it is made of. -/
namespace MediaViews.Outcome

variable {ε α β : Type}

theorem exists_of_bind_eq_ok {x : Except ε α} {f : α → Except ε β} {b : β}
    (h : x >>= f = .ok b) : ∃ a, x = .ok a ∧ f a = .ok b := by
  cases x with
  | error e => cases h
  | ok a => exact ⟨a, rfl, h⟩

theorem exists_of_map_eq_ok {x : Except ε α} {f : α → β} {b : β} (h : x.map f = .ok b) :
    ∃ a, x = .ok a ∧ f a = b := by
  cases x with
  | error e => cases h
  | ok a => exact ⟨a, rfl, Except.ok.inj h⟩

theorem exists_of_mapError_eq_ok {ε' : Type} {x : Except ε α} {f : ε → ε'} {a : α}
    (h : x.mapError f = .ok a) : x = .ok a := by
  cases x with
  | error e => cases h
  | ok b => exact congrArg _ (Except.ok.inj h)

theorem exists_of_bind_eq_error {x : Except ε α} {f : α → Except ε β} {e : ε}
    (h : x >>= f = .error e) : x = .error e ∨ ∃ a, x = .ok a ∧ f a = .error e := by
  cases x with
  | error e' => exact .inl (congrArg _ (Except.error.inj h))
  | ok a => exact .inr ⟨a, rfl, h⟩

theorem eq_error_of_map_eq_error {x : Except ε α} {f : α → β} {e : ε}
    (h : x.map f = .error e) : x = .error e := by
  cases x with
  | error e' => exact congrArg _ (Except.error.inj h)
  | ok a => cases h

theorem forall₂_of_mapM_eq_ok {xs : List α} {ys : List β} {f : α → Except ε β}
    (h : xs.mapM f = .ok ys) : List.Forall₂ (fun x y => f x = .ok y) xs ys := by
  induction xs generalizing ys with
  | nil =>
    rw [List.mapM_nil] at h
    obtain rfl := Except.ok.inj h
    exact .nil
  | cons x xs ih =>
    rw [List.mapM_cons] at h
    obtain ⟨y, hy, h⟩ := exists_of_bind_eq_ok h
    obtain ⟨rest, hrest, h⟩ := exists_of_bind_eq_ok h
    obtain rfl := Except.ok.inj h
    exact .cons hy (ih hrest)

theorem mapM_eq_ok_of_forall₂ {xs : List α} {ys : List β} {f : α → Except ε β}
    (h : List.Forall₂ (fun x y => f x = .ok y) xs ys) : xs.mapM f = .ok ys := by
  induction h with
  | nil => rfl
  | cons hy _ ih =>
    rw [List.mapM_cons, hy, ih]
    rfl

theorem exists_mapM_eq_ok_iff {xs : List α} {f : α → Except ε β} :
    (∃ ys, xs.mapM f = .ok ys) ↔ ∀ x ∈ xs, ∃ y, f x = .ok y := by
  induction xs with
  | nil => exact iff_of_true ⟨[], rfl⟩ nofun
  | cons x xs ih =>
    rw [List.forall_mem_cons, ← ih]
    constructor
    · rintro ⟨ys, h⟩
      rw [List.mapM_cons] at h
      obtain ⟨y, hy, h⟩ := exists_of_bind_eq_ok h
      obtain ⟨rest, hrest, -⟩ := exists_of_bind_eq_ok h
      exact ⟨⟨y, hy⟩, ⟨rest, hrest⟩⟩
    · rintro ⟨⟨y, hy⟩, ⟨rest, hrest⟩⟩
      refine ⟨y :: rest, ?_⟩
      rw [List.mapM_cons, hy, hrest]
      rfl

theorem mapM_eq_error_iff {xs : List α} {f : α → Except ε β} {e : ε} :
    xs.mapM f = .error e ↔
      ∃ before x after, xs = before ++ x :: after ∧ (∀ y ∈ before, ∃ z, f y = .ok z) ∧
        f x = .error e := by
  constructor
  · intro h
    induction xs with
    | nil => cases h
    | cons x xs ih =>
      rw [List.mapM_cons] at h
      rcases exists_of_bind_eq_error h with hx | ⟨y, hy, h⟩
      · exact ⟨[], x, xs, rfl, nofun, hx⟩
      · rcases exists_of_bind_eq_error h with hxs | ⟨ys, -, h⟩
        · obtain ⟨before, x', after, rfl, hbefore, hx'⟩ := ih hxs
          exact ⟨x :: before, x', after, rfl, List.forall_mem_cons.2 ⟨⟨y, hy⟩, hbefore⟩, hx'⟩
        · cases h
  · rintro ⟨before, x, after, rfl, hbefore, hx⟩
    obtain ⟨ys, hys⟩ := exists_mapM_eq_ok_iff.2 hbefore
    rw [List.mapM_append, hys, List.mapM_cons, hx]
    rfl

theorem exists_of_mapM_eq_error {xs : List α} {f : α → Except ε β} {e : ε}
    (h : xs.mapM f = .error e) : ∃ x ∈ xs, f x = .error e := by
  obtain ⟨before, x, after, rfl, -, hx⟩ := mapM_eq_error_iff.1 h
  exact ⟨x, List.mem_append_right before List.mem_cons_self, hx⟩

theorem exists_of_mem_of_forall₂ {R : α → β → Prop} {xs : List α} {ys : List β}
    (h : List.Forall₂ R xs ys) {y : β} (hy : y ∈ ys) : ∃ x ∈ xs, R x y := by
  induction h with
  | nil => cases hy
  | @cons x z xs ys hz hrest ih =>
    rcases List.mem_cons.1 hy with rfl | hy
    · exact ⟨x, List.mem_cons_self, hz⟩
    · obtain ⟨x', hx', hR⟩ := ih hy
      exact ⟨x', List.mem_cons_of_mem _ hx', hR⟩

theorem exists_of_mem_of_mapM_eq_ok {xs : List α} {ys : List β} {f : α → Except ε β}
    (h : xs.mapM f = .ok ys) {y : β} (hy : y ∈ ys) : ∃ x ∈ xs, f x = .ok y :=
  exists_of_mem_of_forall₂ (forall₂_of_mapM_eq_ok h) hy

theorem mapM_eq_some_iff {xs : List α} {ys : List β} {f : α → Option β} :
    xs.mapM f = some ys ↔ List.Forall₂ (fun x y => f x = some y) xs ys := by
  induction xs generalizing ys with
  | nil =>
    rw [List.mapM_nil, List.forall₂_nil_left_iff]
    exact ⟨fun h => (Option.some.inj h).symm, fun h => congrArg some h.symm⟩
  | cons x xs ih =>
    rw [List.mapM_cons, List.forall₂_cons_left_iff]
    constructor
    · intro h
      obtain ⟨y, hy, h⟩ := Option.bind_eq_some_iff.1 h
      obtain ⟨rest, hrest, h⟩ := Option.bind_eq_some_iff.1 h
      exact ⟨y, rest, hy, ih.1 hrest, (Option.some.inj h).symm⟩
    · rintro ⟨y, rest, hy, hrest, rfl⟩
      rw [hy, ih.2 hrest]
      rfl

theorem isSome_bind_iff {x : Option α} {f : α → Option β} :
    (x >>= f).isSome ↔ ∃ a, x = some a ∧ (f a).isSome := by
  cases x <;> simp

theorem isSome_mapM_iff {xs : List α} {f : α → Option β} :
    (xs.mapM f).isSome ↔ ∀ x ∈ xs, (f x).isSome := by
  induction xs with
  | nil => exact iff_of_true rfl (List.forall_mem_nil _)
  | cons x xs ih =>
    rw [List.mapM_cons, List.forall_mem_cons, ← ih]
    cases f x <;> cases xs.mapM f <;> simp

theorem exists_of_mem_of_mapM_eq_some {xs : List α} {ys : List β} {f : α → Option β}
    (h : xs.mapM f = some ys) {y : β} (hy : y ∈ ys) : ∃ x ∈ xs, f x = some y :=
  exists_of_mem_of_forall₂ (mapM_eq_some_iff.1 h) hy

theorem exists_mapM_eq_some_of_perm {xs xs' : List α} {ys : List β} {f : α → Option β}
    (h : xs.Perm xs') (hys : xs.mapM f = some ys) : ∃ ys', xs'.mapM f = some ys' ∧ ys.Perm ys' := by
  obtain ⟨ys', hys', hperm⟩ := List.perm_comp_forall₂ h.symm (mapM_eq_some_iff.1 hys)
  exact ⟨ys', mapM_eq_some_iff.2 hys', hperm.symm⟩

def only (asked : Bool) (x : Except ε α) : Except ε (List α) :=
  if asked then x.map ([·]) else .ok []

theorem mapM_filter_cons_eq_ok {p : α → Bool} {f : α → Except ε β} {x : α} {xs : List α}
    {ys : List β} (h : ((x :: xs).filter p).mapM f = .ok ys) :
    ∃ part rest, only (p x) (f x) = .ok part ∧ (xs.filter p).mapM f = .ok rest ∧
      ys = part ++ rest := by
  rw [List.filter_cons] at h
  cases hp : p x with
  | false =>
    rw [hp] at h
    exact ⟨[], ys, rfl, h, rfl⟩
  | true =>
    rw [hp, if_pos rfl, List.mapM_cons] at h
    obtain ⟨y, hy, h⟩ := exists_of_bind_eq_ok h
    obtain ⟨rest, hrest, h⟩ := exists_of_bind_eq_ok h
    exact ⟨[y], rest, by rw [only, if_pos rfl, hy]; rfl, hrest, (Except.ok.inj h).symm⟩

theorem only_eq_ok {asked : Bool} {x : Except ε α} {ys : List α} (h : only asked x = .ok ys) :
    ys.isEmpty = !asked := by
  cases asked with
  | false =>
    obtain rfl := Except.ok.inj h
    rfl
  | true =>
    obtain ⟨y, -, rfl⟩ := exists_of_map_eq_ok h
    rfl

theorem of_mem_only {asked : Bool} {x : Except ε α} {ys : List α} {y : α}
    (h : only asked x = .ok ys) (hy : y ∈ ys) : asked ∧ x = .ok y := by
  cases asked with
  | false =>
    obtain rfl := Except.ok.inj h
    cases hy
  | true =>
    obtain ⟨z, hz, rfl⟩ := exists_of_map_eq_ok h
    rw [List.mem_singleton.1 hy]
    exact ⟨rfl, hz⟩

end MediaViews.Outcome
