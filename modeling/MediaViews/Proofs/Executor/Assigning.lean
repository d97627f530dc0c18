import MediaViews.Proofs.Executor.Sites

/-! Values that are set at a path, and lists that are filtered where they stand. What is set at one
path is not seen at a path that lies apart, so lists that lie apart are filtered independently. -/
namespace MediaViews

open Value (at? Apart)

namespace Value

/-- Whether a path leads through embedded documents to a list. On the way or at its end there may be
null or nothing instead. -/
def leadsToList : List String → Value → Bool
  | [], v => v.isNull || v.isList
  | name :: names, v =>
    match v with
    | .null => true
    | .obj d => leadsToList names ((d.lookup name).getD .null)
    | _ => false

theorem leadsToList_null (names : List String) : leadsToList names .null := by
  cases names <;> rfl

theorem crossesList_of_leadsToList {names : List String} {v : Value} (h : leadsToList names v) :
    crossesList names v = false := by
  induction names generalizing v with
  | nil => rfl
  | cons name names ih =>
    cases v with
    | null => rfl
    | obj d =>
      have hnext : leadsToList names ((d.lookup name).getD .null) := h
      simp only [crossesList, isList, Bool.false_or, get?]
      cases hfield : d.lookup name with
      | none => rfl
      | some w =>
        rw [hfield] at hnext
        exact ih hnext
    | _ => cases h

theorem null_or_list_of_leadsToList {names : List String} {v : Value} (h : leadsToList names v) :
    valueAt names v = .null ∨ ∃ items, valueAt names v = .arr items := by
  induction names generalizing v with
  | nil =>
    cases v with
    | null => exact .inl rfl
    | arr items => exact .inr ⟨items, rfl⟩
    | _ => cases h
  | cons name names ih =>
    cases v with
    | null => exact .inl rfl
    | obj d => exact ih h
    | _ => cases h

theorem leadsToList_ofValue {names : List String} {v : Value} (hnames : names ≠ [])
    (h : leadsToList names v) : leadsToList names (.obj (Document.ofValue v)) := by
  obtain ⟨name, names, rfl⟩ := List.exists_cons_of_ne_nil hnames
  cases v with
  | null => exact leadsToList_null names
  | obj d => exact h
  | _ => cases h

end Value

namespace Document

variable {path other : List String} {name next : String} {d : Document}

theorem lookup_assign_of_ne (h : next ≠ name) (path : List String) (v : Value) (d : Document) :
    (d.assign (name :: path) v).lookup next = d.lookup next := by
  by_cases hpath : path = []
  · rw [hpath, assign, lookup_set_of_ne h]
  · rw [assign_cons name hpath, lookup_set_of_ne h]

theorem lookup_assign_self (h : path ≠ []) (name : String) (v : Value) (d : Document) :
    (d.assign (name :: path) v).lookup name =
      some (.obj ((ofValue ((d.lookup name).getD .null)).assign path v)) := by
  rw [assign_cons name h, lookup_set_self]

theorem at?_obj (name : String) (names : List String) (d : Document) :
    at? (name :: names) (.obj d) = (d.lookup name).bind (at? names) := rfl

theorem at?_assign_self (h : path ≠ []) (v : Value) (d : Document) :
    at? path (.obj (d.assign path v)) = some v := by
  induction path generalizing d with
  | nil => exact absurd rfl h
  | cons name path ih =>
    rw [at?_obj]
    by_cases hend : path = []
    · rw [hend, assign, lookup_set_self]
      rfl
    · rw [lookup_assign_self hend]
      exact ih hend _

theorem at?_assign_of_apart (h : Apart path other) (v : Value) (d : Document) :
    at? other (.obj (d.assign path v)) = at? other (.obj d) := by
  -- What stands in the way of the path is replaced, but nothing could be found beyond it.
  induction path generalizing other d with
  | nil => exact absurd rfl h.ne_nil.1
  | cons name path ih =>
    obtain ⟨next, other, rfl⟩ := List.exists_cons_of_ne_nil h.ne_nil.2
    rw [at?_obj, at?_obj]
    by_cases hname : next = name
    · subst hname
      obtain ⟨hpath, hother⟩ := h.tail.ne_nil
      rw [lookup_assign_self hpath, Option.bind_some, ih h.tail]
      obtain ⟨first, rest, rfl⟩ := List.exists_cons_of_ne_nil hother
      cases d.lookup next with
      | none => rfl
      | some w => cases w <;> rfl
    · rw [lookup_assign_of_ne hname]

theorem leadsToList_assign_self (h : path ≠ []) (items : List Value) (d : Document) :
    (Value.obj (d.assign path (.arr items))).leadsToList path := by
  induction path generalizing d with
  | nil => exact absurd rfl h
  | cons name path ih =>
    rw [Value.leadsToList]
    by_cases hend : path = []
    · rw [hend, assign, lookup_set_self]
      rfl
    · rw [lookup_assign_self hend]
      exact ih hend _

theorem leadsToList_assign_of_apart (h : Apart path other) (v : Value)
    (hd : (Value.obj d).leadsToList other) : (Value.obj (d.assign path v)).leadsToList other := by
  induction path generalizing other d with
  | nil => exact absurd rfl h.ne_nil.1
  | cons name path ih =>
    obtain ⟨next, other, rfl⟩ := List.exists_cons_of_ne_nil h.ne_nil.2
    rw [Value.leadsToList] at hd ⊢
    by_cases hname : next = name
    · subst hname
      obtain ⟨hpath, hother⟩ := h.tail.ne_nil
      rw [lookup_assign_self hpath]
      exact ih h.tail (Value.leadsToList_ofValue hother hd)
    · rwa [lookup_assign_of_ne hname]

/-! Lists filtered where they stand. -/

def itemsAt (path : List String) (d : Document) : List Value :=
  ((at? path (.obj d)).getD .null).items

def filterAt (path : List String) (test : Value → Bool) (d : Document) : Document :=
  d.assign path (.arr ((d.itemsAt path).filter test))

def filterEach (steps : List (List String × (Value → Bool))) (d : Document) : Document :=
  steps.foldl (fun d step => d.filterAt step.1 step.2) d

variable {steps : List (List String × (Value → Bool))} {test : Value → Bool}

theorem itemsAt_filterAt (hpath : path ≠ []) (h : other = path ∨ Apart other path) (d : Document) :
    (d.filterAt other test).itemsAt path =
      (d.itemsAt path).filter fun v => other != path || test v := by
  rcases h with rfl | hapart
  · have hself := at?_assign_self hpath (.arr ((d.itemsAt other).filter test)) d
    rw [itemsAt, filterAt, hself]
    simp [Value.items]
  · have hne : (other != path) = true :=
      bne_iff_ne.2 fun heq => hapart.1 (heq ▸ List.prefix_refl _)
    rw [itemsAt, filterAt, at?_assign_of_apart hapart, ← itemsAt]
    simp [hne]

theorem itemsAt_filterEach (hpath : path ≠ [])
    (h : ∀ step ∈ steps, step.1 = path ∨ Apart step.1 path) (d : Document) :
    (d.filterEach steps).itemsAt path =
      (d.itemsAt path).filter fun v => steps.all fun step => step.1 != path || step.2 v := by
  -- The tests of a list are met together, since each is asked of what the ones before it left.
  induction steps generalizing d with
  | nil => simp [filterEach]
  | cons step steps ih =>
    obtain ⟨hfirst, hrest⟩ := List.forall_mem_cons.1 h
    calc (d.filterEach (step :: steps)).itemsAt path
        = ((d.filterAt step.1 step.2).filterEach steps).itemsAt path := rfl
      _ = ((d.itemsAt path).filter fun v => step.1 != path || step.2 v).filter fun v =>
            steps.all fun step => step.1 != path || step.2 v := by
          rw [ih hrest, itemsAt_filterAt hpath hfirst]
      _ = (d.itemsAt path).filter fun v =>
            (step :: steps).all fun step => step.1 != path || step.2 v := by
          rw [List.filter_filter]
          exact List.filter_congr fun v _ => Bool.and_comm _ _

theorem at?_filterEach_of_apart (h : ∀ step ∈ steps, Apart step.1 other) (d : Document) :
    at? other (.obj (d.filterEach steps)) = at? other (.obj d) := by
  induction steps generalizing d with
  | nil => rfl
  | cons step steps ih =>
    obtain ⟨hfirst, hrest⟩ := List.forall_mem_cons.1 h
    exact (ih hrest _).trans (at?_assign_of_apart hfirst _ d)

theorem isList_at?_filterEach (hpath : path ≠ [])
    (h : ∀ step ∈ steps, step.1 = path ∨ Apart step.1 path) {d : Document}
    (hlist : (∃ step ∈ steps, step.1 = path) ∨ (at? path (.obj d)).any Value.isList) :
    (at? path (.obj (d.filterEach steps))).any Value.isList := by
  induction steps generalizing d with
  | nil =>
    rcases hlist with ⟨step, hstep, -⟩ | hlist
    · cases hstep
    · exact hlist
  | cons step steps ih =>
    obtain ⟨hfirst, hrest⟩ := List.forall_mem_cons.1 h
    refine ih hrest (d := d.filterAt step.1 step.2) ?_
    rcases hfirst with rfl | hapart
    · right
      rw [filterAt, at?_assign_self hpath]
      rfl
    · rw [filterAt, at?_assign_of_apart hapart]
      refine hlist.imp_left fun hmem => ?_
      obtain ⟨other, hother, rfl⟩ := hmem
      rcases List.mem_cons.1 hother with rfl | hother
      · exact absurd (List.prefix_refl _) hapart.1
      · exact ⟨other, hother, rfl⟩

theorem at?_filterEach_self (h : ∀ step ∈ steps, step.1 = path ∨ Apart step.1 path)
    (hmem : ∃ step ∈ steps, step.1 = path) (hpath : path ≠ []) (d : Document) :
    at? path (.obj (d.filterEach steps)) = some (.arr
      ((d.itemsAt path).filter fun v => steps.all fun step => step.1 != path || step.2 v)) := by
  have hlist := isList_at?_filterEach hpath h (d := d) (.inl hmem)
  rw [← itemsAt_filterEach hpath h, itemsAt]
  cases hat : at? path (.obj (d.filterEach steps)) with
  | none =>
    rw [hat] at hlist
    cases hlist
  | some v =>
    rw [hat, Option.any_some] at hlist
    cases v with
    | arr items => rfl
    | _ => cases hlist

end Document
end MediaViews
