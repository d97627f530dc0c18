import MediaViews.Proofs.Executor.Pruning

/-! The values that a change at a path is made to. They are changed one by one, and those at a path
that lies apart are left alone. -/
namespace MediaViews.Value

open LabelTags (framesField)

variable {change : Value → Value × Nat} {name other : String} {names path rest : List String}

def sites : List String → Value → List Value
  | [], v => [v]
  | name :: names, v =>
    if name = framesField ∧ names ≠ [] then
      ((v.get? name).getD .null).items.flatMap (sites names)
    else (at? (name :: names) v).toList

theorem sites_frames (h : names ≠ []) (v : Value) :
    sites (framesField :: names) v = ((v.get? framesField).getD .null).items.flatMap (sites names) :=
  if_pos ⟨rfl, h⟩

theorem sites_plain (h : ¬(name = framesField ∧ names ≠ [])) (v : Value) :
    sites (name :: names) v = (at? (name :: names) v).toList := if_neg h

theorem sites_singleton (name : String) (v : Value) : sites [name] v = (v.get? name).toList := by
  rw [sites_plain (by simp), at?]
  cases v.get? name <;> rfl

/-! One field. -/

theorem get?_changeField_self (name : String) (change : Value → Value × Nat) (v : Value) :
    (changeField name change v).1.get? name = (v.get? name).map fun w => (change w).1 := by
  cases v with
  | obj d =>
    rw [changeField, get?]
    cases hfield : d.lookup name with
    | none => exact hfield
    | some w => exact Document.lookup_set_self _ _ _
  | _ => rfl

theorem get?_changeField_of_ne (h : other ≠ name) (change : Value → Value × Nat) (v : Value) :
    (changeField name change v).1.get? other = v.get? other := by
  cases v with
  | obj d =>
    rw [changeField]
    cases d.lookup name with
    | none => rfl
    | some w => exact Document.lookup_set_of_ne h _ _
  | _ => rfl

theorem count_changeField (name : String) (change : Value → Value × Nat) (v : Value) :
    (changeField name change v).2 = ((v.get? name).map fun w => (change w).2).getD 0 := by
  cases v with
  | obj d =>
    rw [changeField, get?]
    cases d.lookup name <;> rfl
  | _ => rfl

theorem changeField_eq_self {v : Value} (h : ∀ w, v.get? name = some w → (change w).1 = w) :
    (changeField name change v).1 = v := by
  cases v with
  | obj d =>
    rw [changeField]
    cases hfield : d.lookup name with
    | none => rfl
    | some w =>
      have hsame : (change w).1 = w := h w hfield
      dsimp only
      rw [hsame, Document.set_of_lookup hfield]
  | _ => rfl

theorem items_changeItems (change : Value → Value × Nat) (v : Value) :
    (changeItems change v).1.items = v.items.map fun w => (change w).1 := by
  cases v with
  | arr items => exact List.map_map
  | _ => rfl

/-! One path. -/

theorem at?_changeAt_self (path : List String) (v : Value) :
    at? path (changeAt change path v).1 = (at? path v).map fun w => (change w).1 := by
  induction path generalizing v with
  | nil => rfl
  | cons name path ih =>
    rw [changeAt_cons, at?, at?, get?_changeField_self]
    cases v.get? name with
    | none => rfl
    | some w => exact ih w

theorem count_changeAt (path : List String) (v : Value) :
    (changeAt change path v).2 = ((at? path v).map fun w => (change w).2).getD 0 := by
  induction path generalizing v with
  | nil => rfl
  | cons name path ih =>
    rw [changeAt_cons, at?, count_changeField]
    cases v.get? name with
    | none => rfl
    | some w => exact ih w

theorem sites_changeInLevel_self (path : List String) (v : Value) :
    sites path (changeInLevel change path v).1 = (sites path v).map fun w => (change w).1 := by
  induction path generalizing v with
  | nil => rfl
  | cons name path ih =>
    by_cases hframes : name = framesField ∧ path ≠ []
    · obtain ⟨rfl, hmore⟩ := hframes
      rw [changeInLevel_frames change hmore, sites_frames hmore, sites_frames hmore,
        get?_changeField_self]
      cases v.get? framesField with
      | none => rfl
      | some frames =>
        rw [Option.map_some, Option.getD_some, Option.getD_some, items_changeItems,
          List.flatMap_map, List.map_flatMap]
        exact List.flatMap_congr fun frame _ => ih frame
    · rw [changeInLevel_plain change hframes, sites_plain hframes, sites_plain hframes,
        at?_changeAt_self]
      exact Option.toList_map

theorem count_changeInLevel (path : List String) (v : Value) :
    (changeInLevel change path v).2 = ((sites path v).map fun w => (change w).2).sum := by
  induction path generalizing v with
  | nil => simp [changeInLevel, sites]
  | cons name path ih =>
    by_cases hframes : name = framesField ∧ path ≠ []
    · obtain ⟨rfl, hmore⟩ := hframes
      rw [changeInLevel_frames change hmore, sites_frames hmore, count_changeField]
      cases v.get? framesField with
      | none => rfl
      | some frames =>
        cases frames with
        | arr frames =>
          have hframe : frames.map (fun frame => (changeInLevel change path frame).2) =
              frames.map fun frame => ((sites path frame).map fun w => (change w).2).sum :=
            List.map_congr_left fun frame _ => ih frame
          simp only [changeItems, Option.map_some, Option.getD_some, items, List.map_map,
            Function.comp_def, hframe, List.flatMap_def, List.map_flatten, List.sum_flatten]
        | _ => rfl
    · rw [changeInLevel_plain change hframes, sites_plain hframes, count_changeAt]
      cases at? (name :: path) v <;> simp

theorem items_changeAt (h : path ≠ []) (v : Value) : (changeAt change path v).1.items = v.items := by
  obtain ⟨name, path, rfl⟩ := List.exists_cons_of_ne_nil h
  rw [changeAt_cons]
  cases v with
  | obj d =>
    rw [changeField]
    cases d.lookup name <;> rfl
  | _ => rfl

/-- A change that does not look into frames changes every value at the path, or, where the path leads
into frames, none. -/
theorem sites_changeAt_self (path : List String) (v : Value) :
    sites path (changeAt change path v).1 = (sites path v).map (fun w => (change w).1) ∨
      sites path (changeAt change path v).1 = sites path v := by
  cases path with
  | nil => exact .inl rfl
  | cons name path =>
    by_cases hframes : name = framesField ∧ path ≠ []
    · obtain ⟨rfl, hmore⟩ := hframes
      right
      rw [changeAt_cons, sites_frames hmore, sites_frames hmore, get?_changeField_self]
      cases v.get? framesField with
      | none => rfl
      | some frames =>
        rw [Option.map_some, Option.getD_some, Option.getD_some, items_changeAt hmore]
    · left
      rw [sites_plain hframes, sites_plain hframes, at?_changeAt_self]
      exact Option.toList_map

theorem changeAt_of_at?_eq_none {v : Value} (h : at? path v = none) :
    (changeAt change path v).1 = v := by
  induction path generalizing v with
  | nil => cases h
  | cons name path ih =>
    rw [changeAt_cons]
    refine changeField_eq_self fun w hw => ih ?_
    rwa [at?, hw, Option.bind_some] at h

theorem changeInLevel_of_sites_eq_nil {v : Value} (h : sites path v = []) :
    (changeInLevel change path v).1 = v := by
  induction path generalizing v with
  | nil => cases h
  | cons name path ih =>
    by_cases hframes : name = framesField ∧ path ≠ []
    · obtain ⟨rfl, hmore⟩ := hframes
      rw [changeInLevel_frames change hmore]
      rw [sites_frames hmore] at h
      refine changeField_eq_self fun w hw => ?_
      rw [hw, Option.getD_some, List.flatMap_eq_nil_iff] at h
      cases w with
      | arr frames =>
        have hframe : frames.map (fun frame => (changeInLevel change path frame).1) = frames := by
          conv_rhs => rw [← List.map_id frames]
          exact List.map_congr_left fun frame hframe => ih (h frame hframe)
        rw [changeItems, List.map_map]
        exact congrArg _ hframe
      | _ => rfl
    · rw [sites_plain hframes, Option.toList_eq_nil_iff] at h
      rw [changeInLevel_plain change hframes, changeAt_of_at?_eq_none h]

/-! Reading on. -/

/-- Whether no list is met on the way to the values at a path, but for that of the frames. -/
def opensTo : List String → Value → Bool
  | [], _ => true
  | name :: names, v =>
    if name = framesField ∧ names ≠ [] then
      let frames := (v.get? framesField).getD .null
      !v.isList && (frames.isNull || frames.isList) && frames.items.all (opensTo names)
    else !crossesList (name :: names) v

theorem reached_append_of_opensTo {path : List String} {v : Value} (h : opensTo path v)
    (rest : List String) :
    v.reached (path ++ rest) = (sites path v).flatMap (·.reached rest) := by
  induction path generalizing v with
  | nil => exact (List.flatMap_singleton _ _).symm
  | cons name path ih =>
    rw [opensTo] at h
    -- The list of the frames is the only one that may be crossed.
    by_cases hframes : name = framesField ∧ path ≠ []
    · obtain ⟨rfl, hmore⟩ := hframes
      rw [if_pos ⟨rfl, hmore⟩] at h
      simp only [Bool.and_eq_true, List.all_eq_true] at h
      obtain ⟨⟨hlist, hframes⟩, hitems⟩ := h
      rw [sites_frames hmore, List.flatMap_assoc, List.cons_append]
      cases v with
      | obj d =>
        rw [get?] at hframes hitems ⊢
        rw [reached_obj]
        cases hfield : d.lookup framesField with
        | none => rfl
        | some frames =>
          rw [hfield] at hframes hitems
          obtain ⟨next, more, hnext⟩ := List.exists_cons_of_ne_nil
            (List.append_ne_nil_of_left_ne_nil hmore rest)
          cases frames with
          | null =>
            rw [hnext]
            rfl
          | arr items =>
            rw [Option.map_some, Option.getD_some, Option.getD_some, hnext, reached,
              reachedItems_eq_flatMap, ← hnext]
            exact List.flatMap_congr fun frame hframe => ih (hitems frame hframe)
          | _ => cases hframes
      | arr items => cases hlist
      | _ => rfl
    · rw [if_neg hframes, Bool.not_eq_true'] at h
      rw [reached_append_of_not_crossesList h, sites_plain hframes]

/-! Two paths. -/

def Apart (path other : List String) : Prop := ¬path <+: other ∧ ¬other <+: path

instance (path other : List String) : Decidable (Apart path other) :=
  inferInstanceAs (Decidable (_ ∧ _))

theorem Apart.tail {path other : List String} (h : Apart (name :: path) (name :: other)) :
    Apart path other :=
  ⟨fun hfront => h.1 (List.cons_prefix_cons.2 ⟨rfl, hfront⟩),
    fun hfront => h.2 (List.cons_prefix_cons.2 ⟨rfl, hfront⟩)⟩

theorem Apart.ne_nil {path other : List String} (h : Apart path other) : path ≠ [] ∧ other ≠ [] :=
  ⟨fun hnil => h.1 (hnil ▸ List.nil_prefix), fun hnil => h.2 (hnil ▸ List.nil_prefix)⟩

theorem at?_changeAt_of_apart {path other : List String} (h : Apart path other) (v : Value) :
    at? other (changeAt change path v).1 = at? other v := by
  induction path generalizing other v with
  | nil => exact absurd rfl h.ne_nil.1
  | cons name path ih =>
    obtain ⟨next, other, rfl⟩ := List.exists_cons_of_ne_nil h.ne_nil.2
    rw [changeAt_cons, at?, at?]
    by_cases hname : next = name
    · subst hname
      rw [get?_changeField_self]
      cases v.get? next with
      | none => rfl
      | some w => exact ih h.tail w
    · rw [get?_changeField_of_ne hname]

theorem sites_congr {v w : Value} (h : v.get? name = w.get? name) :
    sites (name :: names) v = sites (name :: names) w := by
  rw [sites, sites, at?, at?, h]

theorem sites_changeInLevel_of_apart {path other : List String} (h : Apart path other) (v : Value) :
    sites other (changeInLevel change path v).1 = sites other v := by
  induction path generalizing other v with
  | nil => exact absurd rfl h.ne_nil.1
  | cons name path ih =>
    obtain ⟨next, other, rfl⟩ := List.exists_cons_of_ne_nil h.ne_nil.2
    have htail : next = name → Apart path other := fun heq => (heq ▸ h).tail
    by_cases hframes : name = framesField ∧ path ≠ []
    · obtain ⟨rfl, hmore⟩ := hframes
      rw [changeInLevel_frames change hmore]
      by_cases hnext : next = framesField
      · subst hnext
        have hother := (htail rfl).ne_nil.2
        rw [sites_frames hother, sites_frames hother, get?_changeField_self]
        cases v.get? framesField with
        | none => rfl
        | some frames =>
          rw [Option.map_some, Option.getD_some, Option.getD_some, items_changeItems,
            List.flatMap_map]
          exact List.flatMap_congr fun frame _ => ih (htail rfl) frame
      · exact sites_congr (get?_changeField_of_ne hnext _ v)
    · rw [changeInLevel_plain change hframes]
      by_cases hnext : next = name
      · have hplain : ¬(next = framesField ∧ other ≠ []) := fun hother =>
          hframes ⟨hnext ▸ hother.1, (htail hnext).ne_nil.1⟩
        rw [sites_plain hplain, sites_plain hplain, at?_changeAt_of_apart h]
      · rw [changeAt_cons]
        exact sites_congr (get?_changeField_of_ne hnext _ v)

theorem sites_changeAt_of_apart {path other : List String} (h : Apart path other) (v : Value) :
    sites other (changeAt change path v).1 = sites other v := by
  obtain ⟨name, path, rfl⟩ := List.exists_cons_of_ne_nil h.ne_nil.1
  obtain ⟨next, other, rfl⟩ := List.exists_cons_of_ne_nil h.ne_nil.2
  by_cases hnext : next = name
  · subst hnext
    by_cases hframes : next = framesField ∧ other ≠ []
    · obtain ⟨rfl, hmore⟩ := hframes
      rw [changeAt_cons, sites_frames hmore, sites_frames hmore, get?_changeField_self]
      cases v.get? framesField with
      | none => rfl
      | some frames =>
        rw [Option.map_some, Option.getD_some, Option.getD_some, items_changeAt h.tail.ne_nil.1]
    · rw [sites_plain hframes, sites_plain hframes, at?_changeAt_of_apart h]
  · rw [changeAt_cons]
    exact sites_congr (get?_changeField_of_ne hnext _ v)

/-! Nothing. -/

structure Shrinks (change : Value → Value × Nat) : Prop where
  missing : ∀ (path : List String) (v : Value), path ≠ [] → at? path v = none →
    at? path (change v).1 = none
  items : ∀ v, (change v).1.items = v.items ∨ (change v).1.items = []

theorem Shrinks.at?_changeAt (h : Shrinks change) {other : List String} {v : Value}
    (hmissing : at? other v = none) :
    at? other (changeAt change path v).1 = none := by
  have hother : other ≠ [] := by
    rintro rfl
    cases hmissing
  induction path generalizing other v with
  | nil => exact h.missing other v hother hmissing
  | cons name path ih =>
    obtain ⟨next, other, rfl⟩ := List.exists_cons_of_ne_nil hother
    rw [at?] at hmissing
    rw [changeAt_cons, at?]
    by_cases hname : next = name
    · subst hname
      rw [get?_changeField_self]
      cases hfield : v.get? next with
      | none => rfl
      | some w =>
        rw [hfield, Option.bind_some] at hmissing
        have hne : other ≠ [] := by
          rintro rfl
          cases hmissing
        exact ih hmissing hne
    · rw [get?_changeField_of_ne hname, hmissing]

theorem exists_changeField (change : Value → Value × Nat) (name : String) (path : List String) :
    ∃ inner, changeInLevel change (name :: path) = changeField name inner := by
  by_cases hframes : name = framesField ∧ path ≠ []
  · obtain ⟨rfl, hmore⟩ := hframes
    exact ⟨_, changeInLevel_frames change hmore⟩
  · rw [changeInLevel_plain change hframes, changeAt_cons]
    exact ⟨_, rfl⟩

theorem Shrinks.sites_changeInLevel (h : Shrinks change) (hpath : path ≠ [])
    {other : List String} {v : Value}
    (hnone : sites other v = []) : sites other (changeInLevel change path v).1 = [] := by
  induction path generalizing other v with
  | nil => exact absurd rfl hpath
  | cons name path ih =>
    obtain ⟨next, other, rfl⟩ : ∃ next more, other = next :: more :=
      List.exists_cons_of_ne_nil fun hnil => by simp [hnil, sites] at hnone
    obtain ⟨inner, hinner⟩ := exists_changeField change name path
    by_cases hnext : next = name
    · subst hnext
      by_cases hother : other = []
      · subst hother
        rw [sites_singleton, Option.toList_eq_nil_iff] at hnone ⊢
        rw [hinner, get?_changeField_self, hnone, Option.map_none]
      · by_cases hframes : next = framesField
        · -- What is under the frames is changed as a whole, or frame by frame.
          subst hframes
          rw [sites_frames hother] at hnone ⊢
          by_cases hmore : path = []
          · subst hmore
            rw [changeInLevel_plain change (by simp), changeAt_cons, get?_changeField_self]
            cases hfield : v.get? framesField with
            | none => rfl
            | some frames =>
              rw [hfield, Option.getD_some] at hnone
              rw [Option.map_some, Option.getD_some, changeAt]
              rcases h.items frames with hsame | hempty
              · rw [hsame, hnone]
              · rw [hempty, List.flatMap_nil]
          · rw [changeInLevel_frames change hmore, get?_changeField_self]
            cases hfield : v.get? framesField with
            | none => rfl
            | some frames =>
              rw [hfield, Option.getD_some, List.flatMap_eq_nil_iff] at hnone
              rw [Option.map_some, Option.getD_some, items_changeItems, List.flatMap_map,
                List.flatMap_eq_nil_iff]
              exact fun frame hframe => ih hmore (hnone frame hframe)
        · rw [sites_plain (by simp [hframes]), Option.toList_eq_nil_iff] at hnone ⊢
          rw [changeInLevel_of_ne change hframes]
          exact h.at?_changeAt hnone
    · rw [hinner, sites_congr (get?_changeField_of_ne hnext _ v), hnone]

end MediaViews.Value
