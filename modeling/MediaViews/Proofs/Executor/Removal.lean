import MediaViews.Proofs.Executor.Face
import MediaViews.Proofs.Executor.Stages

/-! What stays the same where the field at a path is removed. The removal is told by a relation that
also looks through lists, and it holds on through every reading and change at a path that the removed
one does not begin. -/
namespace MediaViews

namespace Document

variable {a b : String} {v : Value}

theorem lookup_set_of_ne (h : b ≠ a) (v : Value) (d : Document) :
    (d.set a v).lookup b = d.lookup b := by
  rw [lookup_set, if_neg h]

theorem lookup_set_self (a : String) (v : Value) (d : Document) :
    (d.set a v).lookup a = some v := by
  rw [lookup_set, if_pos rfl]

theorem lookup_without_of_ne (h : b ≠ a) (d : Document) : (d.without a).lookup b = d.lookup b := by
  rw [lookup_without, if_neg h]

theorem set_without_of_ne (h : a ≠ b) (v : Value) (d : Document) :
    (d.without a).set b v = (d.set b v).without a := by
  induction d with
  | nil => simp [without, set, h.symm]
  | cons field d ih =>
    obtain ⟨k, w⟩ := field
    rw [without] at ih ⊢
    by_cases ha : k = a
    · subst ha
      simp [without, set, h, ih]
    · by_cases hb : k = b
      · subst hb
        simp [without, set, ha]
      · simp [without, set, ha, hb, ih]

theorem set_of_lookup {d : Document} (h : d.lookup a = some v) : d.set a v = d := by
  induction d with
  | nil => cases h
  | cons field d ih =>
    obtain ⟨k, w⟩ := field
    rw [Value.lookup_cons_ite] at h
    by_cases hk : k = a
    · obtain rfl : w = v := by simpa [hk] using h
      simp [set, hk]
    · simp [set, hk, ih (by simpa [Ne.symm hk] using h)]

theorem set_set_of_ne (h : a ≠ b) {d : Document} (ha : d.lookup a = some v) (w u : Value) :
    (d.set a w).set b u = (d.set b u).set a w := by
  -- A field that is there keeps its place, so it does not matter which of two is set first.
  induction d with
  | nil => cases ha
  | cons field d ih =>
    obtain ⟨k, x⟩ := field
    rw [Value.lookup_cons_ite] at ha
    by_cases hka : k = a
    · subst hka
      simp [set, h]
    · rw [if_neg (Ne.symm hka)] at ha
      by_cases hkb : k = b
      · subst hkb
        simp [set, hka]
      · simp [set, hka, hkb, ih ha]

end Document

namespace Value

/-- The second value is the first one after the field at a path was removed, everywhere or here and
there. -/
inductive Loses : List String → Value → Value → Prop where
  | nothing {names : List String} {v : Value} : Loses names v v
  | field {name : String} {d : Document} : Loses [name] (.obj d) (.obj (d.without name))
  | inField {name : String} {names : List String} {d : Document} {v w : Value}
      (hfield : d.lookup name = some v) (hlost : Loses names v w) :
      Loses (name :: names) (.obj d) (.obj (d.set name w))
  | inList {names : List String} {v w : Value} {vs ws : List Value} (hfirst : Loses names v w)
      (hrest : Loses names (.arr vs) (.arr ws)) : Loses names (.arr (v :: vs)) (.arr (w :: ws))

namespace Loses

variable {names path : List String} {name : String} {v w : Value} {vs ws : List Value}

theorem of_forall₂ (h : List.Forall₂ (Loses names) vs ws) : Loses names (.arr vs) (.arr ws) := by
  induction h with
  | nil => exact .nothing
  | cons hfirst _ ih => exact .inList hfirst ih

theorem forall₂ (h : Loses names (.arr vs) (.arr ws)) : List.Forall₂ (Loses names) vs ws := by
  induction vs generalizing ws with
  | nil =>
    cases h with
    | nothing => exact .nil
  | cons v vs ih =>
    cases h with
    | nothing => exact List.forall₂_same.2 fun _ _ => .nothing
    | inList hfirst hrest => exact .cons hfirst (ih hrest)

theorem shape (h : Loses names v w) :
    v = w ∨ (∃ d d', v = .obj d ∧ w = .obj d') ∨ ∃ vs ws, v = .arr vs ∧ w = .arr ws := by
  cases h with
  | nothing => exact .inl rfl
  | field => exact .inr (.inl ⟨_, _, rfl, rfl⟩)
  | inField => exact .inr (.inl ⟨_, _, rfl, rfl⟩)
  | inList => exact .inr (.inr ⟨_, _, rfl, rfl⟩)

theorem face_eq (h : Loses names v w) : v.face = w.face := by
  induction h with
  | nothing => rfl
  | field => rfl
  | inField => rfl
  | inList _ _ hfirst hrest =>
    rw [face, face, arr.injEq] at hrest ⊢
    rw [faces, faces, hfirst, hrest]

theorem isList_eq (h : Loses names v w) : v.isList = w.isList := by
  cases h <;> rfl

end Loses

end Value

abbrev Document.Loses (names : List String) (d d' : Document) : Prop :=
  Value.Loses names (.obj d) (.obj d')

namespace Value

/-! Reading. -/

theorem reached_obj (d : Document) (name : String) (names : List String) :
    (obj d).reached (name :: names) = ((d.lookup name).map (·.reached names)).getD [] :=
  reachedField_eq_lookup d name names

def child (name : String) (v : Value) : Value :=
  match v with
  | arr items => .arr (items.map fun item => (item.get? name).getD .null)
  | v => (v.get? name).getD .null

theorem valueAt_cons (name : String) (names : List String) (v : Value) :
    valueAt (name :: names) v = valueAt names (v.child name) := by
  cases v <;> first | rfl | exact (valueAt_null names).symm

namespace Loses

variable {names path : List String} {name next : String} {v w : Value}

theorem reached_eq (h : Loses names v w) (hpath : ¬names <+: path) :
    (v.reached path).map face = (w.reached path).map face := by
  induction h generalizing path with
  | nothing => rfl
  | @field name d =>
    cases path with
    | nil => rfl
    | cons next path =>
      have hne : next ≠ name := fun h => hpath (h ▸ List.prefix_append [next] path)
      rw [reached_obj, reached_obj, Document.lookup_without_of_ne hne]
  | @inField name names d v w hfield _ ih =>
    cases path with
    | nil => rfl
    | cons next path =>
      rw [reached_obj, reached_obj]
      by_cases hname : next = name
      · subst hname
        rw [hfield, Document.lookup_set_self]
        exact ih fun hfront => hpath (List.cons_prefix_cons.2 ⟨rfl, hfront⟩)
      · rw [Document.lookup_set_of_ne hname]
  | @inList names v w vs ws hfirst hrest ihfirst ihrest =>
    have hitems := ihrest hpath
    cases path with
    | nil =>
      simp only [reached] at hitems ⊢
      rw [List.map_cons, List.map_cons, hfirst.face_eq, hitems]
    | cons next path =>
      simp only [reached, reachedItems] at hitems ⊢
      rw [List.map_append, List.map_append, ihfirst hpath, hitems]

theorem get?_eq (h : Loses (name :: names) v w) (hne : next ≠ name) : v.get? next = w.get? next := by
  cases h with
  | nothing => rfl
  | field => exact (Document.lookup_without_of_ne hne _).symm
  | inField => exact (Document.lookup_set_of_ne hne _ _).symm
  | inList => rfl

theorem get? (h : Loses (name :: names) v w) (hnames : names ≠ []) :
    Loses names ((v.get? name).getD .null) ((w.get? name).getD .null) := by
  cases h with
  | nothing => exact .nothing
  | field => exact absurd rfl hnames
  | @inField _ _ d v w hfield hlost =>
    rw [Value.get?, Value.get?, hfield, Document.lookup_set_self]
    exact hlost
  | inList => exact .nothing

theorem child_eq (h : Loses (name :: names) v w) (hne : next ≠ name) :
    v.child next = w.child next := by
  rcases h.shape with rfl | ⟨d, d', rfl, rfl⟩ | ⟨vs, ws, rfl, rfl⟩
  · rfl
  · exact congrArg (·.getD null) (h.get?_eq hne)
  · have hitems : List.Forall₂ (fun v w => (v.get? next).getD null = (w.get? next).getD null) vs ws :=
      h.forall₂.imp fun v w hitem => congrArg (·.getD null) (hitem.get?_eq hne)
    rw [Value.child, Value.child, arr.injEq]
    exact List.forall₂_eq_eq_eq ▸
      List.forall₂_map_left_iff.2 (List.forall₂_map_right_iff.2 hitems)

theorem child (h : Loses (name :: names) v w) (hnames : names ≠ []) :
    Loses names (v.child name) (w.child name) := by
  rcases h.shape with rfl | ⟨d, d', rfl, rfl⟩ | ⟨vs, ws, rfl, rfl⟩
  · exact .nothing
  · exact h.get? hnames
  · refine of_forall₂ (List.forall₂_map_left_iff.2 (List.forall₂_map_right_iff.2 ?_))
    exact h.forall₂.imp fun v w hitem => hitem.get? hnames

theorem valueAt (h : Loses names v w) (hpath : ¬names <+: path) :
    Value.valueAt path v = Value.valueAt path w ∨
      ∃ rest, names = path ++ rest ∧ Loses rest (Value.valueAt path v) (Value.valueAt path w) := by
  induction path generalizing names v w with
  | nil => exact .inr ⟨names, rfl, h⟩
  | cons next path ih =>
    rw [valueAt_cons, valueAt_cons]
    cases names with
    | nil => exact absurd List.nil_prefix hpath
    | cons name names =>
      by_cases hname : next = name
      · subst hname
        have hrest : ¬names <+: path := fun hfront =>
          hpath (List.cons_prefix_cons.2 ⟨rfl, hfront⟩)
        have hnames : names ≠ [] := fun hnil => hrest (hnil ▸ List.nil_prefix)
        rcases ih (h.child hnames) hrest with heq | ⟨rest, rfl, hlost⟩
        · exact .inl heq
        · exact .inr ⟨rest, rfl, hlost⟩
      · exact .inl (by rw [h.child_eq hname])

theorem face_valueAt (h : Loses names v w) (hpath : ¬names <+: path) :
    (Value.valueAt path v).face = (Value.valueAt path w).face := by
  rcases h.valueAt hpath with heq | ⟨rest, -, hlost⟩
  · rw [heq]
  · exact hlost.face_eq

end Loses

/-! Changing. -/

def changeField (name : String) (change : Value → Value × Nat) (v : Value) : Value × Nat :=
  match v with
  | .obj d =>
    match d.lookup name with
    | some inner => (.obj (Document.set name (change inner).1 d), (change inner).2)
    | none => (v, 0)
  | _ => (v, 0)

def changeItems (change : Value → Value × Nat) (v : Value) : Value × Nat :=
  match v with
  | .arr items =>
    (.arr ((items.map change).map (·.1)), ((items.map change).map (·.2)).sum)
  | _ => (v, 0)

theorem changeAt_cons (change : Value → Value × Nat) (name : String) (names : List String) :
    changeAt change (name :: names) = changeField name (changeAt change names) := by
  funext v
  cases v <;> rfl

theorem changeInLevel_frames (change : Value → Value × Nat) {names : List String}
    (h : names ≠ []) :
    changeInLevel change (LabelTags.framesField :: names) =
      changeField LabelTags.framesField (changeItems (changeInLevel change names)) := by
  funext v
  cases names with
  | nil => exact absurd rfl h
  | cons name names =>
    cases v with
    | obj d =>
      simp only [changeInLevel, if_true, changeField]
      cases hframes : d.lookup LabelTags.framesField with
      | none => rfl
      | some frames =>
        cases frames with
        | arr frames => rfl
        | _ => simp only [changeItems, Document.set_of_lookup hframes]
    | _ => rfl

theorem changeInLevel_of_ne (change : Value → Value × Nat) {name : String}
    (h : name ≠ LabelTags.framesField) (names : List String) :
    changeInLevel change (name :: names) = changeAt change (name :: names) := by
  cases names with
  | nil => rfl
  | cons next names =>
    funext v
    cases v <;> simp only [changeInLevel, if_neg h]

theorem changeInLevel_plain (change : Value → Value × Nat) {name : String} {names : List String}
    (h : ¬(name = LabelTags.framesField ∧ names ≠ [])) :
    changeInLevel change (name :: names) = changeAt change (name :: names) := by
  by_cases hname : name = LabelTags.framesField
  · obtain rfl : names = [] := by_contra fun hnames => h ⟨hname, hnames⟩
    rfl
  · exact changeInLevel_of_ne change hname names

/-- A change with a count that leaves what is lost at a path lost, and counts the same. -/
def KeepsLoss (change : Value → Value × Nat) (names : List String) : Prop :=
  ∀ v w, Loses names v w →
    Loses names (change v).1 (change w).1 ∧ (change v).2 = (change w).2

namespace KeepsLoss

variable {change : Value → Value × Nat} {names path : List String} {name : String}

theorem inField (hne : names ≠ [name])
    (hchange : ∀ rest, names = name :: rest → KeepsLoss change rest) :
    KeepsLoss (changeField name change) names := by
  intro v w h
  cases h with
  | nothing => exact ⟨.nothing, rfl⟩
  | inList hfirst hrest => exact ⟨.inList hfirst hrest, rfl⟩
  | @field other d =>
    have hname : name ≠ other := fun h => hne (h ▸ rfl)
    rw [changeField, changeField, Document.lookup_without_of_ne hname]
    cases d.lookup name with
    | none => exact ⟨.field, rfl⟩
    | some inner =>
      dsimp only
      rw [Document.set_without_of_ne hname.symm]
      exact ⟨.field, rfl⟩
  | @inField other names d v w hfield hlost =>
    rw [changeField, changeField]
    by_cases hname : name = other
    · subst hname
      obtain ⟨hin, hcount⟩ := hchange names rfl v w hlost
      -- The loss is told on the changed documents by setting the field once more.
      have hset : (d.set name w).set name (change w).1 =
          (d.set name (change v).1).set name (change w).1 := by
        rw [Document.set_set, Document.set_set]
      rw [hfield, Document.lookup_set_self]
      dsimp only
      rw [hset]
      exact ⟨.inField (Document.lookup_set_self _ _ _) hin, hcount⟩
    · rw [Document.lookup_set_of_ne hname]
      cases d.lookup name with
      | none => exact ⟨.inField hfield hlost, rfl⟩
      | some inner =>
        dsimp only
        rw [Document.set_set_of_ne (Ne.symm hname) hfield]
        refine ⟨.inField ?_ hlost, rfl⟩
        rw [Document.lookup_set_of_ne (Ne.symm hname), hfield]

theorem inList (hchange : KeepsLoss change names) : KeepsLoss (changeItems change) names := by
  intro v w h
  induction h with
  | nothing => exact ⟨.nothing, rfl⟩
  | field => exact ⟨.field, rfl⟩
  | inField hfield hlost => exact ⟨.inField hfield hlost, rfl⟩
  | inList hfirst _ _ ih =>
    obtain ⟨hlost, hcount⟩ := hchange _ _ hfirst
    obtain ⟨hrest, hsum⟩ := ih hchange
    refine ⟨.inList hlost hrest, ?_⟩
    simp only [changeItems, List.map_cons, List.sum_cons, hcount] at hsum ⊢
    rw [hsum]

theorem changeAt (hpath : ¬names <+: path)
    (hchange : ∀ rest, names = path ++ rest → KeepsLoss change rest) :
    KeepsLoss (Value.changeAt change path) names := by
  -- The induction is on the path of the change. Where the removed field is below its end, the change
  -- itself has to keep the loss.
  induction path generalizing names with
  | nil => exact hchange names rfl
  | cons next path ih =>
    rw [changeAt_cons]
    refine inField (fun h => hpath (h ▸ List.prefix_append [next] path)) fun rest hnames => ?_
    subst hnames
    exact ih (fun hfront => hpath (List.cons_prefix_cons.2 ⟨rfl, hfront⟩))
      fun more h => hchange more (h ▸ rfl)

theorem changeInLevel (hpath : ¬names <+: path)
    (hchange : ∀ rest, names = path ++ rest → KeepsLoss change rest) :
    KeepsLoss (Value.changeInLevel change path) names := by
  induction path generalizing names with
  | nil => exact hchange names rfl
  | cons next path ih =>
    by_cases hframes : next = LabelTags.framesField ∧ path ≠ []
    · obtain ⟨rfl, hmore⟩ := hframes
      rw [changeInLevel_frames change hmore]
      -- Below `frames` the change is made in every frame, and a loss there is one of every frame too.
      refine inField (fun h => hpath (h ▸ List.prefix_append [_] path)) fun rest hnames => ?_
      subst hnames
      exact (ih (fun hfront => hpath (List.cons_prefix_cons.2 ⟨rfl, hfront⟩))
        fun more h => hchange more (h ▸ rfl)).inList
    · rw [changeInLevel_plain change hframes]
      exact changeAt hpath hchange

end KeepsLoss

/-! Removing. -/

theorem Loses.changeAt_dropField (name : String) (path : List String) (v : Value) :
    Loses (path ++ [name]) v (changeAt (dropField name) path v).1 := by
  induction path generalizing v with
  | nil =>
    cases v with
    | obj d => exact .field
    | _ => exact .nothing
  | cons next path ih =>
    rw [changeAt_cons]
    cases v with
    | obj d =>
      rw [changeField]
      cases hfield : d.lookup next with
      | none => exact .nothing
      | some inner => exact .inField hfield (ih inner)
    | _ => exact .nothing

theorem Loses.removeAt (path : List String) (v : Value) : Loses path v (removeAt path v) := by
  induction path generalizing v with
  | nil => exact .nothing
  | cons name path ih =>
    cases path with
    | nil => exact changeAt_dropField name [] v
    | cons next path =>
      by_cases hframes : name = LabelTags.framesField
      · cases v with
        | obj d =>
          simp only [Value.removeAt, if_pos hframes]
          split
          · next frames hfield =>
            -- The rest of the path is removed from every frame.
            refine .inField hfield (of_forall₂ (List.forall₂_map_right_iff.2 ?_))
            exact List.forall₂_same.2 fun frame _ => ih frame
          · exact .nothing
        | _ => simpa only [Value.removeAt, if_pos hframes] using .nothing
      · -- Elsewhere the last name is dropped from the document that the others lead to.
        have hlast : (name :: next :: path).dropLast ++ [(next :: path).getLastD name] =
            name :: next :: path := by
          rw [List.getLastD_eq_getLast?, List.getLast?_eq_some_getLast (List.cons_ne_nil _ _)]
          exact List.dropLast_append_getLast (List.cons_ne_nil _ _)
        have hlost := changeAt_dropField ((next :: path).getLastD name)
          (name :: next :: path).dropLast v
        rw [hlast] at hlost
        cases v <;> simpa only [Value.removeAt, if_neg hframes] using hlost

end Value

namespace Document

variable {names path : List String} {name : String} {v w : Value} {d d' : Document}

theorem loses_set (h : Loses names d d') (hne : names ≠ [name])
    (hbelow : ∀ rest, names = name :: rest → Value.Loses rest v w)
    (helse : (∀ rest, names ≠ name :: rest) → v = w) :
    Loses names (d.set name v) (d'.set name w) := by
  -- Whatever the field held before, it is the loss below it that is told.
  have hself : ∀ {rest}, names = name :: rest →
      Loses names (d.set name v) (d.set name w) := by
    rintro rest rfl
    rw [← set_set name v w]
    exact .inField (lookup_set_self _ _ _) (hbelow rest rfl)
  cases h with
  | nothing =>
    by_cases hname : ∃ rest, names = name :: rest
    · obtain ⟨rest, hrest⟩ := hname
      exact hself hrest
    · obtain rfl := helse fun rest hrest => hname ⟨rest, hrest⟩
      exact .nothing
  | @field other d =>
    have hname : other ≠ name := fun h => hne (h ▸ rfl)
    obtain rfl := helse fun rest hrest => hname (List.cons.inj hrest).1
    rw [set_without_of_ne hname]
    exact .field
  | @inField other rest d inner _ hfield hlost =>
    by_cases hname : other = name
    · subst hname
      rw [set_set]
      exact hself rfl
    · obtain rfl := helse fun rest hrest => hname (List.cons.inj hrest).1
      rw [set_set_of_ne hname hfield]
      exact .inField (by rw [lookup_set_of_ne hname, hfield]) hlost

theorem assign_cons (name : String) (hpath : path ≠ []) (v : Value) (d : Document) :
    d.assign (name :: path) v =
      d.set name (.obj ((ofValue ((d.lookup name).getD .null)).assign path v)) := by
  cases path with
  | nil => exact absurd rfl hpath
  | cons next path =>
    simp only [assign]
    cases d.lookup name with
    | none => rfl
    | some inner => cases inner <;> rfl

theorem loses_ofValue (h : Value.Loses names v w) : Loses names (ofValue v) (ofValue w) := by
  cases h with
  | nothing => exact .nothing
  | field => exact .field
  | inField hfield hlost => exact .inField hfield hlost
  | inList => exact .nothing

/-- A value is set at a path that the removed one does not begin. Two different values may be set
where the removed field is below them. -/
theorem loses_assign (h : Loses names d d') (hpath : ¬names <+: path)
    (hvalue : v = w ∨ ∃ rest, names = path ++ rest ∧ Value.Loses rest v w) :
    Loses names (d.assign path v) (d'.assign path w) := by
  induction path generalizing names d d' with
  | nil => exact h
  | cons next path ih =>
    have hne : names ≠ [next] := fun h => hpath (h ▸ List.prefix_append [next] path)
    -- Two different values are set only where the removed field is below them.
    have hsame : (∀ rest, names ≠ next :: rest) → v = w := by
      intro hother
      rcases hvalue with heq | ⟨rest, hnames, -⟩
      · exact heq
      · exact absurd hnames (hother _)
    by_cases hend : path = []
    · subst hend
      refine loses_set h hne (fun rest hrest => ?_) hsame
      rcases hvalue with rfl | ⟨more, hmore, hlost⟩
      · exact .nothing
      · obtain rfl : rest = more := (List.cons.inj (hrest.symm.trans hmore)).2
        exact hlost
    · rw [assign_cons next hend, assign_cons next hend]
      refine loses_set h hne (fun rest hrest => ?_) fun hother => ?_
      · subst hrest
        have hrest : ¬rest <+: path := fun hfront =>
          hpath (List.cons_prefix_cons.2 ⟨rfl, hfront⟩)
        have hrest_ne : rest ≠ [] := fun hnil => hrest (hnil ▸ List.nil_prefix)
        refine ih (loses_ofValue (Value.Loses.get? h hrest_ne)) hrest ?_
        rcases hvalue with heq | ⟨more, hmore, hlost⟩
        · exact .inl heq
        · exact .inr ⟨more, (List.cons.inj hmore).2, hlost⟩
      · have hlookup : d.lookup next = d'.lookup next := by
          cases names with
          | nil => exact absurd List.nil_prefix hpath
          | cons name names =>
            exact Value.Loses.get?_eq h fun heq => hother names (heq ▸ rfl)
        rw [hlookup, hsame hother]

end Document
end MediaViews
