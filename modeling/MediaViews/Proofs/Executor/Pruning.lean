import MediaViews.Proofs.Executor.Removal

/-! The pruning of labels and of their points, where a field is removed that the tests of the pruning
do not look at. -/
namespace MediaViews.Value

def IgnoresLoss (test : Value → Bool) (names : List String) : Prop :=
  ∀ v w, Loses names v w → test v = test w

variable {names : List String} {test : Value → Bool}

/-! Labels. -/

def keepItems (test : Value → Bool) (v : Value) : Value × Nat :=
  (.arr (v.items.filter test), (v.items.filter test).length)

theorem Loses.filter (htest : IgnoresLoss test names) {vs ws : List Value}
    (h : List.Forall₂ (Loses names) vs ws) :
    List.Forall₂ (Loses names) (vs.filter test) (ws.filter test) := by
  induction h with
  | nil => exact .nil
  | cons hfirst _ ih =>
    rw [List.filter_cons, List.filter_cons, htest _ _ hfirst]
    split
    · exact .cons hfirst ih
    · exact ih

theorem Loses.items {v w : Value} (h : Loses names v w) :
    List.Forall₂ (Loses names) v.items w.items := by
  cases h with
  | nothing => exact List.forall₂_same.2 fun _ _ => .nothing
  | field => exact .nil
  | inField => exact .nil
  | inList hfirst hrest => exact .cons hfirst hrest.forall₂

theorem keepsLoss_keepItems (htest : IgnoresLoss test names) : KeepsLoss (keepItems test) names := by
  intro v w h
  have hkept := Loses.filter htest h.items
  exact ⟨.of_forall₂ hkept, hkept.length_eq⟩

def labelList? (d : Document) : Option String :=
  labelLists.find? fun name => (d.lookup name).any isList

theorem pruneLabels_of_list {d : Document} {name : String} (h : labelList? d = some name) :
    pruneLabels test (.obj d) = changeField name (keepItems test) (.obj d) := by
  have hname : (d.lookup name).any isList := by simpa using List.find?_some h
  rw [labelList?] at h
  rw [pruneLabels, h, changeField]
  cases hfield : d.lookup name with
  | none =>
    rw [hfield] at hname
    cases hname
  | some v =>
    dsimp only
    rw [hfield]
    rfl

theorem pruneLabels_of_none {d : Document} (h : labelList? d = none) :
    pruneLabels test (.obj d) = if test (.obj d) then (.obj d, 1) else (.null, 0) := by
  rw [labelList?] at h
  rw [pruneLabels, h]

theorem any_isList_lookup_eq {d d' : Document} {name : String}
    (h : Loses names (.obj d) (.obj d')) (hne : names ≠ [name]) :
    (d.lookup name).any isList = (d'.lookup name).any isList := by
  cases h with
  | nothing => rfl
  | @field other =>
    have hname : name ≠ other := fun heq => hne (congrArg ([·]) heq.symm)
    rw [Document.lookup_without_of_ne hname]
  | @inField other rest d v w hfield hlost =>
    by_cases hname : name = other
    · subst hname
      rw [hfield, Document.lookup_set_self]
      exact hlost.isList_eq
    · rw [Document.lookup_set_of_ne hname]

theorem labelList?_congr {d d' : Document}
    (h : ∀ name ∈ labelLists, (d.lookup name).any isList = (d'.lookup name).any isList) :
    labelList? d = labelList? d' := by
  rw [labelList?, labelList?]
  generalize labelLists = lists at h
  induction lists with
  | nil => rfl
  | cons name lists ih =>
    rw [List.find?_cons, List.find?_cons, h name List.mem_cons_self,
      ih fun other hother => h other (List.mem_cons_of_mem name hother)]

theorem labelList?_eq {d d' : Document} (h : Loses names (.obj d) (.obj d'))
    (hlists : ∀ name ∈ labelLists, names ≠ [name]) : labelList? d = labelList? d' :=
  labelList?_congr fun name hname => any_isList_lookup_eq h (hlists name hname)

theorem keepsLoss_pruneLabels (htest : IgnoresLoss test names)
    (hlists : ∀ name ∈ labelLists, names ≠ [name])
    (helements : ∀ name ∈ labelLists, ∀ rest, names = name :: rest → IgnoresLoss test rest) :
    KeepsLoss (pruneLabels test) names := by
  -- A single label is kept as a whole or becomes null.
  have hsingle : ∀ v w, Loses names v w →
      Loses names (if test v then (v, 1) else (null, 0)).1 (if test w then (w, 1) else (null, 0)).1 ∧
        (if test v then (v, 1) else (null, 0)).2 = (if test w then (w, 1) else (null, 0)).2 := by
    intro v w h
    rw [htest v w h]
    split
    · exact ⟨h, rfl⟩
    · exact ⟨.nothing, rfl⟩
  intro v w h
  rcases h.shape with rfl | ⟨d, d', rfl, rfl⟩ | ⟨vs, ws, rfl, rfl⟩
  · exact ⟨.nothing, rfl⟩
  · have hsame := labelList?_eq h hlists
    cases hlist : labelList? d with
    | none =>
      rw [pruneLabels_of_none hlist, pruneLabels_of_none (hsame ▸ hlist)]
      exact hsingle _ _ h
    | some name =>
      have hmem : name ∈ labelLists := List.mem_of_find?_eq_some hlist
      rw [pruneLabels_of_list hlist, pruneLabels_of_list (hsame ▸ hlist)]
      exact KeepsLoss.inField (hlists name hmem)
        (fun rest hrest => keepsLoss_keepItems (helements name hmem rest hrest)) _ _ h
  · exact hsingle _ _ h

/-! Points. -/

def entryOf (count index : Nat) (v : Value) : Option Value :=
  if v.isList && v.items.length == count then some ((v.items[index]?).getD .null) else none

theorem pointOf_eq (d : Document) (count index : Nat) :
    pointOf d count index =
      d.filterMap fun field => (entryOf count index field.2).map fun v => (field.1, v) := by
  rw [pointOf]
  congr 1
  funext field
  rw [entryOf]
  split <;> rfl

theorem pointOf_without (name : String) (d : Document) (count index : Nat) :
    pointOf (d.without name) count index = (pointOf d count index).without name := by
  rw [pointOf_eq, pointOf_eq]
  induction d with
  | nil => rfl
  | cons field d ih =>
    obtain ⟨key, v⟩ := field
    rw [Document.without] at ih ⊢
    by_cases hkey : key = name
    · cases hentry : entryOf count index v <;> simp [Document.without, hkey, hentry, ih]
    · cases hentry : entryOf count index v <;> simp [Document.without, hkey, hentry, ih]

theorem loses_entryOf {v w : Value} (h : Loses names v w) (count index : Nat) :
    (entryOf count index v = none ∧ entryOf count index w = none) ∨
      ∃ x y, entryOf count index v = some x ∧ entryOf count index w = some y ∧ Loses names x y := by
  have hlength := h.items.length_eq
  rw [entryOf, entryOf, h.isList_eq, hlength]
  split
  · refine .inr ⟨_, _, rfl, rfl, ?_⟩
    have hitems := h.items
    clear hlength h
    generalize v.items = vs at hitems
    generalize w.items = ws at hitems
    induction hitems generalizing index with
    | nil => exact .nothing
    | cons hfirst _ ih =>
      cases index with
      | zero => exact hfirst
      | succ index => exact ih index
  · exact .inl ⟨rfl, rfl⟩

theorem pointOf_set_of_none {name : String} {v w : Value} {d : Document} {count index : Nat}
    (hfield : d.lookup name = some v) (hv : entryOf count index v = none)
    (hw : entryOf count index w = none) :
    pointOf (d.set name w) count index = pointOf d count index := by
  rw [pointOf_eq, pointOf_eq]
  induction d with
  | nil => cases hfield
  | cons field d ih =>
    obtain ⟨key, x⟩ := field
    rw [lookup_cons_ite] at hfield
    by_cases hkey : key = name
    · obtain rfl : x = v := by simpa [hkey] using hfield
      simp [Document.set, hkey, hv, hw]
    · have hrest := ih (by simpa [Ne.symm hkey] using hfield)
      simp only [Document.set, beq_eq_false_iff_ne.2 hkey, Bool.false_eq_true, if_false,
        List.filterMap_cons, hrest]

theorem pointOf_set_of_some {name : String} {v w x y : Value} {d : Document} {count index : Nat}
    (hfield : d.lookup name = some v) (hv : entryOf count index v = some x)
    (hw : entryOf count index w = some y) :
    (pointOf d count index).lookup name = some x ∧
      pointOf (d.set name w) count index = (pointOf d count index).set name y := by
  rw [pointOf_eq, pointOf_eq]
  induction d with
  | nil => cases hfield
  | cons field d ih =>
    obtain ⟨key, u⟩ := field
    rw [lookup_cons_ite] at hfield
    by_cases hkey : key = name
    · obtain rfl : u = v := by simpa [hkey] using hfield
      simp [Document.set, hkey, hv, hw]
    · obtain ⟨hlookup, hset⟩ := ih (by simpa [Ne.symm hkey] using hfield)
      have hne : (name == key) = false := by simpa using Ne.symm hkey
      cases hentry : entryOf count index u <;>
        simp [Document.set, hkey, hentry, hlookup, hset, List.lookup_cons, hne]

theorem loses_pointOf {d d' : Document} (h : Loses names (.obj d) (.obj d')) (count index : Nat) :
    Loses names (.obj (pointOf d count index)) (.obj (pointOf d' count index)) := by
  cases h with
  | nothing => exact .nothing
  | field =>
    rw [pointOf_without]
    exact .field
  | inField hfield hlost =>
    rcases loses_entryOf hlost count index with ⟨hv, hw⟩ | ⟨x, y, hv, hw, hentry⟩
    · rw [pointOf_set_of_none hfield hv hw]
      exact .nothing
    · obtain ⟨hlookup, hset⟩ := pointOf_set_of_some hfield hv hw
      rw [hset]
      exact .inField hlookup hentry

/-- Blanks the points of a list that are not kept. What is kept may depend on how many there are. -/
def blankPoints (keeps : Nat → Nat → Bool) (v : Value) : Value × Nat :=
  match v with
  | .arr points =>
    (.arr (points.zipIdx.map fun p => if keeps points.length p.2 then p.1 else .null),
      if (List.range points.length).any (keeps points.length) then 1 else 0)
  | _ => (v, 0)

theorem keepsLoss_blankPoints (keeps : Nat → Nat → Bool) (names : List String) :
    KeepsLoss (blankPoints keeps) names := by
  -- The number of a point moves on with the induction, the number of points does not.
  have hpoints : ∀ (start count : Nat) {vs ws : List Value}, List.Forall₂ (Loses names) vs ws →
      List.Forall₂ (Loses names)
        ((vs.zipIdx start).map fun p => if keeps count p.2 then p.1 else .null)
        ((ws.zipIdx start).map fun p => if keeps count p.2 then p.1 else .null) := by
    intro start count vs ws h
    rw [List.forall₂_map_left_iff, List.forall₂_map_right_iff]
    induction h generalizing start with
    | nil => exact .nil
    | cons hfirst _ ih =>
      refine .cons ?_ (ih (start + 1))
      dsimp only
      split
      · exact hfirst
      · exact .nothing
  intro v w h
  rcases h.shape with rfl | ⟨d, d', rfl, rfl⟩ | ⟨vs, ws, rfl, rfl⟩
  · exact ⟨.nothing, rfl⟩
  · exact ⟨h, rfl⟩
  · rw [blankPoints, blankPoints, ← h.forall₂.length_eq]
    exact ⟨.of_forall₂ (hpoints 0 _ h.forall₂), rfl⟩

theorem prunePointsOf_obj (test : Nat → Document → Bool) (d : Document) :
    prunePointsOf test (.obj d) =
      changeField "points" (blankPoints fun count index => test index (pointOf d count index))
        (.obj d) := by
  rw [prunePointsOf, changeField]
  cases hpoints : d.lookup "points" with
  | none => rfl
  | some v =>
    cases v with
    | arr points => rfl
    | _ => simp only [blankPoints, Document.set_of_lookup hpoints]

variable {points : Nat → Document → Bool}

theorem keepsLoss_prunePointsOf (hne : names ≠ ["points"])
    (htest : ∀ index d d', Loses names (.obj d) (.obj d') → points index d = points index d') :
    KeepsLoss (prunePointsOf points) names := by
  intro v w h
  rcases h.shape with rfl | ⟨d, d', rfl, rfl⟩ | ⟨vs, ws, rfl, rfl⟩
  · exact ⟨.nothing, rfl⟩
  · -- What is kept of the points depends on the label only by what its other fields hold for each.
    have hkeeps : (fun count index => points index (pointOf d count index)) =
        fun count index => points index (pointOf d' count index) := by
      funext count index
      exact htest index _ _ (loses_pointOf h count index)
    rw [prunePointsOf_obj, prunePointsOf_obj, hkeeps]
    exact KeepsLoss.inField hne (fun rest _ => keepsLoss_blankPoints _ rest) _ _ h
  · exact ⟨h, rfl⟩

theorem prunePoints_obj (d : Document) :
    prunePoints points (.obj d) =
      if (d.lookup "keypoints").any isList then
        changeField "keypoints" (changeItems (prunePointsOf points)) (.obj d)
      else prunePointsOf points (.obj d) := by
  rw [prunePoints, changeField]
  cases d.lookup "keypoints" with
  | none => rfl
  | some v => cases v <;> rfl

theorem keepsLoss_prunePoints (hlist : names ≠ ["keypoints"]) (hpoints : names ≠ ["points"])
    (htest : ∀ index d d', Loses names (.obj d) (.obj d') → points index d = points index d')
    (helements : ∀ rest, names = "keypoints" :: rest → rest ≠ ["points"] ∧
      ∀ index d d', Loses rest (.obj d) (.obj d') → points index d = points index d') :
    KeepsLoss (prunePoints points) names := by
  intro v w h
  rcases h.shape with rfl | ⟨d, d', rfl, rfl⟩ | ⟨vs, ws, rfl, rfl⟩
  · exact ⟨.nothing, rfl⟩
  · rw [prunePoints_obj, prunePoints_obj, any_isList_lookup_eq h hlist]
    -- A list of labels is pruned label by label, a single one at once.
    split
    · refine KeepsLoss.inField hlist (fun rest hrest => ?_) _ _ h
      obtain ⟨hpoints, htest⟩ := helements rest hrest
      exact (keepsLoss_prunePointsOf hpoints htest).inList
    · exact keepsLoss_prunePointsOf hpoints htest _ _ h
  · exact ⟨h, rfl⟩

end MediaViews.Value
