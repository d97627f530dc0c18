import MediaViews.Proofs.Executor.Sites
import MediaViews.Proofs.Path

/-! The labels below the values of a label field, and what the pruning of labels and of their points
makes of them. -/
namespace MediaViews

theorem Document.without_set_self (name : String) (v : Value) (d : Document) :
    (d.set name v).without name = d.without name := by
  induction d with
  | nil => simp [set, without]
  | cons field d ih =>
    obtain ⟨key, w⟩ := field
    rw [without] at ih ⊢
    by_cases hkey : key = name
    · simp [set, without, hkey]
    · simp [set, without, hkey, ih]

namespace Value

variable {test : Value → Bool} {points : Nat → Document → Bool}

def labelsOf (v : Value) : List Value :=
  match v with
  | .null => []
  | .obj d =>
    match labelList? d with
    | some name => ((d.lookup name).getD .null).items
    | none => [.obj d]
  | v => [v]

theorem labelsOf_of_list {d : Document} {name : String} (h : labelList? d = some name) :
    labelsOf (.obj d) = ((d.lookup name).getD .null).items := by
  rw [labelsOf, h]

theorem labelsOf_of_none {d : Document} (h : labelList? d = none) : labelsOf (.obj d) = [.obj d] := by
  rw [labelsOf, h]

theorem mem_labelLists_of_labelList? {d : Document} {name : String} (h : labelList? d = some name) :
    name ∈ labelLists := List.mem_of_find?_eq_some h

theorem exists_list_of_labelList? {d : Document} {name : String} (h : labelList? d = some name) :
    ∃ items, d.lookup name = some (.arr items) := by
  have hany : (d.lookup name).any isList := by simpa using List.find?_some h
  cases hfield : d.lookup name with
  | none =>
    rw [hfield] at hany
    cases hany
  | some v =>
    rw [hfield] at hany
    cases v with
    | arr items => exact ⟨items, rfl⟩
    | _ => cases hany

theorem labelList?_set {d : Document} {name : String} {v w : Value} (hfield : d.lookup name = some v)
    (hlist : w.isList = v.isList) : labelList? (d.set name w) = labelList? d := by
  refine labelList?_congr fun other _ => ?_
  by_cases hname : other = name
  · subst hname
    rw [Document.lookup_set_self, hfield, Option.any_some, Option.any_some, hlist]
  · rw [Document.lookup_set_of_ne hname]

theorem labelList?_kept {d : Document} {name : String} {items : List Value}
    (hlist : labelList? d = some name) (hitems : d.lookup name = some (.arr items))
    (kept : List Value) : labelList? (d.set name (.arr kept)) = some name := by
  have hisList : (Value.arr kept).isList = (Value.arr items).isList := rfl
  exact (labelList?_set hitems hisList).trans hlist

theorem pruneLabels_cases (test : Value → Bool) (v : Value) :
    (∃ (d : Document) (name : String) (items : List Value), v = .obj d ∧
      labelList? d = some name ∧ d.lookup name = some (.arr items) ∧
      pruneLabels test v =
        (.obj (d.set name (.arr (items.filter test))), (items.filter test).length)) ∨
    (v.isNull ∧ pruneLabels test v = (v, 0)) ∨
    (v.isNull = false ∧ labelsOf v = [v] ∧
      (∀ name ∈ labelLists, (v.get? name).any isList = false) ∧
      pruneLabels test v = if test v then (v, 1) else (.null, 0)) := by
  cases v with
  | null => exact .inr (.inl ⟨rfl, rfl⟩)
  | obj d =>
    cases hlist : labelList? d with
    | some name =>
      obtain ⟨items, hitems⟩ := exists_list_of_labelList? hlist
      refine .inl ⟨d, name, items, rfl, hlist, hitems, ?_⟩
      rw [pruneLabels_of_list hlist, changeField, hitems]
      rfl
    | none =>
      have hnone : ∀ name ∈ labelLists, (d.lookup name).any isList = false := fun name hname =>
        Bool.eq_false_of_not_eq_true (List.find?_eq_none.1 hlist name hname)
      exact .inr (.inr ⟨rfl, labelsOf_of_none hlist, hnone, pruneLabels_of_none hlist⟩)
  | _ => exact .inr (.inr ⟨rfl, rfl, fun _ _ => rfl, rfl⟩)

theorem labelsOf_pruneLabels (test : Value → Bool) (v : Value) :
    labelsOf (pruneLabels test v).1 = (labelsOf v).filter test ∧
      (pruneLabels test v).2 = ((labelsOf v).filter test).length := by
  rcases pruneLabels_cases test v with ⟨d, name, items, rfl, hlist, hitems, hpruned⟩ |
    ⟨hnull, hpruned⟩ | ⟨-, hlabels, -, hpruned⟩
  · have hkept := labelList?_kept hlist hitems (items.filter test)
    rw [hpruned, labelsOf_of_list hkept, labelsOf_of_list hlist, Document.lookup_set_self, hitems]
    exact ⟨rfl, rfl⟩
  · obtain rfl := eq_null_of_isNull hnull
    rw [hpruned]
    exact ⟨rfl, rfl⟩
  · rw [hpruned, hlabels]
    by_cases htest : test v
    · simp [htest, hlabels]
    · simp [htest, labelsOf]

theorem pruneLabels_idem (test : Value → Bool) (v : Value) :
    (pruneLabels test (pruneLabels test v).1).1 = (pruneLabels test v).1 := by
  rcases pruneLabels_cases test v with ⟨d, name, items, rfl, hlist, hitems, hpruned⟩ |
    ⟨-, hpruned⟩ | ⟨-, -, -, hpruned⟩
  · have hkept := labelList?_kept hlist hitems (items.filter test)
    have hagain : (items.filter test).filter test = items.filter test := by
      rw [List.filter_filter]
      exact List.filter_congr fun item _ => Bool.and_self _
    rw [hpruned, pruneLabels_of_list hkept, changeField, Document.lookup_set_self]
    simp only [keepItems, Value.items, Document.set_set, hagain]
  · rw [hpruned, hpruned]
  · by_cases htest : test v
    · rw [hpruned, if_pos htest, hpruned, if_pos htest]
    · rw [hpruned, if_neg htest]
      rfl

theorem shrinks_pruneLabels (test : Value → Bool) : Shrinks (pruneLabels test) where
  missing := by
    intro path v hpath hmissing
    obtain ⟨next, path, rfl⟩ := List.exists_cons_of_ne_nil hpath
    rcases pruneLabels_cases test v with ⟨d, name, items, rfl, -, hitems, hpruned⟩ |
      ⟨-, hpruned⟩ | ⟨-, -, -, hpruned⟩
    · rw [hpruned]
      rw [at?, get?] at hmissing ⊢
      by_cases hname : next = name
      · subst hname
        rw [hitems] at hmissing
        rw [Document.lookup_set_self, Option.bind_some]
        cases path with
        | nil => cases hmissing
        | cons name path => rfl
      · rw [Document.lookup_set_of_ne hname, hmissing]
    · rw [hpruned, hmissing]
    · rw [hpruned]
      split
      · exact hmissing
      · rfl
  items := by
    intro v
    rcases pruneLabels_cases test v with ⟨d, name, items, rfl, -, -, hpruned⟩ |
      ⟨-, hpruned⟩ | ⟨-, -, -, hpruned⟩
    · rw [hpruned]
      exact .inl rfl
    · rw [hpruned]
      exact .inl rfl
    · rw [hpruned]
      split
      · exact .inl rfl
      · exact .inr rfl

/-! Points. -/

theorem test_prunePointsOf (h : IgnoresLoss test ["points"]) (points : Nat → Document → Bool)
    (v : Value) : test (prunePointsOf points v).1 = test v := by
  cases v with
  | obj d =>
    rw [prunePointsOf_obj, changeField]
    cases hpoints : d.lookup "points" with
    | none => rfl
    | some w =>
      dsimp only
      generalize (blankPoints (fun count index => points index (pointOf d count index)) w).1 = pruned
      have hloses (d : Document) : Loses ["points"] (.obj d) (.obj (d.without "points")) := .field
      rw [h _ _ (hloses (Document.set "points" pruned d)), h _ _ (hloses d),
        Document.without_set_self]
  | _ => rfl

theorem labelsOf_prunePointsOf (v : Value) :
    labelsOf (prunePointsOf points v).1 = labelsOf v ∨
      labelsOf (prunePointsOf points v).1 =
        (labelsOf v).map fun label => (prunePointsOf points label).1 := by
  cases v with
  | obj d =>
    rw [prunePointsOf_obj, changeField]
    cases hpoints : d.lookup "points" with
    | none => exact .inl rfl
    | some w =>
      have hisList (keeps : Nat → Nat → Bool) : (blankPoints keeps w).1.isList = w.isList := by
        cases w <;> rfl
      have hsame := labelList?_set hpoints
        (hisList fun count index => points index (pointOf d count index))
      cases hlist : labelList? d with
      | none =>
        right
        rw [labelsOf_of_none hlist, labelsOf_of_none (hsame.trans hlist), List.map_singleton,
          prunePointsOf_obj, changeField, hpoints]
      | some name =>
        have hname : name ≠ "points" := fun heq =>
          absurd (heq ▸ mem_labelLists_of_labelList? hlist) (by decide)
        left
        rw [labelsOf_of_list hlist, labelsOf_of_list (hsame.trans hlist),
          Document.lookup_set_of_ne hname]
  | _ => exact .inl rfl

theorem labelsOf_prunePoints (v : Value) :
    labelsOf (prunePoints points v).1 = labelsOf v ∨
      labelsOf (prunePoints points v).1 =
        (labelsOf v).map fun label => (prunePointsOf points label).1 := by
  cases v with
  | obj d =>
    rw [prunePoints_obj]
    split
    · next hany =>
      rw [changeField]
      cases hkeypoints : d.lookup "keypoints" with
      | none => exact .inl rfl
      | some w =>
        have hisList : (changeItems (prunePointsOf points) w).1.isList = w.isList := by
          cases w <;> rfl
        have hsame := labelList?_set hkeypoints hisList
        cases hlist : labelList? d with
        | none =>
          have hmem : "keypoints" ∈ labelLists := by decide
          have hnone := List.find?_eq_none.1 hlist "keypoints" hmem
          exact absurd hany hnone
        | some name =>
          rw [labelsOf_of_list hlist, labelsOf_of_list (hsame.trans hlist)]
          by_cases hname : name = "keypoints"
          · subst hname
            right
            rw [Document.lookup_set_self, hkeypoints, Option.getD_some, Option.getD_some,
              items_changeItems]
          · left
            rw [Document.lookup_set_of_ne hname]
    · exact labelsOf_prunePointsOf (.obj d)
  | _ => exact .inl rfl

end Value

namespace Document

open Value

def labelsUnder (path : String) (d : Document) : List Value :=
  (sites (Path.components path) (.obj d)).flatMap labelsOf

variable {change : Value → Value × Nat} {path : List String}

theorem obj_changeField (name : String) (d : Document) :
    Value.obj (ofValue (changeField name change (.obj d)).1) =
      (changeField name change (.obj d)).1 := by
  rw [changeField]
  cases d.lookup name <;> rfl

theorem obj_changeAt (h : path ≠ []) (d : Document) :
    Value.obj (ofValue (changeAt change path (.obj d)).1) = (changeAt change path (.obj d)).1 := by
  obtain ⟨name, path, rfl⟩ := List.exists_cons_of_ne_nil h
  rw [changeAt_cons]
  exact obj_changeField name d

theorem obj_changeInLevel (h : path ≠ []) (d : Document) :
    Value.obj (ofValue (changeInLevel change path (.obj d)).1) =
      (changeInLevel change path (.obj d)).1 := by
  obtain ⟨name, path, rfl⟩ := List.exists_cons_of_ne_nil h
  by_cases hframes : name = LabelTags.framesField ∧ path ≠ []
  · obtain ⟨rfl, hmore⟩ := hframes
    rw [changeInLevel_frames change hmore]
    exact obj_changeField _ d
  · rw [changeInLevel_plain change hframes]
    exact obj_changeAt (List.cons_ne_nil _ _) d

end Document

namespace Executor

open Value

variable {ex : Executor} {predicate : Json} {test : Value → Bool} {field : String} {d : Document}

theorem sites_filterLabels (htest : ex.admits predicate d = test) :
    sites (Path.components field) (.obj (ex.filterLabels field predicate d).1) =
      (sites (Path.components field) (.obj d)).map fun v => (pruneLabels test v).1 := by
  have hobj := @Document.obj_changeInLevel (pruneLabels test) _ (Path.components_ne_nil field) d
  rw [filterLabels, pruned, htest, hobj, sites_changeInLevel_self]

theorem sites_filterLabels_of_apart {path : List String} (h : Apart (Path.components field) path) :
    sites path (.obj (ex.filterLabels field predicate d).1) = sites path (.obj d) := by
  have hobj := @Document.obj_changeInLevel (pruneLabels (ex.admits predicate d)) _
    (Path.components_ne_nil field) d
  rw [filterLabels, pruned, hobj, sites_changeInLevel_of_apart h]

theorem sites_filterLabels_eq_nil {path : List String} (htest : ex.admits predicate d = test)
    (field : String) (h : sites path (.obj d) = []) :
    sites path (.obj (ex.filterLabels field predicate d).1) = [] := by
  have hne := Path.components_ne_nil field
  have hobj := @Document.obj_changeInLevel (pruneLabels test) _ hne d
  rw [filterLabels, pruned, htest, hobj]
  exact (shrinks_pruneLabels test).sites_changeInLevel hne h

theorem filterLabels_eq_self (h : sites (Path.components field) (.obj d) = []) :
    (ex.filterLabels field predicate d).1 = d := by
  rw [filterLabels, pruned, changeInLevel_of_sites_eq_nil h]
  rfl

theorem labelsUnder_filterLabels (htest : ex.admits predicate d = test) :
    (ex.filterLabels field predicate d).1.labelsUnder field = (d.labelsUnder field).filter test ∧
      (ex.filterLabels field predicate d).2 = ((d.labelsUnder field).filter test).length := by
  constructor
  · rw [Document.labelsUnder, Document.labelsUnder, sites_filterLabels htest, List.flatMap_map,
      List.filter_flatMap]
    exact List.flatMap_congr fun v _ => (labelsOf_pruneLabels test v).1
  · rw [filterLabels, pruned, htest, count_changeInLevel, Document.labelsUnder, List.filter_flatMap,
      List.length_flatMap]
    exact congrArg _ (List.map_congr_left fun v _ => (labelsOf_pruneLabels test v).2)

theorem labelsUnder_filterLabels_of_apart {path : String}
    (h : Apart (Path.components field) (Path.components path)) :
    (ex.filterLabels field predicate d).1.labelsUnder path = d.labelsUnder path := by
  rw [Document.labelsUnder, Document.labelsUnder, sites_filterLabels_of_apart h]

theorem map_labelsUnder_filterKeypoints {told : Value → Bool}
    (htold : ∀ points v, told (prunePointsOf points v).1 = told v) (predicate : Option Json)
    (labels : Option (List String)) :
    ((ex.filterKeypoints field predicate labels d).1.labelsUnder field).map told =
      (d.labelsUnder field).map told := by
  rw [filterKeypoints]
  dsimp only
  generalize (fun (index : Nat) (point : Document) =>
    labels.all (fun names => ((ex.skeleton field)[index]?).any names.contains) &&
      predicate.all fun p => ex.admits p d (.obj point)) = points
  have hobj := @Document.obj_changeAt (prunePoints points) _ (Path.components_ne_nil field) d
  have hsite : ∀ v, (labelsOf (prunePoints points v).1).map told = (labelsOf v).map told := by
    intro v
    rcases labelsOf_prunePoints v with hsame | hpruned
    · rw [hsame]
    · rw [hpruned, List.map_map]
      exact List.map_congr_left fun label _ => htold points label
  rw [Document.labelsUnder, Document.labelsUnder, hobj, List.map_flatMap, List.map_flatMap]
  rcases @sites_changeAt_self (prunePoints points) (Path.components field) (.obj d) with
    hall | hnone
  · rw [hall, List.flatMap_map]
    exact List.flatMap_congr fun v _ => hsite v
  · rw [hnone]

theorem labelsUnder_filterKeypoints_of_apart {path : String}
    (h : Apart (Path.components field) (Path.components path)) (predicate : Option Json)
    (labels : Option (List String)) :
    (ex.filterKeypoints field predicate labels d).1.labelsUnder path = d.labelsUnder path := by
  rw [filterKeypoints]
  dsimp only
  rw [Document.labelsUnder, Document.labelsUnder,
    Document.obj_changeAt (Path.components_ne_nil field), sites_changeAt_of_apart h]

end Executor
end MediaViews
