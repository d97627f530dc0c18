import MediaViews.Proofs.Executor.Labels
import MediaViews.Proofs.Executor.Reshaping
import MediaViews.Proofs.Filter.Targets

/-! Filters on the coordinates of keypoint labels. Such a filter speaks of the points by name and what
runs its stage tells them by position; an including filter and its opposite divide the positions of
the skeleton between them. -/
namespace MediaViews

namespace Value

def keypointsOf (v : Value) : List Value :=
  if (v.get? "keypoints").any isList then ((v.get? "keypoints").getD .null).items else [v]

def pointsOf (label : Value) : List Value := ((label.get? "points").getD .null).items

variable {points : Nat → Document → Bool}

theorem get?_prunePointsOf_of_ne {name : String} (hname : name ≠ "points") (v : Value) :
    (prunePointsOf points v).1.get? name = v.get? name := by
  cases v with
  | obj d =>
    rw [prunePointsOf_obj]
    exact get?_changeField_of_ne hname _ _
  | _ => rfl

theorem keypointsOf_prunePoints (v : Value) :
    keypointsOf (prunePoints points v).1 =
      (keypointsOf v).map fun label => (prunePointsOf points label).1 := by
  cases v with
  | obj d =>
    have hother : "keypoints" ≠ "points" := by decide
    rw [prunePoints_obj, keypointsOf, keypointsOf, get?]
    split
    · next hany =>
      rw [get?_changeField_self, get?]
      cases hlabels : d.lookup "keypoints" with
      | none =>
        rw [hlabels] at hany
        cases hany
      | some labels =>
        have hisList : (changeItems (prunePointsOf points) labels).1.isList = labels.isList := by
          cases labels <;> rfl
        rw [hlabels, Option.any_some] at hany
        rw [Option.map_some, Option.any_some, hisList, if_pos hany, Option.getD_some,
          Option.getD_some, items_changeItems]
    · next hany =>
      rw [get?_prunePointsOf_of_ne hother, get?, if_neg hany]
      rfl
  | _ => rfl

theorem getElem?_pointsOf_prunePointsOf (keeps : Nat → Bool) (label : Value) (i : Nat) :
    (pointsOf (prunePointsOf (fun i _ => keeps i) label).1)[i]? =
      (pointsOf label)[i]?.map fun point => if keeps i then point else .null := by
  cases label with
  | obj d =>
    rw [prunePointsOf_obj, pointsOf, get?_changeField_self, pointsOf, get?]
    cases d.lookup "points" with
    | none => rfl
    | some coordinates =>
      rw [Option.map_some, Option.getD_some, Option.getD_some]
      cases coordinates with
      | arr coordinates =>
        rw [blankPoints, items, items, List.getElem?_map, List.getElem?_zipIdx, Option.map_map]
        simp only [Function.comp_def, Nat.zero_add]
      | _ => rfl
  | _ => rfl

end Value

def Document.pointsUnder (field : String) (d : Document) : List (List Value) :=
  (((Value.obj d).at? (Path.components field)).toList.flatMap Value.keypointsOf).map Value.pointsOf

namespace Executor

variable {ex : Executor} {field : String} {names : List String} {i : Nat}

def isNamed (ex : Executor) (field : String) (names : List String) (i : Nat) : Bool :=
  (ex.skeleton field)[i]?.any names.contains

def RetainsPoint (ex : Executor) (stage : Stage) (field : String) (i : Nat) : Prop :=
  ∀ d : Document, ((ex.reshape stage d).pointsUnder field).map (·[i]?) =
    (d.pointsUnder field).map (·[i]?)

def BlanksPoint (ex : Executor) (stage : Stage) (field : String) (i : Nat) : Prop :=
  ∀ d : Document, ((ex.reshape stage d).pointsUnder field).map (·[i]?) =
    (d.pointsUnder field).map fun points => points[i]?.map fun _ => .null

theorem filterKeypoints_named (ex : Executor) (field : String) (names : List String) (d : Document) :
    Value.obj (ex.filterKeypoints field none (some names) d).1 =
      (Value.changeAt (Value.prunePoints fun i _ => ex.isNamed field names i)
        (Path.components field) (.obj d)).1 := by
  have htest : (fun (i : Nat) (_ : Document) => ex.isNamed field names i && true) =
      fun i _ => ex.isNamed field names i := by
    funext i point
    exact Bool.and_true _
  rw [← htest, ← Document.obj_changeAt (Path.components_ne_nil field) d]
  rfl

theorem map_pointsUnder_keepPointsNamed (ex : Executor) (field : String) (names : List String)
    (d : Document) (i : Nat) :
    ((ex.reshape (.keepPointsNamed field names) d).pointsUnder field).map (·[i]?) =
      (d.pointsUnder field).map fun points =>
        points[i]?.map fun point => if ex.isNamed field names i then point else .null := by
  rw [Stage.keepPointsNamed, reshape, Document.pointsUnder, filterKeypoints_named,
    Value.at?_changeAt_self, Document.pointsUnder]
  cases (Value.obj d).at? (Path.components field) with
  | none => rfl
  | some v =>
    simp only [Option.map_some, Option.toList_some, List.flatMap_singleton,
      Value.keypointsOf_prunePoints, List.map_map]
    exact List.map_congr_left fun label _ =>
      Value.getElem?_pointsOf_prunePointsOf (ex.isNamed field names) label i

theorem retainsPoint_keepPointsNamed (h : ex.isNamed field names i) :
    ex.RetainsPoint (.keepPointsNamed field names) field i := by
  intro d
  rw [map_pointsUnder_keepPointsNamed, h]
  simp

theorem blanksPoint_keepPointsNamed (h : ex.isNamed field names i = false) :
    ex.BlanksPoint (.keepPointsNamed field names) field i := by
  intro d
  rw [map_pointsUnder_keepPointsNamed, h]
  rfl

end Executor

namespace Filter

def Requests (f : Filter) (text : String) : Prop := some text ∈ f.values.getD []

instance (f : Filter) (text : String) : Decidable (f.Requests text) :=
  inferInstanceAs (Decidable (some text ∈ f.values.getD []))

theorem contains_presentValues (f : Filter) (text : String) :
    f.presentValues.contains text = decide (f.Requests text) := by
  rw [Bool.eq_iff_iff, List.contains_iff_mem, decide_eq_true_iff, presentValues, Requests,
    List.mem_filterMap]
  simp

theorem complement_presentValues (s : Skeleton) (f : Filter) :
    s.complement f.presentValues = s.labels.filter fun label => ¬f.Requests label := by
  refine List.filter_congr fun label _ => ?_
  rw [contains_presentValues, decide_not]

theorem complement_complement (s : Skeleton) (f : Filter) :
    s.complement (s.complement f.presentValues) =
      s.labels.filter fun label => f.Requests label := by
  refine List.filter_congr fun label hlabel => ?_
  rw [complement_presentValues, Bool.eq_iff_iff, Bool.not_eq_true', ← Bool.not_eq_true,
    List.contains_iff_mem, List.mem_filter]
  simp [hlabel]

/-- What a filter on the coordinates and its opposite make of the points of a skeleton. -/
structure DividesPoints (labelPath : String) (field : Field) (f : Filter) (skeletons : Skeletons)
    (s : Skeleton) : Prop where
  including : keypointStage labelPath field { f with exclude := false } skeletons =
    .ok (.keepPointsNamed labelPath f.presentValues)
  excluding : keypointStage labelPath field { f with exclude := true } skeletons =
    .ok (.keepPointsNamed labelPath (s.labels.filter fun label => ¬f.Requests label))
  twice : s.complement (s.complement f.presentValues) = s.labels.filter fun label => f.Requests label
  requested : ∀ (ex : Executor) (i : Nat) (label : String), ex.skeleton labelPath = s.labels →
    s.labels[i]? = some label → f.Requests label →
      ex.RetainsPoint (.keepPointsNamed labelPath f.presentValues) labelPath i ∧
      ex.BlanksPoint (.keepPointsNamed labelPath (s.labels.filter fun label => ¬f.Requests label))
        labelPath i
  others : ∀ (ex : Executor) (i : Nat) (label : String), ex.skeleton labelPath = s.labels →
    s.labels[i]? = some label → ¬f.Requests label →
      ex.BlanksPoint (.keepPointsNamed labelPath f.presentValues) labelPath i ∧
      ex.RetainsPoint (.keepPointsNamed labelPath (s.labels.filter fun label => ¬f.Requests label))
        labelPath i

variable {ex : Executor} {labelPath : String} {field : Field} {f : Filter} {skeletons : Skeletons}
  {s : Skeleton} {i : Nat} {label : String}

theorem isNamed_presentValues (hex : ex.skeleton labelPath = s.labels)
    (hi : s.labels[i]? = some label) :
    ex.isNamed labelPath f.presentValues i = decide (f.Requests label) := by
  rw [Executor.isNamed, hex, hi, Option.any_some, contains_presentValues]

theorem isNamed_others (hex : ex.skeleton labelPath = s.labels) (hi : s.labels[i]? = some label) :
    ex.isNamed labelPath (s.labels.filter fun label => ¬f.Requests label) i =
      !decide (f.Requests label) := by
  -- A label of the skeleton may stand at several positions, which are all treated alike.
  have hmem : label ∈ s.labels := List.mem_of_getElem? hi
  rw [Executor.isNamed, hex, hi, Option.any_some, Bool.eq_iff_iff, List.contains_iff_mem,
    List.mem_filter]
  simp [hmem]

theorem dividesPoints_of_get? (hname : field.name = pointsAttribute)
    (h : skeletons.get? labelPath = some s) : DividesPoints labelPath field f skeletons s where
  including := by
    rw [keypointStage, if_pos hname, h]
    rfl
  excluding := by
    rw [keypointStage, if_pos hname, h, ← complement_presentValues]
    rfl
  twice := complement_complement s f
  requested ex i label hex hi hrequests := by
    constructor
    · apply Executor.retainsPoint_keepPointsNamed
      rw [isNamed_presentValues hex hi, decide_eq_true hrequests]
    · apply Executor.blanksPoint_keepPointsNamed
      rw [isNamed_others hex hi, decide_eq_true hrequests]
      rfl
  others ex i label hex hi hrequests := by
    constructor
    · apply Executor.blanksPoint_keepPointsNamed
      rw [isNamed_presentValues hex hi, decide_eq_false hrequests]
    · apply Executor.retainsPoint_keepPointsNamed
      rw [isNamed_others hex hi, decide_eq_false hrequests]
      rfl

/-- An including filter on the coordinates and its opposite divide the points of the skeleton that is
registered for the field, or else of the one for all fields, and are refused if there is neither. -/
theorem keypointStage_divides_points (labelPath : String) (hname : field.name = pointsAttribute)
    (f : Filter) (skeletons : Skeletons) :
    (∀ own, skeletons.byField.get? labelPath = some own →
      DividesPoints labelPath field f skeletons own) ∧
    (skeletons.byField.get? labelPath = none → ∀ s, skeletons.fallback = some s →
      DividesPoints labelPath field f skeletons s) ∧
    ∀ e, keypointStage labelPath field f skeletons = .error e ↔
      skeletons.byField.get? labelPath = none ∧ skeletons.fallback = none ∧
        e = .missingSkeleton labelPath := by
  refine ⟨fun own hown => ?_, fun hnone s hs => ?_, fun e => ?_⟩
  · apply dividesPoints_of_get? hname
    rw [Skeletons.get?, hown, Option.some_or]
  · apply dividesPoints_of_get? hname
    rw [Skeletons.get?, hnone, Option.none_or, hs]
  · rw [keypointStage, if_pos hname, Skeletons.get?]
    cases skeletons.byField.get? labelPath with
    | some own =>
      constructor
      · intro herror
        cases herror
      · intro hnone
        cases hnone.1
    | none =>
      cases skeletons.fallback with
      | some s =>
        constructor
        · intro herror
          cases herror
        · intro hnone
          cases hnone.2.1
      | none => exact ⟨fun h => ⟨rfl, rfl, (Except.error.inj h).symm⟩, fun h => h.2.2 ▸ rfl⟩

def faceSkeleton : Skeleton := ⟨["nose", "eye", "mouth", "eye"], []⟩

def faceRegistry : Skeletons := ⟨∅, some faceSkeleton⟩

def eyesOrTail : Filter := { values := some [some "eye", none, some "tail"] }

theorem keypointStage_divides_points_eyes :
    keypointStage "pose" (.ofPath "pose.keypoints.points" (.list (.list .float)))
        eyesOrTail.excluding faceRegistry = .ok (.keepPointsNamed "pose" ["nose", "mouth"]) ∧
      faceSkeleton.complement (faceSkeleton.complement eyesOrTail.presentValues) = ["eye", "eye"] ∧
      ∀ ex : Executor, ex.skeleton "pose" = faceSkeleton.labels →
        ex.RetainsPoint (.keepPointsNamed "pose" ["eye", "tail"]) "pose" 3 ∧
        ex.BlanksPoint (.keepPointsNamed "pose" ["nose", "mouth"]) "pose" 3 := by
  have hname : (Field.ofPath "pose.keypoints.points" (.list (.list .float))).name =
      pointsAttribute := by decide +kernel
  obtain ⟨-, hfallback, -⟩ := keypointStage_divides_points "pose" hname eyesOrTail faceRegistry
  have hdivides := hfallback rfl faceSkeleton rfl
  exact ⟨hdivides.excluding, hdivides.twice, fun ex hex =>
    hdivides.requested ex 3 "eye" hex rfl (by decide)⟩

end Filter
end MediaViews
