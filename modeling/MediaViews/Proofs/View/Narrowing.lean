import MediaViews.Proofs.View.Selection
import MediaViews.View.Group

/-! What a group filter does to the stages of a view. It keeps them in their order and adds its own
around and between them; only where it flattens the view and selects a group as well does it leave out
the stages that reorder or select. -/
namespace MediaViews

/-- Stages that are added to those of a view: around them, and directly before each of them. -/
structure AddedStages where
  front : List Stage
  before : List Stage
  beforeEach : Stage → List Stage
  after : List Stage
  back : List Stage

def AddedStages.around (added : AddedStages) (stages : List Stage) : List Stage :=
  added.front ++ added.before ++ stages.flatMap (fun stage => added.beforeEach stage ++ [stage]) ++
    added.after ++ added.back

theorem ObjectId.exists_mapM_parse_eq_error_iff {id : Option String} :
    (∃ e, id.mapM parse = .error e) ↔ ∃ text ∈ id, ¬IsHexText text := by
  cases id with
  | none => exact iff_of_false nofun nofun
  | some text =>
    simp only [Option.mem_some_iff, exists_eq_left', ← exists_parse_iff, Option.mapM_some]
    cases parse text with
    | error e => exact iff_of_true ⟨e, rfl⟩ nofun
    | ok group => exact iff_of_false nofun fun h => h ⟨group, rfl⟩

theorem Stage.selectByIds_singleton (path id : String) :
    Stage.selectByIds path [id] = (ObjectId.parse id).map fun group =>
      .selectBy path [group.toExtendedJson] false := by
  rw [Stage.selectByIds, ObjectId.parseAll, List.mapM_cons]
  cases ObjectId.parse id <;> rfl

theorem GroupFilter.isEmpty_eq_false_iff {filter : GroupFilter} :
    filter.isEmpty = false ↔ filter ≠ {} := by
  obtain ⟨id, slice, slices⟩ := filter
  cases id <;> cases slice <;> cases slices <;> simp [isEmpty]

namespace View

variable {v : View} {filter : GroupFilter} {field : String}

def isFlattenedBy (v : View) (filter : GroupFilter) : Bool :=
  filter.slices.isSome && !v.stages.any (·.selectsGroupSlices)

def kept (v : View) (filter : GroupFilter) : List Stage :=
  if v.isFlattenedBy filter && filter.id.isSome then
    v.stages.filter fun stage => !stage.reordersOrSelects
  else v.stages

/-- The selection of a group goes before the view's stages where it cannot change what they do, and
where the view is flattened. -/
def selectsGroupFirst (v : View) (filter : GroupFilter) : Bool :=
  v.isFlattenedBy filter || !v.stages.any (·.reordersOrSelects)

def groupSelection (field : String) (group : Option ObjectId) : List Stage :=
  group.toList.map fun id => .selectBy (field ++ "._id") [id.toExtendedJson] false

def memberships (field : String) (filter : GroupFilter) : List Stage :=
  filter.slices.toList.map (sliceMembership field)

def addedBy (v : View) (filter : GroupFilter) (field : String) (group : Option ObjectId) :
    AddedStages where
  front := if v.isFlattenedBy filter then [.selectGroupSlices filter.slices true true] else []
  before := if v.selectsGroupFirst filter then groupSelection field group else []
  beforeEach stage :=
    if v.isFlattenedBy filter && filter.id.isNone && stage.groupsBy (groupKey field) then
      memberships field filter
    else []
  after := if v.selectsGroupFirst filter then [] else groupSelection field group
  back :=
    if v.isFlattenedBy filter || v.stages.any (·.groupsBy (groupKey field)) then []
    else memberships field filter

def activated (v : View) (filter : GroupFilter) : View := { v with slice := filter.slice.or v.slice }

def narrowed (v : View) (filter : GroupFilter) (field : String) (group : Option ObjectId) : View :=
  { v.activated filter with stages := (v.addedBy filter field group).around (v.kept filter) }

section Narrowed

variable {slices : List String} (group : Option ObjectId)

theorem memberships_of_slices (hslices : filter.slices = some slices) :
    memberships field filter = [sliceMembership field slices] := by
  rw [memberships, hslices]
  rfl

theorem replayed_eq (hslices : filter.slices = some slices) (hflat : v.isFlattenedBy filter) :
    v.replayed field slices filter.id = (v.kept filter).flatMap fun stage =>
      (v.addedBy filter field group).beforeEach stage ++ [stage] := by
  cases hid : filter.id with
  | some id => simp [replayed, kept, addedBy, hflat, hid]
  | none =>
    rw [replayed, kept, hflat, hid]
    refine List.flatMap_congr fun stage _ => ?_
    simp only [addedBy, hflat, hid, memberships_of_slices hslices, Option.isNone_none,
      Bool.and_self, Bool.true_and]
    split <;> rfl

theorem narrowed_of_flattened (hslices : filter.slices = some slices)
    (hflat : v.isFlattenedBy filter) :
    v.narrowed filter field group = { v.activated filter with
      stages := .selectGroupSlices (some slices) true true ::
        (groupSelection field group ++ v.replayed field slices filter.id) } := by
  rw [narrowed, AddedStages.around, ← replayed_eq group hslices hflat]
  simp [addedBy, selectsGroupFirst, hflat, hslices]

theorem narrowed_of_unflattened (hflat : v.isFlattenedBy filter = false) :
    v.narrowed filter field group =
      (if v.stages.any (·.reordersOrSelects) then
          (v.activated filter).append (groupSelection field group)
        else (v.activated filter).prepend (groupSelection field group)).append
      (if v.stages.any (·.groupsBy (groupKey field)) then [] else memberships field filter) := by
  have hkept : (v.kept filter).flatMap (fun stage =>
      (v.addedBy filter field group).beforeEach stage ++ [stage]) = v.stages := by
    simp [kept, addedBy, hflat]
  rw [narrowed, AddedStages.around, hkept]
  by_cases hreorders : v.stages.any (·.reordersOrSelects)
  · rw [if_pos hreorders]
    simp only [addedBy, selectsGroupFirst, hflat, hreorders]
    rfl
  · rw [if_neg hreorders]
    simp only [addedBy, selectsGroupFirst, hflat, hreorders]
    simp [append, prepend, activated]

end Narrowed

theorem flatten_eq (slices : List String) (id : Option String) :
    v.flatten field slices id = ((id.mapM ObjectId.parse).mapError .ofObjectId).map fun group =>
      { v with stages := .selectGroupSlices (some slices) true true ::
        (groupSelection field group ++ v.replayed field slices id) } := by
  cases id with
  | none => rfl
  | some id =>
    rw [flatten, Stage.selectByIds_singleton, Option.mapM_some]
    cases ObjectId.parse id <;> rfl

def selectGroup (v : View) : Option String → Except ViewError View
  | some id => v.select [id] true
  | none => .ok v

theorem selectGroup_eq (hfield : v.dataset.groupField = some field) (id : Option String) :
    v.selectGroup id = ((id.mapM ObjectId.parse).mapError .ofObjectId).map fun group =>
      if v.stages.any (·.reordersOrSelects) then v.append (groupSelection field group)
      else v.prepend (groupSelection field group) := by
  have hgroupField := groupField_eq_ok_iff.2 hfield
  cases id with
  | none =>
    have hnothing : v.append [] = v := by rw [append, List.append_nil]
    change Except.ok v = .ok (if _ then v.append [] else v)
    rw [hnothing, ite_self]
  | some id =>
    rw [selectGroup, select, selection, if_pos rfl, hgroupField]
    dsimp only [bind, Except.bind]
    rw [Stage.selectByIds_singleton, Option.mapM_some]
    cases ObjectId.parse id <;> rfl

theorem narrow_of_unflattened (hfield : v.dataset.groupField = some field)
    (hflat : v.isFlattenedBy filter = false) :
    v.narrow filter = ((v.activated filter).selectGroup filter.id).map fun selected =>
      (selected.append (if v.stages.any (·.groupsBy (groupKey field)) then [] else
        memberships field filter), false) := by
  have hgroupField := groupField_eq_ok_iff.2 hfield
  rw [narrow, hgroupField]
  dsimp only [bind, Except.bind]
  cases hslices : filter.slices with
  | none =>
    -- Nothing is matched where no slices are wanted, so the selection is all there is to do.
    have hnone : memberships field filter = [] := by
      rw [memberships, hslices]
      rfl
    simp only [hnone, ite_self, append, List.append_nil]
    cases hid : filter.id with
    | none => rfl
    | some id =>
      dsimp only [selectGroup, activated]
      cases View.select _ [id] true <;> rfl
  | some slices =>
    have hselects : v.stages.any (·.selectsGroupSlices) := by
      simpa [isFlattenedBy, hslices] using hflat
    rw [hselects, memberships_of_slices hslices]
    cases hid : filter.id with
    | none => rfl
    | some id =>
      dsimp only [selectGroup, activated]
      cases View.select _ [id] true <;> rfl

theorem narrow_eq (hfield : v.dataset.groupField = some field) :
    v.narrow filter = ((filter.id.mapM ObjectId.parse).mapError .ofObjectId).map fun group =>
      (v.narrowed filter field group, v.isFlattenedBy filter) := by
  cases hflat : v.isFlattenedBy filter with
  | true =>
    have hgroupField := groupField_eq_ok_iff.2 hfield
    obtain ⟨⟨slices, hslices⟩, hselects⟩ : (∃ slices, filter.slices = some slices) ∧
        v.stages.any (·.selectsGroupSlices) = false := by
      simpa [isFlattenedBy, Option.isSome_iff_exists] using hflat
    simp only [narrowed_of_flattened _ hslices hflat]
    rw [narrow, hgroupField]
    dsimp only [bind, Except.bind]
    rw [hslices, hselects]
    dsimp only
    rw [flatten_eq]
    cases filter.id.mapM ObjectId.parse <;> rfl
  | false =>
    have hactive : (v.activated filter).dataset.groupField = some field := hfield
    simp only [narrowed_of_unflattened _ hflat]
    rw [narrow_of_unflattened hfield hflat, selectGroup_eq hactive]
    cases filter.id.mapM ObjectId.parse <;> rfl

theorem mem_stages_narrowed {group : Option ObjectId} {stage : Stage}
    (h : stage ∈ (v.narrowed filter field group).stages) :
    stage ∈ v.stages ∨ stage = .selectGroupSlices filter.slices true true ∨
      stage ∈ groupSelection field group ∨ stage ∈ memberships field filter := by
  have hkept {old : Stage} (hold : old ∈ v.kept filter) : old ∈ v.stages := by
    rw [kept] at hold
    split at hold
    · exact List.mem_of_mem_filter hold
    · exact hold
  simp only [narrowed, AddedStages.around, addedBy, List.mem_append, List.mem_flatMap,
    List.mem_singleton, List.mem_ite_nil_left, List.mem_ite_nil_right] at h
  obtain (((⟨-, hfront⟩ | ⟨-, hbefore⟩) | ⟨old, hold, ⟨-, heach⟩ | rfl⟩) | ⟨-, hafter⟩) | ⟨-, hback⟩ := h
  · exact .inr (.inl hfront)
  · exact .inr (.inr (.inl hbefore))
  · exact .inr (.inr (.inr heach))
  · exact .inl (hkept hold)
  · exact .inr (.inr (.inl hafter))
  · exact .inr (.inr (.inr hback))

theorem narrow_of_no_groupField (h : v.dataset.groupField = none) :
    v.narrow filter = .error (.notGrouped v.dataset.name) := by
  rw [narrow, groupField, h]
  rfl

theorem outcome_resolveGroup (h : filter.isEmpty = false) :
    (v.resolveGroup filter).outcome =
      (v.narrow filter).map fun narrowed => (narrowed.1, some (v.remainingTypes filter)) := by
  rw [resolveGroup, h, if_neg Bool.false_ne_true]
  cases v.narrow filter <;> rfl

theorem outcome_of_groupField (hfilter : filter.isEmpty = false)
    (hfield : v.dataset.groupField = some field) :
    (v.resolveGroup filter).outcome =
      ((filter.id.mapM ObjectId.parse).mapError .ofObjectId).map fun group =>
        (v.narrowed filter field group, some (v.remainingTypes filter)) := by
  rw [outcome_resolveGroup hfilter, narrow_eq hfield]
  cases filter.id.mapM ObjectId.parse <;> rfl

/-- A group filter keeps the stages of a view, in their order and between what it adds to them. Where
it flattens the view and selects a group, it keeps those that neither reorder nor select. -/
theorem resolveGroup_keeps_stages (v : View) (filter : GroupFilter) :
    (filter = {} → (v.resolveGroup filter).outcome = .ok (v, none)) ∧
    (filter ≠ {} →
      (∀ name, (v.resolveGroup filter).outcome = .error (.notGrouped name) ↔
        v.dataset.groupField = none ∧ name = v.dataset.name) ∧
      ∀ field, v.dataset.groupField = some field →
        ((∃ e, (v.resolveGroup filter).outcome = .error e) ↔
          ∃ id ∈ filter.id, ¬ObjectId.IsHexText id) ∧
        ∀ narrowed types, (v.resolveGroup filter).outcome = .ok (narrowed, types) →
          ∃ group, filter.id.mapM ObjectId.parse = .ok group ∧
            narrowed.dataset = v.dataset ∧ narrowed.slice = filter.slice.or v.slice ∧
            narrowed.stages = (v.addedBy filter field group).around (v.kept filter)) := by
  constructor
  · rintro rfl
    rfl
  · intro h
    have hfilter := GroupFilter.isEmpty_eq_false_iff.2 h
    refine ⟨fun name => ?_, fun field hfield => ⟨?_, fun narrowed types houtcome => ?_⟩⟩
    · cases hfield : v.dataset.groupField with
      | none =>
        rw [outcome_resolveGroup hfilter, narrow_of_no_groupField hfield]
        simp [Except.map, eq_comm]
      | some field =>
        rw [outcome_of_groupField hfilter hfield]
        cases filter.id.mapM ObjectId.parse <;> simp [Except.map, Except.mapError, ViewError.ofObjectId]
    · rw [outcome_of_groupField hfilter hfield, ← ObjectId.exists_mapM_parse_eq_error_iff]
      cases filter.id.mapM ObjectId.parse with
      | error e => exact iff_of_true ⟨_, rfl⟩ ⟨e, rfl⟩
      | ok group => exact iff_of_false nofun nofun
    · rw [outcome_of_groupField hfilter hfield] at houtcome
      obtain ⟨group, hgroup, heq⟩ := Outcome.exists_of_map_eq_ok houtcome
      obtain ⟨rfl, -⟩ := Prod.mk.inj heq
      exact ⟨group, Outcome.exists_of_mapError_eq_ok hgroup, rfl, rfl, rfl⟩

def fewGroups : View :=
  ⟨scenes, [.limit 5, .groupBy "group.id" none false, .excludeFields ["notes"]], none⟩

theorem resolveGroup_keeps_stages_fewGroups :
    (∃ narrowed types, (fewGroups.resolveGroup { slices := some ["left"] }).outcome =
        .ok (narrowed, types) ∧
      narrowed.stages = [.selectGroupSlices (some ["left"]) true true, .limit 5,
        sliceMembership "group" ["left"], .groupBy "group.id" none false,
        .excludeFields ["notes"]]) ∧
    ∃ e, (fewGroups.resolveGroup { id := some "left", slices := some ["left"] }).outcome =
      .error e := by
  constructor
  · obtain ⟨narrowed, types, h⟩ : ∃ narrowed types,
        (fewGroups.resolveGroup { slices := some ["left"] }).outcome = .ok (narrowed, types) :=
      ⟨_, _, rfl⟩
    obtain ⟨-, hgrouped⟩ := (resolveGroup_keeps_stages fewGroups _).2
      (by decide : ({ slices := some ["left"] } : GroupFilter) ≠ {})
    obtain ⟨group, hgroup, -, -, hstages⟩ := (hgrouped "group" rfl).2 narrowed types h
    obtain rfl : none = group := Except.ok.inj hgroup
    exact ⟨narrowed, types, h, hstages⟩
  · obtain ⟨-, hgrouped⟩ := (resolveGroup_keeps_stages fewGroups _).2
      (by decide : ({ id := some "left", slices := some ["left"] } : GroupFilter) ≠ {})
    exact (hgrouped "group" rfl).1.2 ⟨"left", rfl, fun hhex => absurd hhex.1 (by decide)⟩

end View
end MediaViews
