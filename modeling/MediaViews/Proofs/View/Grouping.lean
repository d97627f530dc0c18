import MediaViews.Proofs.Filter.SingleMatch
import MediaViews.Proofs.View.Contribution
import MediaViews.Proofs.View.Narrowing

/-! What a group filter makes of a view. Slices narrow it by one of two stages, except where the view
groups the documents of slices that it has selected itself; and with a group's identifier only the
documents of that group in these slices are left, whatever else the view selects. -/
namespace MediaViews

namespace View

variable {v : View} {filter : GroupFilter} {field : String} {slices : List String}

def RestrictsTo (field : String) (slices : List String) (stage : Stage) : Prop :=
  (∃ allowMixed forceMixed, stage = .selectGroupSlices (some slices) allowMixed forceMixed) ∨
    stage = sliceMembership field slices

theorem readable_sliceMembership (field : String) (slices : List String) :
    (Query.field (field ++ ".name") (.isIn (slices.map .str))).readable := by
  have hflat : ∀ key ∈ Query.connectives, '.' ∉ key.toList := by decide
  have hmem : field ++ ".name" ∉ Query.connectives := fun h => hflat _ h (by simp)
  simpa [Query.readable] using hmem

theorem reached_of_slice? {ex : Executor} {d : Document} {slice : String}
    (h : ex.slice? d = some slice) :
    (Value.obj d).reached (Path.components (ex.groupField ++ ".name")) = [.str slice] := by
  obtain ⟨w, hw, hstring⟩ := Option.bind_eq_some_iff.1 h
  cases w with
  | str text =>
    obtain rfl := Option.some.inj hstring
    exact Value.reached_of_at? hw rfl
  | _ => cases hstring

theorem mem_slices_of_mem_apply {ex : Executor} {stage : Stage}
    (hstage : RestrictsTo ex.groupField slices stage) {docs : List Document} {d : Document}
    (hd : d ∈ ex.apply stage docs) {slice : String} (hslice : ex.slice? d = some slice) :
    slice ∈ slices := by
  rcases hstage with ⟨allowMixed, forceMixed, rfl⟩ | rfl
  · have hin : (ex.slice? d).any slices.contains := (List.mem_filter.1 hd).2
    rw [hslice] at hin
    exact List.contains_iff_mem.1 hin
  · have hholds : ex.holds (.field (ex.groupField ++ ".name") (.isIn (slices.map .str))) d := by
      rw [← ex.satisfies_toJson (readable_sliceMembership ex.groupField slices)]
      exact (List.mem_filter.1 hd).2
    rw [Executor.holds, reached_of_slice? hslice, Executor.passes, List.any_map,
      List.any_eq_true] at hholds
    obtain ⟨name, hname, hsame⟩ := hholds
    have heq : slice = name := by
      simpa [Executor.equalsAny, Value.ofLiteral, Value.isNull, Value.same_str] using hsame
    exact heq ▸ hname

theorem not_restrictsTo_groupSelection {group : Option ObjectId} {stage : Stage}
    (h : stage ∈ groupSelection field group) : ¬RestrictsTo field slices stage := by
  obtain ⟨id, -, rfl⟩ := List.mem_map.1 h
  rintro (⟨allowMixed, forceMixed, heq⟩ | heq)
  · cases heq
  · cases heq

/-- What becomes of a view under wanted slices: it is flattened across them, or they are matched
behind a selection of the group, or, where it groups by the group, they are not looked at. -/
theorem narrow_cases {narrowed : View} {flattened : Bool} (hslices : filter.slices = some slices)
    (hfield : v.dataset.groupField = some field) (h : v.narrow filter = .ok (narrowed, flattened)) :
    (v.stages.any (·.selectsGroupSlices) = false ∧
        .selectGroupSlices (some slices) true true ∈ narrowed.stages) ∨
      (v.stages.any (·.selectsGroupSlices) ∧
        ∃ selected : View, narrowed.stages = selected.stages ++
            (if v.stages.any (·.groupsBy (groupKey field)) then [] else
              [sliceMembership field slices]) ∧
          ∀ stage, RestrictsTo field slices stage →
            (stage ∈ selected.stages ↔ stage ∈ v.stages)) := by
  rw [narrow_eq hfield] at h
  obtain ⟨group, -, h⟩ := Outcome.exists_of_map_eq_ok h
  obtain ⟨rfl, -⟩ := Prod.mk.inj h
  cases hselects : v.stages.any (·.selectsGroupSlices) with
  | false =>
    have hflat : v.isFlattenedBy filter := by simp [isFlattenedBy, hslices, hselects]
    rw [narrowed_of_flattened group hslices hflat]
    exact .inl ⟨rfl, List.mem_cons_self⟩
  | true =>
    have hflat : v.isFlattenedBy filter = false := by simp [isFlattenedBy, hselects]
    rw [narrowed_of_unflattened group hflat, memberships_of_slices hslices]
    refine .inr ⟨rfl, _, rfl, fun stage hstage => ?_⟩
    -- The selection of the group is new, but it restricts to no slices.
    have hselection : stage ∉ groupSelection field group := fun h =>
      not_restrictsTo_groupSelection h hstage
    split
    · exact List.mem_append.trans (or_iff_left hselection)
    · exact List.mem_append.trans (or_iff_right hselection)

theorem remainingTypes_of_slices (hslices : filter.slices = some slices) {slice : String}
    {type : MediaType} (hmem : slice ∈ slices) (htype : v.dataset.sliceTypes.get? slice = some type) :
    type ∈ v.remainingTypes filter := by
  rw [remainingTypes, hslices]
  change type ∈ MediaType.setOf (slices.filterMap v.dataset.sliceTypes.get?)
  rw [MediaType.setOf, List.mem_filter]
  refine ⟨by cases type <;> decide, ?_⟩
  exact List.contains_iff_mem.2 (List.mem_filterMap.2 ⟨slice, hmem, htype⟩)

theorem isEmpty_of_slices (h : filter.slices = some slices) : filter.isEmpty = false := by
  simp [GroupFilter.isEmpty, h]

/-- A group filter with slices leaves a stage that restricts the view to them exactly where the view
selects no slices, or does not group by the group, or was restricted to them before. Behind such a
stage stand documents of these slices only, whose media types are told. -/
theorem exists_restrictsTo_iff {narrowed : View} {types : Option (List MediaType)}
    (hslices : filter.slices = some slices) (hfield : v.dataset.groupField = some field)
    (h : (v.resolveGroup filter).outcome = .ok (narrowed, types)) :
    ((∃ stage ∈ narrowed.stages, RestrictsTo field slices stage) ↔
        v.stages.any (·.selectsGroupSlices) = false ∨
          v.stages.any (·.groupsBy (groupKey field)) = false ∨
          ∃ stage ∈ v.stages, RestrictsTo field slices stage) ∧
      ∀ ex : Executor, ex.groupField = field → ∀ stage, RestrictsTo field slices stage →
        ∀ docs, ∀ d ∈ ex.apply stage docs, ∀ slice, ex.slice? d = some slice →
          slice ∈ slices ∧ ∀ type, v.dataset.sliceTypes.get? slice = some type →
            ∃ told, types = some told ∧ type ∈ told := by
  rw [outcome_resolveGroup (isEmpty_of_slices hslices)] at h
  obtain ⟨⟨view, flattened⟩, hnarrow, h⟩ := Outcome.exists_of_map_eq_ok h
  obtain ⟨rfl, rfl⟩ := Prod.mk.inj h
  have hcases := narrow_cases hslices hfield hnarrow
  constructor
  · rcases hcases with ⟨hfree, hmem⟩ | ⟨hselects, selected, hstages, hkept⟩
    · exact iff_of_true ⟨_, hmem, .inl ⟨true, true, rfl⟩⟩ (.inl hfree)
    · rw [hstages, hselects]
      cases hgroups : v.stages.any (·.groupsBy (groupKey field)) with
      | false =>
        refine iff_of_true ⟨sliceMembership field slices, ?_, .inr rfl⟩ (.inr (.inl rfl))
        exact List.mem_append_right _ (List.mem_singleton_self _)
      | true =>
        -- Nothing is added, so only what the view held before can restrict it.
        rw [if_pos rfl, List.append_nil]
        simp only [Bool.true_eq_false, false_or]
        constructor
        · rintro ⟨stage, hmem, hstage⟩
          exact ⟨stage, (hkept stage hstage).1 hmem, hstage⟩
        · rintro ⟨stage, hmem, hstage⟩
          exact ⟨stage, (hkept stage hstage).2 hmem, hstage⟩
  · rintro ex rfl stage hstage docs d hd slice hslice
    have hmem := mem_slices_of_mem_apply hstage hd hslice
    refine ⟨hmem, fun type htype => ⟨_, rfl, ?_⟩⟩
    exact remainingTypes_of_slices hslices hmem htype

def leftGroups : View :=
  ⟨scenes, [.selectGroupSlices (some ["left"]) false false, .groupBy "group.id" none false], none⟩

theorem exists_restrictsTo_iff_leftGroups :
    ∃ narrowed types, (leftGroups.resolveGroup { slices := some ["left"] }).outcome =
        .ok (narrowed, types) ∧
      ((∃ stage ∈ narrowed.stages, RestrictsTo "group" ["left"] stage) ↔
        leftGroups.stages.any (·.selectsGroupSlices) = false ∨
          leftGroups.stages.any (·.groupsBy (groupKey "group")) = false ∨
          ∃ stage ∈ leftGroups.stages, RestrictsTo "group" ["left"] stage) ∧
      ∀ stage, RestrictsTo "group" ["left"] stage →
        ∀ d ∈ sceneExecutor.apply stage [member 1 "left", member 1 "cloud"],
          sceneExecutor.slice? d = some "left" →
            "left" ∈ ["left"] ∧ ∀ type, scenes.sliceTypes.get? "left" = some type →
              ∃ told, types = some told ∧ type ∈ told := by
  obtain ⟨narrowed, types, h⟩ : ∃ narrowed types,
      (leftGroups.resolveGroup { slices := some ["left"] }).outcome = .ok (narrowed, types) :=
    ⟨_, _, rfl⟩
  obtain ⟨hiff, hbehind⟩ := exists_restrictsTo_iff rfl rfl h
  exact ⟨narrowed, types, h, hiff, fun stage hstage d hd hslice =>
    hbehind sceneExecutor rfl stage hstage _ d hd "left" hslice⟩

/-- A view that selects another slice and groups what is left passes the wanted slice by: the
documents of the other slice stay, and their media type is not told. -/
theorem resolveGroup_of_selected_and_grouped :
    let clouds : View := ⟨scenes, [.selectGroupSlices (some ["cloud"]) false false,
      .groupBy "group.id" none false], none⟩
    ∃ narrowed, (clouds.resolveGroup { slices := some ["left"] }).outcome =
        .ok (narrowed, some [.image]) ∧
      (¬∃ stage ∈ narrowed.stages, RestrictsTo "group" ["left"] stage) ∧
      sceneExecutor.run narrowed.stages [member 1 "cloud"] = [member 1 "cloud"] ∧
      sceneExecutor.slice? (member 1 "cloud") = some "cloud" ∧
      scenes.sliceTypes.get? "cloud" = some .pointCloud := by
  refine ⟨_, rfl, ?_, ?_, by decide +kernel, by decide +kernel⟩
  · rintro ⟨stage, hmem, hstage⟩
    rcases List.mem_pair.1 hmem with rfl | rfl
    · rcases hstage with ⟨allowMixed, forceMixed, heq⟩ | heq
      · simp at heq
      · cases heq
    · rcases hstage with ⟨allowMixed, forceMixed, heq⟩ | heq
      · cases heq
      · cases heq
  · have hin : sceneExecutor.inSlices (some ["cloud"]) (member 1 "cloud") := by decide +kernel
    exact List.filter_cons_of_pos hin

end View

namespace Executor

variable (ex : Executor)

def inGroup (group : ObjectId) (d : Document) : Bool :=
  (d.hexesAt (ex.groupField ++ "._id")).contains group.toHex

theorem inGroup_iff {group other : ObjectId} {d : Document}
    (h : (Value.obj d).at? (Path.components (ex.groupField ++ "._id")) = some (.objectId other)) :
    ex.inGroup group d ↔ group = other := by
  rw [inGroup, Document.hexesAt, Value.reached_of_at? h rfl]
  change [other.toHex].contains group.toHex ↔ _
  rw [List.contains_iff_mem, List.mem_singleton]
  exact ⟨fun h => ObjectId.toHex_injective h, fun h => congrArg _ h⟩

end Executor

namespace View

variable {v : View} {filter : GroupFilter} {slices : List String}

/-- The stages that pin a group: those that order or select documents are void beside it. -/
def pinned (v : View) (field : String) (slices : List String) (group : ObjectId) : List Stage :=
  .selectGroupSlices (some slices) true true ::
    .selectBy (field ++ "._id") ([group].map ObjectId.toExtendedJson) false ::
    v.stages.filter fun stage => !stage.reordersOrSelects

theorem narrow_of_group {field id : String} {group : ObjectId}
    (hfield : v.dataset.groupField = some field) (hid : filter.id = some id)
    (hgroup : ObjectId.parse id = .ok group) (hslices : filter.slices = some slices)
    (hfree : ∀ stage ∈ v.stages, stage.selectsGroupSlices = false) :
    v.narrow filter = .ok (⟨v.dataset, v.pinned field slices group, filter.slice.or v.slice⟩, true) := by
  have hflat : v.isFlattenedBy filter := by simpa [isFlattenedBy, hslices] using hfree
  have hparsed : filter.id.mapM ObjectId.parse = .ok (some group) := by
    rw [hid, Option.mapM_some, hgroup]
    rfl
  rw [narrow_eq hfield, hparsed, hflat]
  change Except.ok (v.narrowed filter field (some group), true) = _
  rw [narrowed_of_flattened _ hslices hflat, hid]
  rfl

theorem any_hexesAt (ex : Executor) (group : ObjectId) (d : Document) :
    (d.hexesAt (ex.groupField ++ "._id")).any ([group].map ObjectId.toHex).contains =
      ex.inGroup group d := by
  rw [Executor.inGroup, List.contains_eq_any_beq]
  refine congrArg _ (funext fun hex => ?_)
  rw [List.map_singleton, List.contains_eq_any_beq, List.any_cons, List.any_nil, Bool.or_false,
    Bool.beq_comm]

/-- A group's identifier beside slices pins the result: whatever the view selects and however it
orders, exactly the documents of the group in one of the slices are left, in their order, each as the
other stages of the view make it. -/
theorem run_resolveGroup_eq_map {ex : Executor} {id : String} {group : ObjectId}
    (hfield : v.dataset.groupField = some ex.groupField) (hid : filter.id = some id)
    (hgroup : ObjectId.parse id = .ok group) (hslices : filter.slices = some slices)
    (hfree : ∀ stage ∈ v.stages, stage.selectsGroupSlices = false) :
    ∃ narrowed types, (v.resolveGroup filter).outcome = .ok (narrowed, types) ∧
      ∀ docs, ex.run narrowed.stages docs =
        (docs.filter fun d => ex.inGroup group d && ex.inSlices (some slices) d).map
          (ex.reshapeAll (v.stages.filter fun stage => !stage.reordersOrSelects)) := by
  have hnarrow := narrow_of_group hfield hid hgroup hslices hfree
  refine ⟨_, _, by rw [outcome_resolveGroup (isEmpty_of_slices hslices), hnarrow]; rfl,
    fun docs => ?_⟩
  have hplace : ∀ stage ∈ v.stages.filter (fun stage => !stage.reordersOrSelects),
      stage.reordersOrSelects = false := fun stage hstage => by
    simpa using (List.mem_filter.1 hstage).2
  have hkept : ∀ stage ∈ v.stages.filter (fun stage => !stage.reordersOrSelects),
      stage.selectsGroupSlices = false := fun stage hstage =>
    hfree stage (List.mem_of_mem_filter hstage)
  rw [pinned, Executor.run_cons, Executor.run_cons, apply_selectBy,
    ex.run_eq_map_reshapeAll hplace hkept, Executor.apply, List.filter_filter]
  simp only [any_hexesAt]

def fewScenes : View :=
  ⟨scenes, [.limit 1, .shuffle none, .filterLabels "gt" .null true, .excludeFields ["notes"]], none⟩

theorem run_resolveGroup_eq_map_fewScenes :
    ∃ narrowed types,
      (fewScenes.resolveGroup
          { id := some (sceneId 2).toHex, slices := some ["left", "cloud"] }).outcome =
        .ok (narrowed, types) ∧
      let docs := [member 1 "left", member 2 "left", member 2 "right", member 2 "cloud"]
      sceneExecutor.run narrowed.stages docs =
        (docs.filter fun d => sceneExecutor.inGroup (sceneId 2) d &&
            sceneExecutor.inSlices (some ["left", "cloud"]) d).map
          (sceneExecutor.reshapeAll
            (fewScenes.stages.filter fun stage => !stage.reordersOrSelects)) := by
  have hfield : fewScenes.dataset.groupField = some sceneExecutor.groupField := rfl
  have hfree : ∀ stage ∈ fewScenes.stages, stage.selectsGroupSlices = false := by decide
  let filter : GroupFilter :=
    { id := some (sceneId 2).toHex, slices := some ["left", "cloud"] }
  have hid : filter.id = some (sceneId 2).toHex := rfl
  have hslices : filter.slices = some ["left", "cloud"] := rfl
  obtain ⟨narrowed, types, houtcome, hrun⟩ :=
    run_resolveGroup_eq_map hfield hid (ObjectId.parse_toHex (sceneId 2)) hslices hfree
  exact ⟨narrowed, types, houtcome, hrun _⟩

end View
end MediaViews
