import MediaViews.Proofs.Executor.Rendering
import MediaViews.Proofs.Executor.Reshaping
import MediaViews.Proofs.Outcome
import MediaViews.View.Select

/-! What a selection keeps, and that it may be made first where no stage reorders or selects. -/
namespace MediaViews

namespace Value

def hex? : Value → Option String
  | objectId id => some id.toHex
  | _ => none

theorem same_objectId (v : Value) (id : ObjectId) :
    v.same (.objectId id) = v.hex?.any (· == id.toHex) := by
  cases v with
  | objectId other =>
    rw [Bool.eq_iff_iff, same, beq_iff_eq, hex?, Option.any_some, beq_iff_eq]
    exact Std.LawfulEqOrd.compare_eq_iff_eq (α := String)
  | _ => rfl

theorem ofJson_toExtendedJson (id : ObjectId) : ofJson id.toExtendedJson = .objectId id := by
  rw [ObjectId.toExtendedJson, ofJson, ofMarked?_objectId]
  rfl

end Value

namespace Document

def hexesAt (path : String) (d : Document) : List String :=
  ((Value.obj d).reached (Path.components path)).filterMap Value.hex?

end Document

namespace View

def hexes (v : View) (groups : Bool) (d : Document) : List String :=
  if groups then (v.dataset.groupField.map fun field => d.hexesAt (field ++ "._id")).getD []
  else d.id?.toList

variable {v : View} {ids : List String} {groups : Bool}

theorem groupField_eq_ok_iff {field : String} :
    v.groupField = .ok field ↔ v.dataset.groupField = some field := by
  rw [groupField]
  cases v.dataset.groupField <;> simp

theorem selection_of_parsed {parsed : List ObjectId} (hparsed : ObjectId.parseAll ids = .ok parsed) :
    v.selection ids false = .ok (.select (parsed.map ObjectId.toHex) false) := by
  rw [selection, if_neg (by decide), Stage.selectIds, hparsed]
  rfl

theorem selection_of_group {parsed : List ObjectId} {field : String}
    (hfield : v.dataset.groupField = some field) (hparsed : ObjectId.parseAll ids = .ok parsed) :
    v.selection ids true =
      .ok (.selectBy (field ++ "._id") (parsed.map ObjectId.toExtendedJson) false) := by
  rw [selection, if_pos rfl, groupField_eq_ok_iff.2 hfield]
  dsimp only [bind, Except.bind]
  rw [Stage.selectByIds, hparsed]
  rfl

theorem mem_select {narrowed : View} (h : v.select ids groups = .ok narrowed) :
    ∃ selection, v.selection ids groups = .ok selection ∧
      ∀ stage, stage ∈ narrowed.stages ↔ stage = selection ∨ stage ∈ v.stages := by
  obtain ⟨selection, hselection, h⟩ := Outcome.exists_of_bind_eq_ok h
  obtain rfl := Except.ok.inj h
  refine ⟨selection, hselection, fun stage => ?_⟩
  split
  · rw [append, List.mem_append, List.mem_singleton, or_comm]
  · exact List.mem_cons

theorem apply_select (ex : Executor) (parsed : List ObjectId) (docs : List Document) :
    ex.apply (.select (parsed.map ObjectId.toHex) false) docs =
      docs.filter fun d => d.id?.toList.any (parsed.map ObjectId.toHex).contains := by
  refine List.filter_congr fun d _ => ?_
  cases d.id? with
  | none => rfl
  | some hex => exact (Bool.or_false _).symm

theorem any_same_ofJson (parsed : List ObjectId) (v : Value) :
    ((parsed.map ObjectId.toExtendedJson).any fun j => v.same (.ofJson j)) =
      v.hex?.any (parsed.map ObjectId.toHex).contains := by
  rw [List.any_map]
  simp only [Function.comp_def, Value.ofJson_toExtendedJson, Value.same_objectId]
  cases v.hex? with
  | none => exact List.any_eq_false.2 fun _ _ => Bool.false_ne_true
  | some hex =>
    rw [Option.any_some, List.contains_eq_any_beq, List.any_map]
    rfl

theorem apply_selectBy (ex : Executor) (field : String) (parsed : List ObjectId)
    (docs : List Document) :
    ex.apply (.selectBy field (parsed.map ObjectId.toExtendedJson) false) docs =
      docs.filter fun d => (d.hexesAt field).any (parsed.map ObjectId.toHex).contains := by
  refine List.filter_congr fun d _ => ?_
  rw [Document.hexesAt, List.any_filterMap]
  exact congrArg _ (funext fun v => any_same_ofJson parsed v)

theorem exists_selection (ex : Executor) (hids : ∀ id ∈ ids, ∃ parsed, ObjectId.parse id = .ok parsed)
    (hgroups : groups → v.dataset.groupField.isSome) :
    ∃ selection parsed, v.selection ids groups = .ok selection ∧
      ObjectId.parseAll ids = .ok parsed ∧
      ∀ docs, ex.apply selection docs =
        docs.filter fun d => (v.hexes groups d).any (parsed.map ObjectId.toHex).contains := by
  obtain ⟨parsed, hparsed⟩ := ObjectId.exists_parseAll hids
  cases groups with
  | false => exact ⟨_, parsed, selection_of_parsed hparsed, hparsed, apply_select ex parsed⟩
  | true =>
    obtain ⟨field, hfield⟩ := Option.isSome_iff_exists.1 (hgroups rfl)
    refine ⟨_, parsed, selection_of_group hfield hparsed, hparsed, fun docs => ?_⟩
    rw [apply_selectBy]
    simp [hexes, hfield]

/-- Let no stage of a view change the identifiers that a selection looks for. Then to select where
it is cheapest gives the documents that the view's own stages followed by the selection give. -/
theorem run_select_eq_act_selection {ex : Executor} (engine : Engine ex)
    (hids : ∀ id ∈ ids, ∃ parsed, ObjectId.parse id = .ok parsed)
    (hgroups : groups → v.dataset.groupField.isSome) :
    ∃ selection narrowed, v.selection ids groups = .ok selection ∧
      v.select ids groups = .ok narrowed ∧
      ∀ docs, engine.act selection = ex.apply selection →
        engine.Keeps (v.hexes groups) v.stages docs →
        engine.run narrowed.stages docs = engine.act selection (engine.run v.stages docs) := by
  obtain ⟨selection, parsed, hselection, -, happly⟩ := exists_selection ex hids hgroups
  rw [select, hselection]
  refine ⟨selection, _, rfl, rfl, fun docs hact hkeeps => ?_⟩
  -- The selection is moved to the front only where every stage of the view keeps places.
  by_cases hmoved : v.stages.any (·.reordersOrSelects)
  · rw [if_pos hmoved]
    exact engine.run_append v.stages [selection] docs
  · have hplace : ∀ stage ∈ v.stages, stage.reordersOrSelects = false := by
      simpa using hmoved
    rw [if_neg hmoved]
    calc engine.run (selection :: v.stages) docs
        = engine.run v.stages (engine.act selection docs) := rfl
      _ = engine.act selection (engine.run v.stages docs) := by
        rw [hact, happly, happly]
        exact engine.run_filter hplace (·.any (parsed.map ObjectId.toHex).contains) hkeeps

def scenes : Dataset :=
  (Dataset.plain "scenes" .group .empty).grouped "group"
    (.ofList [("left", .image), ("cloud", .pointCloud)]) (some "left")

def sceneExecutor : Executor where
  search _ _ _ := false
  skeleton _ := []
  groupField := "group"
  rearrange _ docs := docs

def sceneId (n : UInt8) : ObjectId := ⟨.replicate 12 n, rfl⟩

def member (scene : UInt8) (slice : String) : Document :=
  [("group", .obj [("_id", .objectId (sceneId scene)), ("name", .str slice)]),
    ("notes", .obj [])]

def leftScenes : View :=
  ⟨scenes, [.excludeFields ["notes"], .selectGroupSlices (some ["left"]) false false], none⟩

theorem run_select_eq_act_selection_leftScenes :
    ∃ selection narrowed, leftScenes.selection [(sceneId 1).toHex] true = .ok selection ∧
      leftScenes.select [(sceneId 1).toHex] true = .ok narrowed ∧
      let engine := Engine.ofExecutor sceneExecutor
      let docs := [member 1 "left", member 2 "left", member 1 "cloud"]
      engine.run narrowed.stages docs =
        engine.act selection (engine.run leftScenes.stages docs) := by
  have hids : ∀ id ∈ [(sceneId 1).toHex], ∃ parsed, ObjectId.parse id = .ok parsed := by
    intro id hid
    rw [List.mem_singleton.1 hid]
    exact ⟨sceneId 1, ObjectId.parse_toHex _⟩
  have hgroups : true → leftScenes.dataset.groupField.isSome := fun _ => rfl
  obtain ⟨selection, narrowed, hselection, hnarrowed, hrun⟩ :=
    run_select_eq_act_selection (Engine.ofExecutor sceneExecutor) hids hgroups
  refine ⟨selection, narrowed, hselection, hnarrowed, hrun _ rfl ⟨?_, ?_, trivial⟩⟩
  · decide +kernel
  · decide +kernel

end View
end MediaViews
