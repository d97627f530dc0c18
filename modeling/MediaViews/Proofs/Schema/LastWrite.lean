import MediaViews.Proofs.Path
import MediaViews.Proofs.Schema.Catalog
import MediaViews.Schema.Step

/-! What steps make of a catalog. At each path stands what the last step that writes it wrote last
there; a label field is written together with the list of its elements and with the attributes of the
elements or of the label. -/
namespace MediaViews

namespace LabelKind

def elementsPath (kind : LabelKind) (path : String) : String :=
  match kind.listAttribute? with
  | some listName => path ++ "." ++ listName
  | none => path

def attributes (kind : LabelKind) (declared : List (String × FieldKind)) :
    List (String × FieldKind) :=
  [("id", .objectId), ("tags", .list .string)] ++
    FieldKind.builtinAttributes (kind.elementKind?.getD kind) ++ declared

theorem listAttribute_spec {kind : LabelKind} {listName : String}
    (h : kind.listAttribute? = some listName) : '.' ∉ listName.toList ∧ listName ≠ "id" := by
  have hall : ∀ kind ∈ LabelKind.all, ∀ name ∈ kind.listAttribute?,
      '.' ∉ name.toList ∧ name ≠ "id" := by decide
  exact hall kind (by cases kind <;> decide) listName h

theorem elements_cases (kind : LabelKind) :
    (kind.elements? = none ∧ kind.elementKind? = none ∧ ∀ path, kind.elementsPath path = path) ∨
      ∃ listName element, '.' ∉ listName.toList ∧ kind.elements? = some (listName, element) ∧
        kind.elementKind? = some element ∧ ∀ path, kind.elementsPath path = path ++ "." ++ listName := by
  cases helements : kind.elements? with
  | none =>
    have hlist : kind.listAttribute? = none := by rw [listAttribute?, helements, Option.map_none]
    refine .inl ⟨rfl, by rw [elementKind?, helements, Option.map_none], fun path => ?_⟩
    rw [elementsPath, hlist]
  | some elements =>
    obtain ⟨listName, element⟩ := elements
    have hlist : kind.listAttribute? = some listName := by
      rw [listAttribute?, helements, Option.map_some]
    refine .inr ⟨listName, element, (listAttribute_spec hlist).1, rfl,
      by rw [elementKind?, helements, Option.map_some], fun path => ?_⟩
    rw [elementsPath, hlist]

end LabelKind

namespace SchemaStep

structure Write where
  path : String
  kind : FieldKind
  storageName : Option String := none

/-- The field that a write leaves. Without a given name it is stored under the last component of its
path, but `id` under `_id`. -/
def Write.field (w : Write) : Field where
  path := w.path
  kind := w.kind
  storageName := w.storageName.getD (if Path.name w.path = "id" then "_id" else Path.name w.path)

theorem Write.field_eq_ofPath {w : Write} (h : w.storageName = none) :
    w.field = .ofPath w.path w.kind := by
  rw [field, h]
  rfl

def elementsWrites (path : String) (kind : LabelKind) : List Write :=
  kind.elementKind?.toList.map fun element => ⟨kind.elementsPath path, .list (.label element), none⟩

def attributeWrites (path : String) (kind : LabelKind) (declared : List (String × FieldKind)) :
    List Write :=
  (kind.attributes declared).map fun a => ⟨kind.elementsPath path ++ "." ++ a.1, a.2, none⟩

def writes : SchemaStep → List Write
  | field path kind => [⟨path, kind, none⟩]
  | storedField path kind storageName => [⟨path, kind, some storageName⟩]
  | label path kind declared =>
    ⟨path, .label kind, none⟩ :: (elementsWrites path kind ++ attributeWrites path kind declared)

theorem storageName_of_mem_writes {step : SchemaStep} {w : Write} (h : w ∈ step.writes) :
    w.storageName = none ∨
      ∃ name, step = .storedField w.path w.kind name ∧ w.storageName = some name := by
  cases step with
  | field path kind =>
    obtain rfl := List.mem_singleton.1 h
    exact .inl rfl
  | storedField path kind name =>
    obtain rfl := List.mem_singleton.1 h
    exact .inr ⟨name, rfl, rfl⟩
  | label path kind declared =>
    simp only [writes, elementsWrites, attributeWrites, List.mem_cons, List.mem_append,
      List.mem_map] at h
    obtain rfl | ⟨element, -, rfl⟩ | ⟨a, -, rfl⟩ := h
    · exact .inl rfl
    · exact .inl rfl
    · exact .inl rfl

theorem labelExpansion_eq_writes (path : String) (kind : LabelKind)
    (declared : List (String × FieldKind)) :
    Catalog.labelExpansion path kind declared = (label path kind declared).writes.map Write.field := by
  have hfield : ∀ path kind, Field.ofPath path kind = Write.field ⟨path, kind, none⟩ := fun _ _ => rfl
  have hattributes : kind.attributes declared =
      Catalog.attributesOf (kind.elementKind?.getD kind) declared := rfl
  obtain ⟨helements, helement, hpath⟩ | ⟨listName, element, -, helements, helement, hpath⟩ :=
    kind.elements_cases
  · simp only [Catalog.labelExpansion, helements, hfield, Path.child, writes, elementsWrites,
      attributeWrites, hattributes, helement, hpath, Option.toList_none, Option.getD_none,
      List.map_nil, List.nil_append, List.map_cons, List.map_map, Function.comp_def]
  · simp only [Catalog.labelExpansion, helements, hfield, Path.child, writes, elementsWrites,
      attributeWrites, hattributes, helement, hpath, Option.toList_some, Option.getD_some,
      List.map_nil, List.cons_append, List.nil_append, List.map_cons, List.map_map,
      Function.comp_def]

theorem apply_eq_insertAll (c : Catalog) (step : SchemaStep) :
    c.apply step = c.insertAll (step.writes.map Write.field) := by
  cases step with
  | field path kind => rfl
  | storedField path kind storageName => rfl
  | label path kind declared =>
    rw [← labelExpansion_eq_writes]
    rfl

def IsLastIn (writes : List Write) (path : String) (w : Write) : Prop :=
  ∃ before after, writes = before ++ w :: after ∧ w.path = path ∧ ∀ later ∈ after, later.path ≠ path

def IsLastWrite (steps : List SchemaStep) (path : String) (w : Write) : Prop :=
  ∃ before step after, steps = before ++ step :: after ∧ IsLastIn step.writes path w ∧
    ∀ later ∈ after, ∀ v ∈ later.writes, v.path ≠ path

def lastWrite? (path : String) (step : SchemaStep) : Option Write :=
  step.writes.reverse.find? fun w => w.path == path

theorem lastWrite?_eq_some_iff {path : String} {step : SchemaStep} {w : Write} :
    step.lastWrite? path = some w ↔ IsLastIn step.writes path w := by
  rw [lastWrite?, List.find?_eq_some_iff_append, IsLastIn]
  constructor
  · rintro ⟨hpath, after, before, hwrites, hafter⟩
    refine ⟨before.reverse, after.reverse, ?_, by simpa using hpath, fun later hlater => ?_⟩
    · rw [← List.reverse_reverse step.writes, hwrites]
      simp
    · simpa using hafter later (List.mem_reverse.1 hlater)
  · rintro ⟨before, after, hwrites, hpath, hafter⟩
    refine ⟨by simpa using hpath, after.reverse, before.reverse, ?_, fun later hlater => ?_⟩
    · rw [hwrites]
      simp
    · simpa using hafter later (List.mem_reverse.1 hlater)

theorem lastWrite?_eq_none_iff {path : String} {step : SchemaStep} :
    step.lastWrite? path = none ↔ ∀ w ∈ step.writes, w.path ≠ path := by
  simp [lastWrite?]

theorem get?_apply (c : Catalog) (step : SchemaStep) (path : String) :
    (c.apply step).get? path = ((step.lastWrite? path).map Write.field).or (c.get? path) := by
  rw [apply_eq_insertAll, Catalog.get?_insertAll, ← List.map_reverse, List.find?_map]
  rfl

theorem get?_foldl_apply (c : Catalog) (steps : List SchemaStep) (path : String) :
    (steps.foldl Catalog.apply c).get? path =
      ((steps.reverse.findSome? (lastWrite? path)).map Write.field).or (c.get? path) := by
  -- For any catalog to begin with, since the first step changes the one that the others start from.
  induction steps generalizing c with
  | nil => rfl
  | cons step steps ih =>
    rw [List.foldl_cons, ih, get?_apply, List.reverse_cons, List.findSome?_append, ← Option.or_assoc,
      ← Option.map_or]
    simp

theorem get?_ofSteps (steps : List SchemaStep) (path : String) :
    (Catalog.ofSteps steps).get? path =
      (steps.reverse.findSome? (lastWrite? path)).map Write.field := by
  rw [Catalog.ofSteps, get?_foldl_apply]
  exact Option.or_none

theorem findSome?_eq_some_iff_isLastWrite {steps : List SchemaStep} {path : String} {w : Write} :
    steps.reverse.findSome? (lastWrite? path) = some w ↔ IsLastWrite steps path w := by
  rw [List.findSome?_eq_some_iff, IsLastWrite]
  constructor
  · rintro ⟨after, step, before, hsteps, hlast, hafter⟩
    refine ⟨before.reverse, step, after.reverse, ?_, lastWrite?_eq_some_iff.1 hlast,
      fun later hlater => ?_⟩
    · rw [← List.reverse_reverse steps, hsteps]
      simp
    · exact lastWrite?_eq_none_iff.1 (hafter later (List.mem_reverse.1 hlater))
  · rintro ⟨before, step, after, hsteps, hlast, hafter⟩
    refine ⟨after.reverse, step, before.reverse, ?_, lastWrite?_eq_some_iff.2 hlast,
      fun later hlater => ?_⟩
    · rw [hsteps]
      simp
    · exact lastWrite?_eq_none_iff.2 (hafter later (List.mem_reverse.1 hlater))

theorem get?_ofSteps_eq_some_iff {steps : List SchemaStep} {path : String} {field : Field} :
    (Catalog.ofSteps steps).get? path = some field ↔
      ∃ w, IsLastWrite steps path w ∧ field = w.field := by
  rw [get?_ofSteps, Option.map_eq_some_iff]
  exact exists_congr fun w => and_congr findSome?_eq_some_iff_isLastWrite eq_comm

theorem get?_ofSteps_eq_none_iff {steps : List SchemaStep} {path : String} :
    (Catalog.ofSteps steps).get? path = none ↔
      ∀ step ∈ steps, ∀ w ∈ step.writes, w.path ≠ path := by
  rw [get?_ofSteps, Option.map_eq_none_iff, List.findSome?_eq_none_iff]
  simp only [List.mem_reverse, lastWrite?_eq_none_iff]

/-- The step is the last one to write each of the paths that it writes. -/
def IsLastToWrite (steps : List SchemaStep) (step : SchemaStep) : Prop :=
  ∃ before after, steps = before ++ step :: after ∧
    ∀ later ∈ after, ∀ v ∈ later.writes, ∀ w ∈ step.writes, v.path ≠ w.path

theorem IsLastToWrite.get? {steps : List SchemaStep} {step : SchemaStep}
    (h : IsLastToWrite steps step) {path : String} {w : Write} (hw : IsLastIn step.writes path w) :
    (Catalog.ofSteps steps).get? path = some w.field := by
  obtain ⟨before, after, hsteps, hafter⟩ := h
  refine get?_ofSteps_eq_some_iff.2 ⟨w, ⟨before, step, after, hsteps, hw, ?_⟩, rfl⟩
  obtain ⟨first, rest, hwrites, hpath, -⟩ := hw
  intro later hlater v hv
  rw [← hpath]
  exact hafter later hlater v hv w (by simp [hwrites])

section Label

variable {path : String} {kind : LabelKind} {declared : List (String × FieldKind)}

theorem isLastIn_label :
    IsLastIn (label path kind declared).writes path ⟨path, .label kind, none⟩ := by
  refine ⟨[], _, rfl, rfl, fun later hlater => ?_⟩
  have hlonger : ∀ rest, path ++ "." ++ rest ≠ path := Path.child_ne_self path
  obtain ⟨-, helement, hpath⟩ | ⟨listName, element, -, -, helement, hpath⟩ := kind.elements_cases
  · simp only [elementsWrites, helement, attributeWrites, hpath, Option.toList_none, List.map_nil,
      List.nil_append, List.mem_map] at hlater
    obtain ⟨a, -, rfl⟩ := hlater
    exact hlonger a.1
  · simp only [elementsWrites, helement, attributeWrites, hpath, Option.toList_some, List.map_cons,
      List.map_nil, List.cons_append, List.nil_append, List.mem_cons, List.mem_map] at hlater
    obtain rfl | ⟨a, -, rfl⟩ := hlater
    · exact hlonger listName
    · have hpath : path ++ "." ++ listName ++ "." ++ a.1 = path ++ "." ++ (listName ++ "." ++ a.1) := by
        simp only [String.append_assoc]
      exact hpath ▸ hlonger _

theorem isLastIn_elements {element : LabelKind} (h : kind.elementKind? = some element) :
    IsLastIn (label path kind declared).writes (kind.elementsPath path)
      ⟨kind.elementsPath path, .list (.label element), none⟩ := by
  refine ⟨[⟨path, .label kind, none⟩], attributeWrites path kind declared, ?_, rfl,
    fun later hlater => ?_⟩
  · rw [writes, elementsWrites, h]
    rfl
  · obtain ⟨a, -, rfl⟩ := List.mem_map.1 hlater
    exact Path.child_ne_self _ a.1

theorem exists_isLastIn_attribute {name : String} (h : name ∈ (kind.attributes declared).map (·.1)) :
    ∃ w, IsLastIn (label path kind declared).writes (kind.elementsPath path ++ "." ++ name) w := by
  obtain ⟨a, ha, rfl⟩ := List.mem_map.1 h
  have hwrite : ⟨kind.elementsPath path ++ "." ++ a.1, a.2, none⟩ ∈
      (label path kind declared).writes :=
    List.mem_cons_of_mem _ (List.mem_append_right _ (List.mem_map_of_mem ha))
  have hsome : (lastWrite? (kind.elementsPath path ++ "." ++ a.1)
      (label path kind declared)).isSome := by
    rw [lastWrite?, List.find?_isSome]
    exact ⟨_, List.mem_reverse.2 hwrite, beq_self_eq_true _⟩
  obtain ⟨w, hw⟩ := Option.isSome_iff_exists.1 hsome
  exact ⟨w, lastWrite?_eq_some_iff.1 hw⟩

end Label

/-- At each path of a catalog stands the field of the last write to it, and at no other path is there
a field. The fields of documents and those of frames divide all fields, and the label fields are
listed on their own; each list has its fields once, in the order of paths. -/
theorem ofSteps_holds_last_writes (steps : List SchemaStep) :
    (∀ path field, (Catalog.ofSteps steps).get? path = some field ↔
      ∃ w, IsLastWrite steps path w ∧ field = w.field) ∧
    (∀ path, (Catalog.ofSteps steps).get? path = none ↔
      ∀ step ∈ steps, ∀ w ∈ step.writes, w.path ≠ path) ∧
    (let c := Catalog.ofSteps steps
     c.Lists (c.documentFields true) (fun field => ¬Path.isFrameLevel field.path) ∧
      c.Lists (c.frameFields true) (fun field => Path.isFrameLevel field.path) ∧
      (c.documentFields true).Disjoint (c.frameFields true) ∧
      (c.documentFields true).length + (c.frameFields true).length = c.size ∧
      c.Lists c.labelFields fun field => ∃ kind, field.kind = .label kind) :=
  ⟨fun _ _ => get?_ofSteps_eq_some_iff, fun _ => get?_ofSteps_eq_none_iff,
    Catalog.lists_documentFields _, Catalog.lists_frameFields _,
    Catalog.disjoint_documentFields_frameFields _, Catalog.length_documentFields_add_frameFields _,
    Catalog.lists_labelFields _⟩

end SchemaStep
end MediaViews
