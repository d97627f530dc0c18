import MediaViews.Proofs.Filter.Routing
import MediaViews.Proofs.Schema.LastWrite
import MediaViews.Proofs.Schema.StoragePath

/-! Filters on the attributes of labels. A catalog has an attribute below the list of the elements or
below the label itself, and a filter on it belongs to the label, whichever it is; its predicate reads
from an element what the catalog stores below the elements. -/
namespace MediaViews

open SchemaStep (IsLastToWrite)

namespace Catalog

variable {steps : List SchemaStep} {path : String} {kind : LabelKind}
  {declared : List (String × FieldKind)} {name : String}

theorem exists_get?_label (h : IsLastToWrite steps (.label path kind declared)) :
    ∃ field, (ofSteps steps).get? path = some field ∧ field.kind = .label kind :=
  ⟨_, h.get? SchemaStep.isLastIn_label, rfl⟩

theorem exists_get?_elements (h : IsLastToWrite steps (.label path kind declared))
    {element : LabelKind} (helement : kind.elementKind? = some element) :
    ∃ field, (ofSteps steps).get? (kind.elementsPath path) = some field ∧
      field.kind = .list (.label element) :=
  ⟨_, h.get? (SchemaStep.isLastIn_elements helement), rfl⟩

theorem ownerPath_attribute (h : IsLastToWrite steps (.label path kind declared))
    (hname : '.' ∉ name.toList) :
    (ofSteps steps).ownerPath (kind.elementsPath path ++ "." ++ name) = path := by
  have hparent : Path.parent (kind.elementsPath path ++ "." ++ name) = kind.elementsPath path :=
    Path.parent_child _ hname
  simp only [ownerPath, hparent]
  obtain ⟨-, -, hpath⟩ | ⟨listName, element, hlist, -, helement, hpath⟩ := kind.elements_cases
  · obtain ⟨field, hfield, hkind⟩ := exists_get?_label h
    have hsingle : field.kind.isLabelList = false := by
      rw [hkind]
      rfl
    rw [hpath, hfield]
    simp only [hsingle, Bool.false_eq_true, if_false]
  · obtain ⟨field, hfield, hkind⟩ := exists_get?_elements h helement
    have hlabels : field.kind.isLabelList = true := by
      rw [hkind]
      rfl
    -- The list of elements is passed over, and its own parent is the label.
    rw [hfield]
    simp only [hlabels, if_true]
    rw [hpath, Path.parent_child _ hlist]

theorem elementsPath_child_ne (path : String) (kind : LabelKind) (name : String) :
    path ≠ kind.elementsPath path ++ "." ++ name := by
  obtain ⟨-, -, hpath⟩ | ⟨listName, -, -, -, -, hpath⟩ := kind.elements_cases
  · rw [hpath]
    exact (Path.child_ne_self path name).symm
  · have hassoc : path ++ "." ++ listName ++ "." ++ name =
        path ++ "." ++ (listName ++ "." ++ name) := by
      simp only [String.append_assoc]
    rw [hpath, hassoc]
    exact (Path.child_ne_self path _).symm

theorem ownerAt_attribute (h : IsLastToWrite steps (.label path kind declared)) (name : String) :
    (ofSteps steps).ownerAt (kind.elementsPath path ++ "." ++ name) path = .label kind := by
  obtain ⟨field, hfield, hkind⟩ := exists_get?_label h
  rw [ownerAt, if_neg (elementsPath_child_ne path kind name), hfield]
  simp only [hkind]

theorem head?_elementsPath_child (hne : path ≠ "") (kind : LabelKind) (name : String) :
    (kind.elementsPath path ++ "." ++ name).toList.head? = path.toList.head? := by
  obtain ⟨-, -, hpath⟩ | ⟨listName, -, -, -, -, hpath⟩ := kind.elements_cases
  · rw [hpath]
    exact Path.head?_child hne name
  · rw [hpath]
    exact (Path.head?_child (Path.child_ne_empty path listName) name).trans
      (Path.head?_child hne listName)

end Catalog

namespace FilterTarget

variable {steps : List SchemaStep} {path : String} {kind : LabelKind}
  {declared : List (String × FieldKind)} {name : String}

theorem isReserved_attribute (hne : path ≠ "") (hreserved : isReserved path = false)
    (kind : LabelKind) (name : String) :
    isReserved (kind.elementsPath path ++ "." ++ name) = false := by
  simp only [isReserved, Bool.or_eq_false_iff, beq_eq_false_iff_ne] at hreserved ⊢
  refine ⟨fun htags => ?_, ?_⟩
  · have hdot : '.' ∉ tagsPath.toList := by decide
    exact hdot (htags ▸ by simp)
  · rw [Catalog.head?_elementsPath_child hne]
    exact hreserved.2

theorem exists_ofFilters_eq_ok {c : Catalog} {filters : Filters}
    (h : ∀ path ∈ filters.keys, ¬IsUnknown c path) : ∃ targets, ofFilters c filters = .ok targets := by
  have heach : ∀ e ∈ filters.entries, ∃ target, ofEntry c e.1 e.2 = .ok target :=
    fun e he => exists_ofEntry_eq_ok (h e.1 (List.mem_map_of_mem he)) e.2
  obtain ⟨each, heach⟩ := Outcome.exists_mapM_eq_ok_iff.2 heach
  refine ⟨each.filterMap id, ?_⟩
  rw [ofFilters, heach]
  rfl

theorem mem_of_ofEntry {c : Catalog} {filters : Filters} {targets : List FilterTarget}
    (h : ofFilters c filters = .ok targets) {path : String} {f : Filter} {t : FilterTarget}
    (hf : filters.get? path = some f) (ht : ofEntry c path f = .ok (some t)) : t ∈ targets := by
  have hreserved : isReserved path = false := by
    obtain ⟨-, hnone⟩ | ⟨hreserved, -⟩ := ofEntry_cases ht
    · cases hnone
    · exact hreserved
  have hentry : (path, f) ∈ filters.entries.filter fun e => !isReserved e.1 :=
    List.mem_filter.2 ⟨SortedMap.mem_entries_iff.2 hf, by simpa using hreserved⟩
  rw [← map_entry_of_ofFilters h] at hentry
  obtain ⟨u, hu, hpair⟩ := List.mem_map.1 hentry
  obtain ⟨rfl, rfl⟩ := Prod.mk.inj hpair
  have hsame := (ofEntry_of_mem_ofFilters h hu).symm.trans ht
  obtain rfl := Option.some.inj (Except.ok.inj hsame)
  exact hu

theorem ofEntry_attribute (h : IsLastToWrite steps (.label path kind declared)) (hne : path ≠ "")
    (hreserved : isReserved path = false) (hname : '.' ∉ name.toList) {field : Field}
    (hfield : (Catalog.ofSteps steps).get? (kind.elementsPath path ++ "." ++ name) = some field)
    (f : Filter) :
    ofEntry (Catalog.ofSteps steps) (kind.elementsPath path ++ "." ++ name) f =
      .ok (some ⟨kind.elementsPath path ++ "." ++ name, field, path, .label kind, f⟩) := by
  rw [ofEntry, isReserved_attribute hne hreserved, if_neg Bool.false_ne_true, hfield]
  simp only [Catalog.ownerPath_attribute h hname, Catalog.ownerAt_attribute h]

/-- Every attribute of a label, one that all labels have as well as a declared one, is filtered as
part of the label. The name that the predicate on an element reads the attribute from is the one that
the catalog stores it under below the elements. -/
theorem attributes_belong_to_their_label {steps : List SchemaStep} {path : String} {kind : LabelKind}
    {declared : List (String × FieldKind)} {name : String}
    (hlast : IsLastToWrite steps (.label path kind declared)) (hne : path ≠ "")
    (hdot : path.toList.head? ≠ some '.') (hreserved : isReserved path = false)
    (hattribute : name ∈ (kind.attributes declared).map (·.1)) (hname : '.' ∉ name.toList) :
    let c := Catalog.ofSteps steps
    let attributePath := kind.elementsPath path ++ "." ++ name
    ∃ field, c.get? attributePath = some field ∧
      (∀ filters f, filters.get? attributePath = some f →
        (∀ other ∈ filters.keys, ¬IsUnknown c other) →
        ∃ targets target, ofFilters c filters = .ok targets ∧
          target ∈ targets.filter (·.isLabelAttribute) ∧
          attributePath ∉ (targets.filter (!·.isLabelAttribute)).map (·.path) ∧
          target = ⟨attributePath, field, path, .label kind, f⟩ ∧
          target.elementPredicate =
            f.predicate attributePath (.thisField field.storageName) false field.kind) ∧
      c.storagePath attributePath =
        c.storagePath (kind.elementsPath path) ++ "." ++ field.storageName := by
  intro c attributePath
  obtain ⟨w, hw⟩ := SchemaStep.exists_isLastIn_attribute hattribute
  have hfield : c.get? attributePath = some w.field := hlast.get? hw
  refine ⟨w.field, hfield, fun filters f hf hknown => ?_, ?_⟩
  · obtain ⟨targets, htargets⟩ := exists_ofFilters_eq_ok hknown
    have hmem : ⟨attributePath, w.field, path, .label kind, f⟩ ∈ targets :=
      mem_of_ofEntry htargets hf (ofEntry_attribute hlast hne hreserved hname hfield f)
    refine ⟨targets, _, htargets, List.mem_filter.2 ⟨hmem, rfl⟩, fun hother => ?_, rfl, rfl⟩
    obtain ⟨t, ht, hpath⟩ := List.mem_map.1 hother
    obtain ⟨ht, hscalar⟩ := List.mem_filter.1 ht
    rw [eq_of_path_eq htargets ht hmem hpath] at hscalar
    cases hscalar
  · refine c.storagePath_child hname ?_ hfield
    rw [Catalog.head?_elementsPath_child hne]
    exact hdot

def redeclared : List SchemaStep :=
  [.storedField "frames.gt.detections" .string "dets",
    .label "frames.gt" .detections [("id", .string), ("id", .int)],
    .field "uniqueness" .float]

theorem attributes_belong_to_their_label_redeclared :
    let c := Catalog.ofSteps redeclared
    let attributePath := "frames.gt.detections.id"
    let f := Filter.ofValues ["a"]
    let filters : Filters := .ofList [(attributePath, f), ("uniqueness", .ofValues [])]
    ∃ field targets target, c.get? attributePath = some field ∧ ofFilters c filters = .ok targets ∧
      target ∈ targets.filter (·.isLabelAttribute) ∧
      target = ⟨attributePath, field, "frames.gt", .label .detections, f⟩ ∧
      c.storagePath attributePath =
        c.storagePath "frames.gt.detections" ++ "." ++ field.storageName := by
  intro c attributePath f filters
  have hlast : IsLastToWrite redeclared
      (.label "frames.gt" .detections [("id", .string), ("id", .int)]) :=
    ⟨[.storedField "frames.gt.detections" .string "dets"], [.field "uniqueness" .float], rfl,
      by decide +kernel⟩
  have hattribute : "id" ∈ (LabelKind.detections.attributes [("id", .string), ("id", .int)]).map
      (·.1) := by decide +kernel
  obtain ⟨field, hfield, htargets, hstorage⟩ := attributes_belong_to_their_label hlast
    (by decide) (by decide) (by decide) hattribute (by decide)
  have hknown : ∀ other ∈ filters.keys, c.get? other ≠ none := by decide +kernel
  obtain ⟨targets, target, hok, hmem, -, heq, -⟩ := htargets filters f (by decide +kernel)
    fun other hother hunknown => hknown other hother hunknown.2
  exact ⟨field, targets, target, hfield, hok, hmem, heq, hstorage⟩

end FilterTarget
end MediaViews
