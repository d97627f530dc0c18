import MediaViews.LabelTags.Source
import MediaViews.Proofs.Dataset.Catalog

/-! Where sources of tags look for them, and where the catalog stores them. A source asks the catalog
for the label field alone and takes what follows under its public name, so both agree exactly where
that is its stored name. -/
namespace MediaViews

namespace Field

def tagsPath (field : Field) : String :=
  match field.listAttribute? with
  | some listName => Path.child (Path.child field.path listName) "tags"
  | none => Path.child field.path "tags"

theorem listAttribute_spec {field : Field} {listName : String}
    (h : field.listAttribute? = some listName) : '.' ∉ listName.toList ∧ listName ≠ "id" := by
  obtain ⟨kind, -, hlist⟩ := Option.bind_eq_some_iff.1 h
  exact LabelKind.listAttribute_spec hlist

end Field

namespace Catalog

def StoresTagsInPlace (c : Catalog) (field : Field) : Prop :=
  (∀ listName ∈ field.listAttribute?, c.storedName (Path.child field.path listName) = listName) ∧
    c.storedName field.tagsPath = "tags"

/-- Frames are stored where public paths have them, or further down from there. -/
def StoresFrames (c : Catalog) : Prop :=
  (Path.components (c.storedName "frames")).head? = some "frames"

instance (c : Catalog) (field : Field) : Decidable (c.StoresTagsInPlace field) :=
  inferInstanceAs (Decidable (_ ∧ _))

instance (c : Catalog) : Decidable c.StoresFrames :=
  inferInstanceAs (Decidable (_ = _))

theorem isFrameLevel_storagePath {path : String} (h : Path.isFrameLevel path) (c : Catalog) :
    Path.isFrameLevel (c.storagePath path) ↔ c.StoresFrames := by
  obtain ⟨rest, hrest, hpath⟩ := Path.isFrameLevel_iff.1 h
  have hframes : Path.components "frames" = ["frames"] := by decide
  have hnames : c.storageNames "" ("frames" :: rest) =
      c.storedName "frames" :: c.storageNames "frames" rest := by
    rw [storedName, hframes]
    rfl
  obtain ⟨next, more, hmore⟩ := List.exists_cons_of_ne_nil (c.storageNames_ne_nil hrest "frames")
  have hstored : Path.components (c.storagePath path) =
      Path.components (c.storedName "frames") ++ Path.components (Path.join (next :: more)) := by
    rw [storagePath, hpath, hnames, hmore, Path.join_cons_cons, Path.components_child]
  obtain ⟨first, others, hfirst⟩ :=
    List.exists_cons_of_ne_nil (Path.components_ne_nil (c.storedName "frames"))
  rw [Path.isFrameLevel_iff, hstored, StoresFrames, hfirst, List.head?_cons, Option.some.injEq]
  constructor
  · rintro ⟨_, -, h⟩
    exact (List.cons.inj h).1
  · rintro rfl
    refine ⟨_, ?_, List.cons_append⟩
    exact List.append_ne_nil_of_right_ne_nil _ (Path.components_ne_nil _)

theorem pairwise_labelFields (c : Catalog) : c.labelFields.Pairwise fun f g => f.path < g.path :=
  c.pairwise_all.filter _

theorem filter_labelFields (c : Catalog) {field : Field} (h : field ∈ c.labelFields) :
    c.labelFields.filter (fun f => f.path == field.path) = [field] := by
  have hpaths := c.pairwise_labelFields
  generalize c.labelFields = fields at h hpaths
  induction fields with
  | nil => cases h
  | cons first rest ih =>
    obtain ⟨hfirst, hrest⟩ := List.pairwise_cons.1 hpaths
    rcases List.mem_cons.1 h with rfl | h
    · have hnone : rest.filter (fun f => f.path == field.path) = [] := by
        refine List.filter_eq_nil_iff.2 fun g hg => ?_
        simpa using (ne_of_lt (hfirst g hg)).symm
      rw [List.filter_cons_of_pos (by simp), hnone]
    · rw [List.filter_cons_of_neg (by simpa using ne_of_lt (hfirst field h)), ih h hrest]

end Catalog

namespace TagSource

variable (c : Catalog) (field : Field)

theorem ofField_cases :
    (∃ relative, Path.isFrameLevel field.path ∧ c.StoresFrames ∧
      Path.framesStem ++ relative = c.storagePath field.path ∧
      ofField c field = ⟨field.path, relative, .frame, field.listAttribute?⟩) ∨
    ¬(Path.isFrameLevel field.path ∧ c.StoresFrames) ∧
      ofField c field = ⟨field.path, c.storagePath field.path, .sample, field.listAttribute?⟩ := by
  cases hwithin : Path.withinFrame? (c.storagePath field.path) with
  | none =>
    have hstored : ¬Path.isFrameLevel (c.storagePath field.path) := fun h => by
      rw [Path.withinFrame?, if_pos h] at hwithin
      cases hwithin
    refine .inr ⟨fun h => hstored ((Catalog.isFrameLevel_storagePath h.1 c).2 h.2), ?_⟩
    simp only [ofField, hwithin]
  | some relative =>
    by_cases hlevel : Path.isFrameLevel field.path
    · have hstored : Path.isFrameLevel (c.storagePath field.path) := by
        by_contra h
        rw [Path.withinFrame?, if_neg h] at hwithin
        cases hwithin
      refine .inl ⟨relative, hlevel, (Catalog.isFrameLevel_storagePath hlevel c).1 hstored,
        Path.framesStem_append_of_withinFrame? hwithin, ?_⟩
      simp only [ofField, hwithin, if_pos hlevel]
    · refine .inr ⟨fun h => hlevel h.1, ?_⟩
      simp only [ofField, hwithin, if_neg hlevel]

theorem path_ofField : (ofField c field).path = field.path := by
  obtain ⟨relative, -, -, -, h⟩ | ⟨-, h⟩ := ofField_cases c field <;> rw [h]

theorem level_ofField_iff :
    (ofField c field).level = .frame ↔ Path.isFrameLevel field.path ∧ c.StoresFrames := by
  obtain ⟨relative, hlevel, hframes, -, h⟩ | ⟨hnot, h⟩ := ofField_cases c field
  · simp only [h, hlevel, hframes, and_self]
  · simp only [h, hnot, reduceCtorEq]

theorem tagsPath_ofField :
    (ofField c field).tagsPath =
      match field.listAttribute? with
      | some listName => Path.child (Path.child (c.storagePath field.path) listName) "tags"
      | none => Path.child (c.storagePath field.path) "tags" := by
  have htags : ∀ path : String, path ++ ".tags" = Path.child path "tags" := by
    intro path
    rw [Path.child, String.append_assoc]
    rfl
  obtain ⟨relative, -, -, hstored, h⟩ | ⟨-, h⟩ := ofField_cases c field
  · rw [h, tagsPath, relativeTagsPath, ← hstored]
    cases field.listAttribute? <;> simp only [htags, Path.child, String.append_assoc]
  · rw [h, tagsPath, relativeTagsPath]
    cases field.listAttribute? <;> simp only [htags, Path.child]

theorem tagsPath_ofField_eq_iff :
    (ofField c field).tagsPath = c.storagePath field.tagsPath ↔ c.StoresTagsInPlace field := by
  have htags : '.' ∉ "tags".toList := by decide
  rw [tagsPath_ofField, Catalog.StoresTagsInPlace, Field.tagsPath]
  cases hlist : field.listAttribute? with
  | none =>
    simp only [Path.child, c.storagePath_concat _ htags, String.append_right_inj]
    exact ⟨fun h => ⟨fun _ hmem => absurd hmem (Option.not_mem_none _), h.symm⟩, fun h => h.2.symm⟩
  | some listName =>
    obtain ⟨hdot, -⟩ := Field.listAttribute_spec hlist
    simp only [Path.child, c.storagePath_concat _ htags, c.storagePath_concat _ hdot]
    rw [Path.append_two_eq_iff hdot htags]
    simp only [Option.mem_some_iff, forall_eq']

def Precedes (a b : TagSource) : Prop :=
  a.level = .sample ∧ b.level = .frame ∨ a.level = b.level ∧ a.path < b.path

theorem pairwise_ofCatalog : (ofCatalog c).Pairwise Precedes := by
  have hpaths : (c.labelFields.map (ofField c)).Pairwise fun a b => a.path < b.path := by
    refine List.pairwise_map.2 (c.pairwise_labelFields.imp fun h => ?_)
    rwa [path_ofField, path_ofField]
  have hlevel : ∀ level : TagLevel,
      ((c.labelFields.map (ofField c)).filter (·.level == level)).Pairwise Precedes := by
    refine fun level => (hpaths.filter _).imp_of_mem fun ha hb h => .inr ⟨?_, h⟩
    rw [beq_iff_eq.1 (List.mem_filter.1 ha).2, beq_iff_eq.1 (List.mem_filter.1 hb).2]
  refine List.pairwise_append.2 ⟨hlevel .sample, hlevel .frame, fun a ha b hb => .inl ⟨?_, ?_⟩⟩
  · exact beq_iff_eq.1 (List.mem_filter.1 ha).2
  · exact beq_iff_eq.1 (List.mem_filter.1 hb).2

theorem filter_ofCatalog {c : Catalog} {field : Field} (h : field ∈ c.labelFields) :
    (ofCatalog c).filter (fun s => s.path == field.path) = [ofField c field] := by
  have hpath : (fun s => s.path == field.path) ∘ ofField c = fun f => f.path == field.path :=
    funext fun f => by rw [Function.comp_apply, path_ofField]
  have hsources : (c.labelFields.map (ofField c)).filter (fun s => s.path == field.path) =
      [ofField c field] := by
    rw [List.filter_map, hpath, c.filter_labelFields h, List.map_singleton]
  rw [ofCatalog, List.filter_append, List.filter_comm, hsources, List.filter_comm, hsources]
  cases hlevel : (ofField c field).level <;> simp [hlevel]

end TagSource

namespace DatasetDescription

variable {d : DatasetDescription}

theorem storesFrames_of_not_renames (h : ¬d.Renames "frames") : d.catalog.StoresFrames := by
  have hcomponents : Path.components "frames" = ["frames"] := by decide
  have hstored : d.catalog.storedName "frames" = "frames" := by
    rw [d.catalog.storedName_eq (by decide) (by decide)]
    cases hfield : d.catalog.get? "frames" with
    | none => decide
    | some field =>
      rcases storageName_of_get?_catalog hfield with hname | ⟨declared, hdeclared, hpath, hname⟩
      · rw [Option.map_some, Option.getD_some, hname]
        exact Field.storageName_ofPath (by decide) field.kind
      · exact absurd ⟨declared, hdeclared, hpath, hname ▸ rfl⟩ h
  rw [Catalog.StoresFrames, hstored, hcomponents]
  rfl

structure DeclaresLabel (d : DatasetDescription) (field : Field) : Prop where
  declared : ∃ label ∈ d.labels, field.path = label.path ∧ field.kind = .label label.kind
  nonempty : field.path ≠ ""
  named : field.path.toList.head? ≠ some '.'

theorem DeclaresLabel.storesTagsInPlace {field : Field} (h : d.DeclaresLabel field) :
    d.catalog.StoresTagsInPlace field := by
  obtain ⟨⟨label, hlabel, hpath, hkind⟩, hne, hdot⟩ := h
  have hlabelled : ∀ f ∈ Catalog.labelExpansion field.path label.kind label.attributes.entries,
      f ∈ d.labelled := fun f hf => List.mem_flatMap.2 ⟨label, hlabel, hpath ▸ hf⟩
  have hlist : field.listAttribute? = label.kind.elements?.map (·.1) := by
    rw [Field.listAttribute?, hkind]
    rfl
  rw [Catalog.StoresTagsInPlace, Field.tagsPath, hlist]
  cases helements : label.kind.elements? with
  | none =>
    refine ⟨fun _ hmem => absurd hmem (Option.not_mem_none _),
      storedName_of_mem_labelled (hlabelled (.ofPath _ (.list .string)) ?_) hne hdot
      (by decide) (by decide)⟩
    simp [Catalog.labelExpansion, helements, Catalog.attributesOf]
  | some elements =>
    obtain ⟨listName, element⟩ := elements
    obtain ⟨hname, hid⟩ := Field.listAttribute_spec (hlist.trans (congrArg _ helements))
    have hdotList : (Path.child field.path listName).toList.head? ≠ some '.' := by
      rwa [Path.head?_child hne]
    refine ⟨fun _ h => ?_, storedName_of_mem_labelled (hlabelled (.ofPath _ (.list .string)) ?_)
      (Path.child_ne_empty _ _) hdotList (by decide) (by decide)⟩
    · obtain rfl := Option.some.inj h
      refine storedName_of_mem_labelled (hlabelled (.ofPath _ (.list (.label element))) ?_) hne
        hdot hname hid
      simp [Catalog.labelExpansion, helements]
    · simp [Catalog.labelExpansion, helements, Catalog.attributesOf]

end DatasetDescription

namespace TagSource

/-- Every label field has one source. Public paths tell its level unless frames are stored elsewhere,
which takes a field `frames` declared with a stored name. It has the tags where the catalog has them
unless their list or they themselves go by another stored name, which those of a declared label never
do. -/
theorem sources_of_description {d : DatasetDescription} {dataset : Dataset}
    (h : Dataset.ofDescription d = .ok dataset) :
    (ofCatalog dataset.catalog).Pairwise Precedes ∧
      (∀ field ∈ dataset.catalog.labelFields, ∃ source,
        (ofCatalog dataset.catalog).filter (fun s => s.path == field.path) = [source] ∧
        (source.level = .frame ↔ Path.isFrameLevel field.path ∧ dataset.catalog.StoresFrames) ∧
        (source.tagsPath = dataset.catalog.storagePath field.tagsPath ↔
          dataset.catalog.StoresTagsInPlace field)) ∧
      (¬d.Renames "frames" → dataset.catalog.StoresFrames) ∧
      ∀ field, d.DeclaresLabel field → dataset.catalog.StoresTagsInPlace field := by
  refine ⟨pairwise_ofCatalog _, fun field hfield => ?_, fun hframes => ?_, fun field hfield => ?_⟩
  · exact ⟨ofField dataset.catalog field, filter_ofCatalog hfield, level_ofField_iff _ field,
      tagsPath_ofField_eq_iff _ field⟩
  · rw [DatasetDescription.catalog_of_ofDescription h]
    exact DatasetDescription.storesFrames_of_not_renames hframes
  · rw [DatasetDescription.catalog_of_ofDescription h]
    exact hfield.storesTagsInPlace

def imagesWith (fields : List FieldDescription) (labels : List LabelDescription) :
    DatasetDescription :=
  ⟨"images", .image, none, ∅, none, fields, labels, .empty, ∅⟩

def renamedElements : DatasetDescription :=
  imagesWith [⟨"gt", .label .detections, none⟩,
    ⟨"gt.detections", .list (.label .detection), some "dets"⟩] []

def renamedFrames : DatasetDescription :=
  imagesWith [⟨"frames", .embedded, some "_frames"⟩] [⟨"frames.cls", .classification, ∅⟩]

theorem sources_of_description_renamed :
    (∃ dataset source, Dataset.ofDescription renamedElements = .ok dataset ∧
      (ofCatalog dataset.catalog).filter (fun s => s.path == "gt") = [source] ∧
      source.tagsPath ≠ dataset.catalog.storagePath "gt.detections.tags") ∧
    ∃ dataset source, Dataset.ofDescription renamedFrames = .ok dataset ∧
      (ofCatalog dataset.catalog).filter (fun s => s.path == "frames.cls") = [source] ∧
      source.level ≠ .frame := by
  refine ⟨?_, ?_⟩
  · obtain ⟨dataset, h⟩ : ∃ dataset, Dataset.ofDescription renamedElements = .ok dataset := ⟨_, rfl⟩
    have hcatalog := DatasetDescription.catalog_of_ofDescription h
    have hfield : ⟨"gt", .label .detections, "gt"⟩ ∈ dataset.catalog.labelFields := by
      rw [hcatalog]
      decide +kernel
    obtain ⟨-, hsources, -⟩ := sources_of_description h
    obtain ⟨source, hsource, -, htags⟩ := hsources _ hfield
    refine ⟨dataset, source, h, hsource, fun hagree => ?_⟩
    have hplace := htags.1 hagree
    rw [hcatalog] at hplace
    revert hplace
    decide +kernel
  · obtain ⟨dataset, h⟩ : ∃ dataset, Dataset.ofDescription renamedFrames = .ok dataset := ⟨_, rfl⟩
    have hcatalog := DatasetDescription.catalog_of_ofDescription h
    have hfield : ⟨"frames.cls", .label .classification, "cls"⟩ ∈ dataset.catalog.labelFields := by
      rw [hcatalog]
      decide +kernel
    obtain ⟨-, hsources, -⟩ := sources_of_description h
    obtain ⟨source, hsource, hlevel, -⟩ := hsources _ hfield
    refine ⟨dataset, source, h, hsource, fun hframe => ?_⟩
    have hframes := (hlevel.1 hframe).2
    rw [hcatalog] at hframes
    revert hframes
    decide +kernel

/-- The catalog has the tags elsewhere, and a field of frames counts as one of documents. -/
theorem sources_of_renamed :
    (∃ dataset, Dataset.ofDescription renamedElements = .ok dataset ∧
      (ofCatalog dataset.catalog).map tagsPath = ["gt.detections.tags"] ∧
      dataset.catalog.storagePath "gt.detections.tags" = "gt.dets.tags") ∧
    ∃ dataset, Dataset.ofDescription renamedFrames = .ok dataset ∧
      (ofCatalog dataset.catalog).map (fun s => (s.path, s.level)) = [("frames.cls", .sample)] := by
  refine ⟨⟨_, rfl, ?_⟩, _, rfl, ?_⟩
  · decide +kernel
  · decide +kernel

end TagSource
end MediaViews
