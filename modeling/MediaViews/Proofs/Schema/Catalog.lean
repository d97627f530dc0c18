import MediaViews.Proofs.SortedMap
import MediaViews.Proofs.Text.ByteOrder
import MediaViews.Schema.Catalog

/-! Catalogs as what is found in them, and the lists of their fields: each lists some of the fields,
every one once, in the order of paths. -/
namespace MediaViews.Catalog

variable {c : Catalog}

theorem get?_eq_some_iff {path : String} {field : Field} :
    c.get? path = some field ↔ field ∈ c.all ∧ field.path = path := by
  have hentry : (path, field) ∈ c.fields.entries ↔ c.get? path = some field := SortedMap.mem_entries_iff
  rw [← hentry, all, SortedMap.values, List.mem_map]
  constructor
  · intro h
    exact ⟨⟨_, h, rfl⟩, c.path_eq _ h⟩
  · rintro ⟨⟨⟨key, field⟩, h, rfl⟩, rfl⟩
    rwa [c.path_eq _ h]

theorem path_of_get? {path : String} {field : Field} (h : c.get? path = some field) :
    field.path = path := (get?_eq_some_iff.1 h).2

theorem pairwise_all (c : Catalog) : c.all.Pairwise fun f g => f.path < g.path := by
  refine List.pairwise_map.2 (c.fields.ascending.imp_of_mem fun ha hb h => ?_)
  rwa [c.path_eq _ ha, c.path_eq _ hb]

theorem get?_insertAll (c : Catalog) (fields : List Field) (path : String) :
    (c.insertAll fields).get? path =
      (fields.reverse.find? fun f => f.path == path).or (c.get? path) := by
  induction fields generalizing c with
  | nil => rfl
  | cons field fields ih =>
    have hinsert : (c.insert field).get? path =
        if path = field.path then some field else c.get? path :=
      SortedMap.get?_insert c.fields field.path path field
    have hstep : c.insertAll (field :: fields) = (c.insert field).insertAll fields := rfl
    rw [hstep, ih, hinsert, List.reverse_cons, List.find?_append, Option.or_assoc,
      List.find?_singleton]
    by_cases h : path = field.path
    · simp [h]
    · simp [h, Ne.symm h]

structure Lists (c : Catalog) (listed : List Field) (wanted : Field → Prop) : Prop where
  ascending : listed.Pairwise fun f g => ObjectId.utf8Bytes f.path < ObjectId.utf8Bytes g.path
  mem_iff : ∀ field, field ∈ listed ↔ c.get? field.path = some field ∧ wanted field

theorem lists_filter (c : Catalog) {wanted : Field → Bool} {meant : Field → Prop}
    (h : ∀ field, wanted field ↔ meant field) : c.Lists (c.all.filter wanted) meant where
  ascending := (c.pairwise_all.filter _).imp Text.utf8Bytes_lt_iff.2
  mem_iff field := by
    rw [List.mem_filter, h, get?_eq_some_iff, and_iff_left rfl]

theorem lists_documentFields (c : Catalog) :
    c.Lists (c.documentFields true) fun field => ¬Path.isFrameLevel field.path :=
  c.lists_filter fun field => by simp

theorem lists_frameFields (c : Catalog) :
    c.Lists (c.frameFields true) fun field => Path.isFrameLevel field.path :=
  c.lists_filter fun field => by simp

theorem lists_labelFields (c : Catalog) :
    c.Lists c.labelFields fun field => ∃ kind, field.kind = .label kind :=
  c.lists_filter fun field => by
    rw [Field.isLabel]
    cases field.kind <;> simp [FieldKind.labelKind?]

theorem disjoint_documentFields_frameFields (c : Catalog) :
    (c.documentFields true).Disjoint (c.frameFields true) := by
  intro field hdocument hframe
  exact ((c.lists_documentFields.mem_iff field).1 hdocument).2
    ((c.lists_frameFields.mem_iff field).1 hframe).2

theorem length_documentFields_add_frameFields (c : Catalog) :
    (c.documentFields true).length + (c.frameFields true).length = c.size := by
  have hdocument : c.documentFields true = c.all.filter fun f => !Path.isFrameLevel f.path :=
    List.filter_congr fun f _ => by simp
  have hframe : c.frameFields true = c.all.filter fun f => Path.isFrameLevel f.path :=
    List.filter_congr fun f _ => by simp
  have hall : c.all.length = c.size := List.length_map _
  rw [hdocument, hframe, ← hall, Nat.add_comm]
  exact (List.length_eq_length_filter_add _).symm

end MediaViews.Catalog
