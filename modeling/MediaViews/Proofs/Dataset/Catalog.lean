import MediaViews.Dataset.Basic
import MediaViews.Proofs.Schema.LastWrite
import MediaViews.Proofs.Schema.StoragePath

/-! Catalogs of described datasets: which field stands at a path, and the name it is stored under. -/
namespace MediaViews

theorem Field.storageName_ofPath {path : String} (h : Path.name path ≠ "id") (kind : FieldKind) :
    (ofPath path kind).storageName = Path.name path := if_neg h

namespace Catalog

theorem mem_labelExpansion {path : String} {kind : LabelKind} {declared : List (String × FieldKind)}
    {field : Field} (h : field ∈ labelExpansion path kind declared) :
    field = .ofPath field.path field.kind := by
  rw [SchemaStep.labelExpansion_eq_writes] at h
  obtain ⟨w, hw, rfl⟩ := List.mem_map.1 h
  obtain hnone | ⟨name, hstep, -⟩ := SchemaStep.storageName_of_mem_writes hw
  · exact SchemaStep.Write.field_eq_ofPath hnone
  · cases hstep

end Catalog

namespace FieldDescription

def step (d : FieldDescription) : SchemaStep :=
  match d.storageName with
  | some name => .storedField d.path d.kind name
  | none => .field d.path d.kind

theorem insert_field (c : Catalog) (d : FieldDescription) : c.insert d.field = c.apply d.step := by
  rw [field, step]
  cases d.storageName <;> rfl

end FieldDescription

namespace DatasetDescription

variable {d : DatasetDescription}

def steps (d : DatasetDescription) : List SchemaStep :=
  d.fields.map FieldDescription.step ++
    d.labels.map fun l => .label l.path l.kind l.attributes.entries

theorem catalog_eq_ofSteps (d : DatasetDescription) : d.catalog = .ofSteps d.steps := by
  have hfields : Catalog.empty.insertAll (d.fields.map (·.field)) =
      (d.fields.map FieldDescription.step).foldl Catalog.apply ∅ := by
    rw [Catalog.insertAll, List.foldl_map, List.foldl_map]
    exact congrArg (fun insert => d.fields.foldl insert _) (funext₂ FieldDescription.insert_field)
  rw [Catalog.ofSteps, steps, List.foldl_append, ← hfields, List.foldl_map]
  rfl

theorem exists_of_storedField_mem_steps {path name : String} {kind : FieldKind}
    (h : .storedField path kind name ∈ d.steps) :
    ∃ declared ∈ d.fields, declared.path = path ∧ declared.storageName = some name := by
  obtain h | h := List.mem_append.1 h
  · obtain ⟨declared, hdeclared, hstep⟩ := List.mem_map.1 h
    rw [FieldDescription.step] at hstep
    split at hstep
    · next stored hstored =>
      obtain ⟨hpath, -, hname⟩ := SchemaStep.storedField.inj hstep
      exact ⟨declared, hdeclared, hpath, hname ▸ hstored⟩
    · cases hstep
  · obtain ⟨l, -, hstep⟩ := List.mem_map.1 h
    cases hstep

def labelled (d : DatasetDescription) : List Field :=
  d.labels.flatMap fun l => Catalog.labelExpansion l.path l.kind l.attributes.entries

theorem get?_catalog (d : DatasetDescription) (path : String) :
    d.catalog.get? path = (d.labelled.reverse.find? fun f => f.path == path).or
      ((d.fields.map (·.field)).reverse.find? fun f => f.path == path) := by
  have hlabels : d.catalog = (Catalog.empty.insertAll (d.fields.map (·.field))).insertAll d.labelled :=
    List.foldl_flatMap.symm
  have hempty : Catalog.empty.get? path = none := rfl
  rw [hlabels, Catalog.get?_insertAll, Catalog.get?_insertAll, hempty, Option.or_none]

theorem storageName_of_get?_catalog {path : String} {field : Field}
    (h : d.catalog.get? path = some field) :
    field.storageName = (Field.ofPath path field.kind).storageName ∨
      ∃ declared ∈ d.fields, declared.path = path ∧ declared.storageName = some field.storageName := by
  rw [catalog_eq_ofSteps, SchemaStep.get?_ofSteps_eq_some_iff] at h
  obtain ⟨w, ⟨before, step, after, hsteps, ⟨_, _, hwrites, rfl, -⟩, -⟩, rfl⟩ := h
  have hw : w ∈ step.writes := by simp [hwrites]
  obtain hnone | ⟨name, rfl, hname⟩ := SchemaStep.storageName_of_mem_writes hw
  · exact .inl (congrArg Field.storageName (SchemaStep.Write.field_eq_ofPath hnone))
  · have hstep : .storedField w.path w.kind name ∈ d.steps := by simp [hsteps]
    obtain ⟨declared, hdeclared, hpath, hdeclaredName⟩ := exists_of_storedField_mem_steps hstep
    refine .inr ⟨declared, hdeclared, hpath, hdeclaredName.trans ?_⟩
    rw [SchemaStep.Write.field, hname]
    rfl

theorem exists_get?_of_mem_labelled {field : Field} (h : field ∈ d.labelled) :
    ∃ kind, d.catalog.get? field.path = some (.ofPath field.path kind) := by
  have hsome : (d.labelled.reverse.find? fun f => f.path == field.path).isSome :=
    List.find?_isSome.2 ⟨field, List.mem_reverse.2 h, beq_self_eq_true _⟩
  obtain ⟨found, hfound⟩ := Option.isSome_iff_exists.1 hsome
  obtain ⟨l, -, hmem⟩ := List.mem_flatMap.1 (List.mem_reverse.1 (List.mem_of_find?_eq_some hfound))
  have hpath : found.path = field.path := by simpa using List.find?_some hfound
  refine ⟨found.kind, ?_⟩
  rw [get?_catalog, hfound, ← hpath, ← Catalog.mem_labelExpansion hmem]
  rfl

theorem catalog_of_ofDescription {dataset : Dataset} (h : Dataset.ofDescription d = .ok dataset) :
    dataset.catalog = d.catalog := by
  unfold Dataset.ofDescription at h
  split at h
  · cases h
  · obtain rfl := Except.ok.inj h
    rfl

def Renames (d : DatasetDescription) (path : String) : Prop :=
  ∃ declared ∈ d.fields, declared.path = path ∧ declared.storageName.isSome

theorem storedName_of_mem_labelled {stem name : String} {kind : FieldKind}
    (h : .ofPath (Path.child stem name) kind ∈ d.labelled) (hstem : stem ≠ "")
    (hdot : stem.toList.head? ≠ some '.') (hname : '.' ∉ name.toList) (hid : name ≠ "id") :
    d.catalog.storedName (Path.child stem name) = name := by
  obtain ⟨kind', hfield⟩ : ∃ kind', d.catalog.get? (Path.child stem name) =
      some (.ofPath (Path.child stem name) kind') := exists_get?_of_mem_labelled h
  have hlast := Path.name_child stem hname
  rw [d.catalog.storedName_eq (Path.child_ne_empty stem name) (by rwa [Path.head?_child hstem]),
    hfield, Option.map_some, Option.getD_some, Field.storageName_ofPath (by rwa [hlast]), hlast]

end DatasetDescription
end MediaViews
