import MediaViews.Proofs.Path
import MediaViews.Schema.Catalog

/-! Where a field is stored: below its parent, under its own stored name. Names are looked up along
the path, so what matters is that each is looked up at the path up to it. -/
namespace MediaViews.Catalog

variable (c : Catalog)

/-- The path up to a component, as names are looked up by it. -/
def lookupPath (stem : String) : List String → String
  | [] => stem
  | part :: rest => lookupPath (if stem.isEmpty then part else Path.child stem part) rest

theorem lookupPath_eq_join {stem : String} (h : stem ≠ "") (parts : List String) :
    lookupPath stem parts = Path.join (stem :: parts) := by
  induction parts generalizing stem with
  | nil =>
    apply String.toList_injective
    simp [lookupPath, Path.join]
  | cons part rest ih =>
    have hstem : stem.isEmpty = false := by simpa using h
    rw [lookupPath, hstem, if_neg Bool.false_ne_true, ih (Path.child_ne_empty stem part)]
    apply String.toList_injective
    cases rest with
    | nil => simp [Path.join, Path.child]
    | cons next rest => simp [Path.join, Path.child]

theorem lookupPath_append (stem : String) (parts more : List String) :
    lookupPath stem (parts ++ more) = lookupPath (lookupPath stem parts) more := by
  induction parts generalizing stem with
  | nil => rfl
  | cons part rest ih => exact ih _

theorem storageNames_append (stem : String) (parts more : List String) :
    c.storageNames stem (parts ++ more) =
      c.storageNames stem parts ++ c.storageNames (lookupPath stem parts) more := by
  induction parts generalizing stem with
  | nil => rfl
  | cons part rest ih =>
    rw [List.cons_append, storageNames, storageNames, ih, lookupPath, List.cons_append]

theorem storageNames_concat (stem : String) (parts : List String) (last : String) :
    c.storageNames stem (parts ++ [last]) = c.storageNames stem parts ++
      [((c.get? (lookupPath stem (parts ++ [last]))).map (·.storageName)).getD last] := by
  rw [storageNames_append, lookupPath_append]
  rfl

theorem storageNames_ne_nil {parts : List String} (h : parts ≠ []) (stem : String) :
    c.storageNames stem parts ≠ [] := by
  cases parts with
  | nil => exact absurd rfl h
  | cons part rest => exact List.cons_ne_nil _ _

def storedName (path : String) : String :=
  (c.storageNames "" (Path.components path)).getLastD path

theorem storagePath_concat {name : String} (stem : String) (hname : '.' ∉ name.toList) :
    c.storagePath (stem ++ "." ++ name) =
      c.storagePath stem ++ "." ++ c.storedName (stem ++ "." ++ name) := by
  rw [storagePath, storedName, Path.components_eq_append stem hname, storageNames_concat,
    Path.join_append (c.storageNames_ne_nil (Path.components_ne_nil stem) "")
      (List.cons_ne_nil _ _), Path.join_singleton, storagePath]
  simp

theorem storedName_eq {path : String} (hne : path ≠ "") (hdot : path.toList.head? ≠ some '.') :
    c.storedName path = ((c.get? path).map (·.storageName)).getD (Path.name path) := by
  obtain ⟨first, rest, hparts, hfirst⟩ := Path.exists_first_component hne hdot
  have hlookup : lookupPath "" (Path.components path) = path := by
    rw [hparts, lookupPath, if_pos (by decide), lookupPath_eq_join hfirst, ← hparts,
      Path.join_components]
  obtain ⟨front, last, hlast⟩ :=
    (List.eq_nil_or_concat' (Path.components path)).resolve_left (Path.components_ne_nil path)
  have hname : Path.name path = last := by simp [Path.name, hlast]
  rw [hlast] at hlookup
  rw [storedName, hlast, storageNames_concat, hlookup, hname]
  simp

theorem storagePath_child {stem name : String} {field : Field} (hname : '.' ∉ name.toList)
    (hdot : (stem ++ "." ++ name).toList.head? ≠ some '.')
    (hfield : c.get? (stem ++ "." ++ name) = some field) :
    c.storagePath (stem ++ "." ++ name) = c.storagePath stem ++ "." ++ field.storageName := by
  have hne : stem ++ "." ++ name ≠ "" := Path.child_ne_empty stem name
  rw [c.storagePath_concat stem hname, c.storedName_eq hne hdot, hfield]
  rfl

theorem components_storagePath_of_isNested {path : String} {field : Field}
    (hnested : Path.isNested path) (hdot : path.toList.head? ≠ some '.')
    (hfield : c.get? path = some field) :
    Path.components (c.storagePath path) =
      Path.components (c.storagePath (Path.parent path)) ++ Path.components field.storageName := by
  obtain ⟨stem, name, rfl, hname⟩ := Path.exists_child_of_isNested hnested
  rw [Path.parent_child stem hname, c.storagePath_child hname hdot hfield, Path.components_child]

def nameAt (path component : String) : String :=
  ((c.get? path).map (·.storageName)).getD component

theorem nameAt_of_get?_eq_none {path : String} (h : c.get? path = none) (component : String) :
    c.nameAt path component = component := by
  rw [nameAt, h]
  rfl

theorem isAbove_storagePath {stem path : String} (h : Path.IsAbove stem path) :
    Path.IsAbove (c.storagePath stem) (c.storagePath path) := by
  obtain ⟨rest, rfl⟩ := h
  let lookup := lookupPath "" (Path.components stem)
  have hstem := c.storageNames_ne_nil (Path.components_ne_nil stem) ""
  have hrest := c.storageNames_ne_nil (Path.components_ne_nil rest) lookup
  refine ⟨Path.join (c.storageNames lookup (Path.components rest)), ?_⟩
  rw [storagePath, storagePath, Path.components_child, storageNames_append,
    Path.join_append hstem hrest]

theorem storageNames_eq_mapIdx (stem : String) (parts : List String) :
    c.storageNames stem parts =
      parts.mapIdx fun i part => c.nameAt (lookupPath stem (parts.take (i + 1))) part := by
  -- The first part joins the stem, and the names of the others are looked up below that.
  induction parts generalizing stem with
  | nil => rfl
  | cons part rest ih =>
    rw [storageNames, ih, List.mapIdx_cons]
    simp only [List.take_succ_cons, List.take_zero, lookupPath]
    rfl

theorem lookupPath_take {path : String} (hne : path ≠ "") (hdot : path.toList.head? ≠ some '.')
    (count : Nat) :
    lookupPath "" ((Path.components path).take (count + 1)) =
      Path.join ((Path.components path).take (count + 1)) := by
  obtain ⟨first, rest, hparts, hfirst⟩ := Path.exists_first_component hne hdot
  rw [hparts, List.take_succ_cons, lookupPath, if_pos (by decide), lookupPath_eq_join hfirst]

theorem storagePath_eq_join_mapIdx {path : String} (hne : path ≠ "")
    (hdot : path.toList.head? ≠ some '.') :
    c.storagePath path = Path.join ((Path.components path).mapIdx fun i part =>
      c.nameAt (Path.join ((Path.components path).take (i + 1))) part) := by
  rw [storagePath, storageNames_eq_mapIdx]
  simp only [lookupPath_take hne hdot]

theorem storagePath_eq_self {path : String} (hne : path ≠ "") (hdot : path.toList.head? ≠ some '.')
    (h : ∀ stem, stem = path ∨ Path.IsAbove stem path → c.get? stem = none) :
    c.storagePath path = path := by
  have hname (i : Nat) (part : String) :
      c.nameAt (Path.join ((Path.components path).take (i + 1))) part = part :=
    c.nameAt_of_get?_eq_none (h _ (Path.join_take_eq_or_isAbove path i.succ_pos)) part
  have hnames : ((Path.components path).mapIdx fun i part =>
      c.nameAt (Path.join ((Path.components path).take (i + 1))) part) = Path.components path := by
    simp only [hname]
    exact List.mapIdx_eq_iff.2 fun i => (Option.map_id_apply).symm
  rw [storagePath_eq_join_mapIdx c hne hdot, hnames, Path.join_components]

/-- Each component of a path is stored under the name that the path up to it gives it. So what is
added to a path is added to its storage path, paths stay below each other, and a path keeps its
names where none of its prefixes is a field. -/
theorem storagePath_is_compositional (c : Catalog) {path : String} (hne : path ≠ "")
    (hdot : path.toList.head? ≠ some '.') :
    c.storagePath path = Path.join ((Path.components path).mapIdx fun i part =>
      c.nameAt (Path.join ((Path.components path).take (i + 1))) part) ∧
    (∀ name, '.' ∉ name.toList → c.storagePath (path ++ "." ++ name) =
      c.storagePath path ++ "." ++ c.nameAt (path ++ "." ++ name) name) ∧
    (∀ stem, Path.IsAbove stem path → Path.IsAbove (c.storagePath stem) (c.storagePath path)) ∧
    ((∀ stem, stem = path ∨ Path.IsAbove stem path → c.get? stem = none) →
      c.storagePath path = path) := by
  refine ⟨c.storagePath_eq_join_mapIdx hne hdot, ?_, fun stem => c.isAbove_storagePath,
    c.storagePath_eq_self hne hdot⟩
  intro name hname
  have hchild : path ++ "." ++ name ≠ "" := Path.child_ne_empty path name
  have hhead : (path ++ "." ++ name).toList.head? = path.toList.head? := Path.head?_child hne name
  have hlast : Path.name (path ++ "." ++ name) = name := Path.name_child path hname
  rw [c.storagePath_concat path hname, c.storedName_eq hchild (hhead ▸ hdot), hlast, nameAt]

def cameras : Catalog :=
  Catalog.empty.insertAll [{ Field.ofPath "info" .embedded with storageName := "meta" },
    Field.ofPath "info.camera.id" .objectId]

theorem storagePath_is_compositional_cameras :
    cameras.storagePath "info.camera.id" = "meta.camera._id" ∧
    cameras.storagePath ("info.camera" ++ "." ++ "id") =
      cameras.storagePath "info.camera" ++ "." ++ "_id" ∧
    Path.IsAbove (cameras.storagePath "info") (cameras.storagePath "info.camera") ∧
    cameras.storagePath "camera" = "camera" := by
  have hnotNested : ¬Path.isNested "camera" := by decide
  obtain ⟨hnames, -, -, -⟩ := cameras.storagePath_is_compositional
    (by decide : "info.camera.id" ≠ "") (by decide)
  obtain ⟨-, hchild, habove, -⟩ := cameras.storagePath_is_compositional
    (by decide : "info.camera" ≠ "") (by decide)
  obtain ⟨-, -, -, hfree⟩ := cameras.storagePath_is_compositional
    (by decide : "camera" ≠ "") (by decide)
  refine ⟨?_, ?_, habove "info" ⟨"camera", by decide⟩, hfree ?_⟩
  · rw [hnames]
    decide +kernel
  · rw [hchild "id" (by decide)]
    decide +kernel
  · rintro stem (rfl | ⟨rest, h⟩)
    · decide +kernel
    · rw [h] at hnotNested
      exact absurd (by simp [Path.isNested]) hnotNested

end MediaViews.Catalog
