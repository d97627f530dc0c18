import MediaViews.Schema.Field
import MediaViews.SortedMap

/-! Catalogs: the fields of a dataset by path, in ascending order of paths. -/
namespace MediaViews

structure Catalog where
  fields : SortedMap Field
  path_eq : ∀ e ∈ fields.entries, e.2.path = e.1
  deriving DecidableEq

namespace Catalog

def empty : Catalog := ⟨∅, nofun⟩

instance : EmptyCollection Catalog := ⟨empty⟩
instance : Inhabited Catalog := ⟨empty⟩

def insert (c : Catalog) (field : Field) : Catalog where
  fields := c.fields.insert field.path field
  path_eq e he := by
    rcases SortedMap.mem_insertEntry he with rfl | he
    · rfl
    · exact c.path_eq e he

def insertAll (c : Catalog) (fields : List Field) : Catalog := fields.foldl insert c

def attributesOf (kind : LabelKind) (declared : List (String × FieldKind)) :
    List (String × FieldKind) :=
  ("id", .objectId) :: ("tags", .list .string) :: FieldKind.builtinAttributes kind ++ declared

/-- The fields that a label field brings along: itself, for a list of labels the list of elements,
and the attributes of the label or of the elements. -/
def labelExpansion (path : String) (kind : LabelKind) (declared : List (String × FieldKind)) :
    List Field :=
  let label := Field.ofPath path (.label kind)
  match kind.elements? with
  | some (listName, element) =>
    let elements := Path.child path listName
    label :: .ofPath elements (.list (.label element)) ::
      (attributesOf element declared).map fun a => .ofPath (Path.child elements a.1) a.2
  | none => label :: (attributesOf kind declared).map fun a => .ofPath (Path.child path a.1) a.2

def insertLabel (c : Catalog) (path : String) (kind : LabelKind)
    (declared : List (String × FieldKind)) : Catalog :=
  c.insertAll (labelExpansion path kind declared)

def size (c : Catalog) : Nat := c.fields.size

def get? (c : Catalog) (path : String) : Option Field := c.fields.get? path

def all (c : Catalog) : List Field := c.fields.values

def documentFields (c : Catalog) (nested : Bool) : List Field :=
  c.all.filter fun f => !Path.isFrameLevel f.path && (nested || !Path.isNested f.path)

def frameFields (c : Catalog) (nested : Bool) : List Field :=
  c.all.filter fun f =>
    Path.isFrameLevel f.path && (nested || !Path.isNested (Path.withinLevel f.path))

def labelFields (c : Catalog) : List Field := c.all.filter (·.isLabel)

/-- The stored names of the components that follow `stem`, each looked up by the path up to it. -/
def storageNames (c : Catalog) (stem : String) : List String → List String
  | [] => []
  | component :: rest =>
    let path := if stem.isEmpty then component else Path.child stem component
    ((c.get? path).map (·.storageName)).getD component :: c.storageNames path rest

def storagePath (c : Catalog) (path : String) : String :=
  Path.join (c.storageNames "" (Path.components path))

end Catalog
end MediaViews
