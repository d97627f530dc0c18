import MediaViews.Path
import MediaViews.Schema.FieldKind

/-! Fields of a schema: where they are, of what kind, and under which name they are stored. -/
namespace MediaViews

structure Field where
  path : String
  kind : FieldKind
  storageName : String
  deriving DecidableEq, Inhabited

namespace Field

/-- A field is stored under its own name, but `id` is stored as `_id`. -/
def ofPath (path : String) (kind : FieldKind) : Field :=
  let name := Path.name path
  ⟨path, kind, if name = "id" then "_id" else name⟩

def name (field : Field) : String := Path.name field.path

def isLabel (field : Field) : Bool := field.kind.labelKind?.isSome

def isListOfLabels (field : Field) : Bool :=
  match field.kind.labelKind? with
  | some kind => kind.isList
  | none => false

def listAttribute? (field : Field) : Option String :=
  field.kind.labelKind?.bind (·.listAttribute?)

def toJson (field : Field) : Json :=
  .obj (("path", .str field.path) :: field.kind.members ++ [("db_field", .str field.storageName)])

def ofJson? (j : Json) : Option Field := do
  let members ← j.members?
  let known ← j.record? ["path", "db_field"]
  let path ← known "path" >>= Json.string?
  let kind ← FieldKind.ofJson? true (.obj members)
  let storageName ← known "db_field" >>= Json.string?
  return ⟨path, kind, storageName⟩

end Field
end MediaViews
