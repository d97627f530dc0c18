import MediaViews.Filter.Error
import MediaViews.Filter.Basic
import MediaViews.Schema.Catalog

/-! What a filter is about: the field at its path, and what the field is an attribute of. Attributes
of the elements of a label list belong to the list and not to its elements. -/
namespace MediaViews

inductive FieldOwner where
  | label (kind : LabelKind)
  | embeddedList
  | other
  deriving DecidableEq

structure FilterTarget where
  path : String
  field : Field
  ownerPath : String
  owner : FieldOwner
  filter : Filter

namespace Catalog

def ownerPath (c : Catalog) (path : String) : String :=
  let parent := Path.parent path
  match c.get? parent with
  | some field => if field.kind.isLabelList then Path.parent parent else parent
  | none => parent

/-- What stands at the path of the owner; a path that owns itself has no owner. -/
def ownerAt (c : Catalog) (path ownerPath : String) : FieldOwner :=
  if ownerPath = path then .other
  else
    match c.get? ownerPath with
    | none => .other
    | some field =>
      match field.kind with
      | .label kind => .label kind
      | kind => if kind.isEmbeddedList then .embeddedList else .other

end Catalog

namespace FilterTarget

def tagsPath : String := "tags"

def isReserved (path : String) : Bool := path == tagsPath || path.toList.head? == some '_'

def ofEntry (c : Catalog) (path : String) (filter : Filter) :
    Except FilterError (Option FilterTarget) :=
  if isReserved path then .ok none
  else
    match c.get? path with
    | none => .error (.unknownField path)
    | some field =>
      let ownerPath := c.ownerPath path
      .ok (some ⟨path, field, ownerPath, c.ownerAt path ownerPath, filter⟩)

def ofFilters (c : Catalog) (filters : Filters) : Except FilterError (List FilterTarget) := do
  let targets ← filters.entries.mapM fun e => ofEntry c e.1 e.2
  return targets.filterMap id

def labelKind? (t : FilterTarget) : Option LabelKind :=
  match t.owner with
  | .label kind => some kind
  | .embeddedList | .other => none

def isLabelAttribute (t : FilterTarget) : Bool := t.labelKind?.isSome

end FilterTarget
end MediaViews
