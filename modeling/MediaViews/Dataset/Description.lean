import MediaViews.Json.Reader
import MediaViews.Schema.Catalog
import MediaViews.Schema.MediaType
import MediaViews.Schema.Skeleton

/-! Descriptions of datasets, as they are written in files. -/
namespace MediaViews

structure FieldDescription where
  path : String
  kind : FieldKind
  storageName : Option String
  deriving DecidableEq

structure LabelDescription where
  path : String
  kind : LabelKind
  attributes : SortedMap FieldKind
  deriving DecidableEq

structure DatasetDescription where
  name : String
  mediaType : MediaType
  groupField : Option String
  sliceTypes : SortedMap MediaType
  defaultSlice : Option String
  fields : List FieldDescription
  labels : List LabelDescription
  skeletons : Skeletons
  savedViews : SortedMap (List Json)
  deriving DecidableEq

def SortedMap.toJson {α : Type} (encode : α → Json) (m : SortedMap α) : Json :=
  .obj (m.entries.map fun e => (e.1, encode e.2))

open Json (withDefault optional)

namespace FieldDescription

def toJson (d : FieldDescription) : Json :=
  .obj (("path", .str d.path) :: d.kind.members ++
    match d.storageName with
    | some name => [("db_field", .str name)]
    | none => [])

/-- Only an object tells a field, since the kind's members are spread among the field's own. -/
def ofJson? (j : Json) : Option FieldDescription := do
  let members ← j.members?
  let known ← j.record? ["path", "db_field"]
  return {
    path := ← known "path" >>= Json.string?
    kind := ← FieldKind.ofJson? true (.obj members)
    storageName := ← optional Json.string? (known "db_field") }

def field (d : FieldDescription) : Field :=
  let field := Field.ofPath d.path d.kind
  match d.storageName with
  | some name => { field with storageName := name }
  | none => field

end FieldDescription

namespace LabelDescription

def toJson (d : LabelDescription) : Json :=
  .obj [("path", .str d.path), ("kind", d.kind.toJson),
    ("attributes", d.attributes.toJson FieldKind.toJson)]

def ofJson? (j : Json) : Option LabelDescription := do
  let field ← j.record? ["path", "kind", "attributes"]
  return {
    path := ← field "path" >>= Json.string?
    kind := ← field "kind" >>= LabelKind.ofJson?
    attributes := ← withDefault ∅ (Json.map? (FieldKind.ofJson? false)) (field "attributes") }

end LabelDescription

namespace DatasetDescription

def toJson (d : DatasetDescription) : Json :=
  .obj [("name", .str d.name), ("media_type", d.mediaType.toJson),
    ("group_field", .ofOption .str d.groupField),
    ("group_media_types", d.sliceTypes.toJson MediaType.toJson),
    ("default_group_slice", .ofOption .str d.defaultSlice),
    ("fields", .arr (d.fields.map (·.toJson))), ("labels", .arr (d.labels.map (·.toJson))),
    ("skeletons", d.skeletons.toJson), ("saved_views", d.savedViews.toJson .arr)]

def fieldNames : List String :=
  ["name", "media_type", "group_field", "group_media_types", "default_group_slice", "fields",
    "labels", "skeletons", "saved_views"]

def ofJson? (j : Json) : Option DatasetDescription := do
  let field ← j.record? fieldNames
  return {
    name := ← field "name" >>= Json.string?
    mediaType := ← field "media_type" >>= MediaType.ofJson?
    groupField := ← optional Json.string? (field "group_field")
    sliceTypes := ← withDefault ∅ (Json.map? MediaType.ofJson?) (field "group_media_types")
    defaultSlice := ← optional Json.string? (field "default_group_slice")
    fields := ← withDefault [] (Json.list? FieldDescription.ofJson?) (field "fields")
    labels := ← withDefault [] (Json.list? LabelDescription.ofJson?) (field "labels")
    skeletons := ← withDefault .empty Skeletons.ofJson? (field "skeletons")
    savedViews := ← withDefault ∅ (Json.map? (Json.list? some)) (field "saved_views") }

def skeletonOutline : Json.Outline := .record [("labels", .free), ("edges", .free)]

/-- What a description's text is read for: kinds are read with every member they are written with,
saved stages as values of any shape. -/
def outline : Json.Outline :=
  .record [("name", .verbatim), ("media_type", .verbatim), ("group_field", .verbatim),
    ("group_media_types", .verbatim), ("default_group_slice", .verbatim),
    ("fields", .verbatim),
    ("labels", .entries (.record [("path", .verbatim), ("kind", .verbatim),
      ("attributes", .verbatim)])),
    ("skeletons", .record [("skeletons", .entries skeletonOutline),
      ("default_skeleton", skeletonOutline)]),
    ("saved_views", .entries (.entries .free))]

def ofText? (text : String) : Option DatasetDescription :=
  Json.readAs? outline text >>= ofJson?

end DatasetDescription
end MediaViews
