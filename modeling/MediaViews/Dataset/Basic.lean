import MediaViews.Dataset.Description
import MediaViews.Text.Blank
import MediaViews.View.Error

/-! Datasets: what compiling a view reads about a collection of documents. -/
namespace MediaViews

structure Dataset where
  name : String
  mediaType : MediaType
  groupField : Option String
  sliceTypes : SortedMap MediaType
  defaultSlice : Option String
  catalog : Catalog
  skeletons : Skeletons
  savedViews : SortedMap (List Json)
  deriving DecidableEq

namespace DatasetDescription

def fault? (d : DatasetDescription) : Option DatasetFault :=
  if Text.isBlank d.name then some .emptyName
  else if d.groupField.isSome && d.sliceTypes.isEmpty then some .slicesNeeded
  else if d.groupField.isNone && !d.sliceTypes.isEmpty then some .slicesWithoutGroup
  else
    match d.defaultSlice with
    | some slice => if d.sliceTypes.contains slice then none else some (.unknownDefaultSlice slice)
    | none => none

/-- Fields first, then labels with what they bring along. -/
def catalog (d : DatasetDescription) : Catalog :=
  d.labels.foldl (fun c l => c.insertLabel l.path l.kind l.attributes.entries)
    (Catalog.empty.insertAll (d.fields.map (·.field)))

end DatasetDescription

namespace Dataset

def plain (name : String) (mediaType : MediaType) (catalog : Catalog) : Dataset where
  name
  mediaType
  groupField := none
  sliceTypes := ∅
  defaultSlice := none
  catalog
  skeletons := .empty
  savedViews := ∅

def grouped (d : Dataset) (field : String) (sliceTypes : SortedMap MediaType)
    (defaultSlice : Option String) : Dataset :=
  { d with mediaType := .group, groupField := some field, sliceTypes, defaultSlice }

def ofDescription (d : DatasetDescription) : Except ViewError Dataset :=
  match d.fault? with
  | some fault => .error (.invalidDataset fault)
  | none => .ok {
      name := d.name
      mediaType := d.mediaType
      groupField := d.groupField
      sliceTypes := d.sliceTypes
      defaultSlice := d.defaultSlice
      catalog := d.catalog
      skeletons := d.skeletons
      savedViews := d.savedViews }

def ofFile (file : String) (content : Except String String) : Except ViewError Dataset :=
  match content with
  | .error cause => .error (.invalidDataset (.unreadable file cause))
  | .ok text =>
    match DatasetDescription.ofText? text with
    | some d => ofDescription d
    | none => .error (.invalidDataset .malformed)

def isGrouped (d : Dataset) : Bool := d.groupField.isSome

def hasFrames (d : Dataset) : Bool :=
  d.mediaType == .video || d.sliceTypes.values.contains .video

def mediaTypes (d : Dataset) : List MediaType :=
  if d.sliceTypes.isEmpty then [d.mediaType] else MediaType.setOf d.sliceTypes.values

def savedView (d : Dataset) (name : String) : Except ViewError (List Json) :=
  match d.savedViews.get? name with
  | some stages => .ok stages
  | none => .error (.savedViewNotFound d.name name)

def summary (d : Dataset) : Json :=
  let dicts := (d.catalog.documentFields true).filter (·.kind == .dict)
  .obj [("name", .str d.name), ("media_type", d.mediaType.toJson),
    ("group_field", .ofOption .str d.groupField),
    ("group_media_types", d.sliceTypes.toJson MediaType.toJson),
    ("fields", .int (d.catalog.documentFields false).length),
    ("frame_fields", .int (d.catalog.frameFields false).length),
    ("label_fields", .ofStrings (d.catalog.labelFields.map (·.path))),
    ("dict_fields", .ofStrings (dicts.map (·.path))),
    ("saved_views", .ofStrings d.savedViews.keys)]

end Dataset

abbrev Library := SortedMap Dataset

namespace Library

/-- A later dataset replaces an earlier one of its name. -/
def ofDatasets (datasets : List Dataset) : Library :=
  .ofList (datasets.map fun d => (d.name, d))

def dataset (library : Library) (name : String) : Except ViewError Dataset :=
  match library.get? name with
  | some d => .ok d
  | none => .error (.datasetNotFound name)

end Library
end MediaViews
