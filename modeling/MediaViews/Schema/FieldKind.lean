import MediaViews.Schema.LabelKind

/-! Kinds of fields. -/
namespace MediaViews

inductive FieldKind where
  | bool
  | string
  | objectId
  | int
  | float
  | date
  | dateTime
  | frameSupport
  | dict
  | list (element : FieldKind)
  /-- An embedded document that is no label. -/
  | embedded
  | label (kind : LabelKind)
  deriving DecidableEq, Inhabited

namespace FieldKind

def typeName : FieldKind → String
  | bool => "bool"
  | string => "string"
  | objectId => "object_id"
  | int => "int"
  | float => "float"
  | date => "date"
  | dateTime => "datetime"
  | frameSupport => "frame_support"
  | dict => "dict"
  | list _ => "list"
  | embedded => "embedded"
  | label _ => "label"

def labelKind? : FieldKind → Option LabelKind
  | label kind => some kind
  | _ => none

def element? : FieldKind → Option FieldKind
  | list element => some element
  | _ => none

def isList : FieldKind → Bool
  | list _ => true
  | _ => false

def isLabelList : FieldKind → Bool
  | list (label _) => true
  | _ => false

def isEmbeddedList : FieldKind → Bool
  | list embedded => true
  | _ => false

def isNumeric : FieldKind → Bool
  | int | float => true
  | _ => false

def isTemporal : FieldKind → Bool
  | date | dateTime => true
  | _ => false

def builtinAttributes : LabelKind → List (String × FieldKind)
  | .classification => [("label", string), ("confidence", float)]
  | .detection => [("label", string), ("confidence", float), ("bounding_box", list float)]
  | .polyline => [("label", string), ("confidence", float), ("closed", bool), ("filled", bool)]
  | .keypoint =>
    [("label", string), ("points", list (list float)), ("confidence", list float)]
  | .temporalDetection => [("label", string), ("confidence", float), ("support", frameSupport)]
  | .regression => [("value", float), ("confidence", float)]
  | .segmentation | .heatmap => [("mask_path", string)]
  | .classifications | .detections | .polylines | .keypoints | .temporalDetections => []

inductive Tag where
  | bool | string | objectId | int | float | date | dateTime | frameSupport | dict | list
  | embedded | label
  deriving DecidableEq

namespace Tag

def all : List Tag :=
  [bool, string, objectId, int, float, date, dateTime, frameSupport, dict, list, embedded, label]

def name : Tag → String
  | bool => "bool"
  | string => "string"
  | objectId => "object_id"
  | int => "int"
  | float => "float"
  | date => "date"
  | dateTime => "date_time"
  | frameSupport => "frame_support"
  | dict => "dict"
  | list => "list"
  | embedded => "embedded"
  | label => "label"

def named : List (String × Tag) := all.map fun t => (t.name, t)

/-- Within a part that is read as a whole, a tag may also be given by its place in the list. -/
def ofJson? (buffered : Bool) : Json → Option Tag
  | .str name => named.lookup name
  | .int n => if buffered && 0 ≤ n then all[n.toNat]? else none
  | _ => none

end Tag

def tag : FieldKind → Tag
  | bool => .bool
  | string => .string
  | objectId => .objectId
  | int => .int
  | float => .float
  | date => .date
  | dateTime => .dateTime
  | frameSupport => .frameSupport
  | dict => .dict
  | list _ => .list
  | embedded => .embedded
  | label _ => .label

def ofTag? (tag : Tag) (element : Option FieldKind) (kind : Option LabelKind) : Option FieldKind :=
  match tag with
  | .bool => some bool
  | .string => some string
  | .objectId => some objectId
  | .int => some int
  | .float => some float
  | .date => some date
  | .dateTime => some dateTime
  | .frameSupport => some frameSupport
  | .dict => some dict
  | .list => element.map list
  | .embedded => some embedded
  | .label => kind.map label

def members : FieldKind → List (String × Json)
  | list element => [("type", .str "list"), ("element", .obj (members element))]
  | label kind => [("type", .str "label"), ("label", kind.toJson)]
  | kind => [("type", .str kind.tag.name)]

def toJson (kind : FieldKind) : Json := .obj kind.members

def single? {α : Type} : List (Option α) → Option α
  | [a] => a
  | _ => none

def labelKindOf? : Json → Option LabelKind := Json.choice? Json.isUnit LabelKind.named

/-- The kind that the members of an object tell, given what those named `element` denote. -/
def assemble? (buffered : Bool) (members : List (String × Json))
    (elements : List (Option FieldKind)) : Option FieldKind := do
  let tag ← single? ((members.filter (·.1 == "type")).map fun m => Tag.ofJson? buffered m.2)
  let kind := single? ((members.filter (·.1 == "label")).map fun m => labelKindOf? m.2)
  ofTag? tag (single? elements) kind

mutual

def ofJson? (buffered : Bool) : Json → Option FieldKind
  | .obj members => assemble? buffered members (elementsOf members)
  | .arr [tag] =>
    match Tag.ofJson? buffered tag with
    | some tag => ofTag? tag none none
    | none => none
  | .arr [tag, part] =>
    match Tag.ofJson? buffered tag with
    | some .list => (ofJson? true part).map list
    | some .label => (labelKindOf? part).map label
    | _ => none
  | _ => none

def elementsOf : List (String × Json) → List (Option FieldKind)
  | [] => []
  | (key, j) :: members =>
    if key = "element" then ofJson? true j :: elementsOf members else elementsOf members

end

end FieldKind
end MediaViews
