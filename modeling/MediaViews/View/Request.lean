import MediaViews.Filter.Wire
import MediaViews.Json.Decode
import MediaViews.Schema.MediaType

/-! Requests for views. -/
namespace MediaViews

structure GroupFilter where
  id : Option String := none
  slice : Option String := none
  slices : Option (List String) := none
  deriving DecidableEq, Inhabited

structure SampleFilter where
  group : Option GroupFilter := none
  id : Option String := none
  deriving DecidableEq, Inhabited

structure ViewRequest where
  dataset : String
  /-- A saved view, which makes every other wish void. -/
  viewName : Option String := none
  stages : Option (List Json) := none
  filters : Option Filters := none
  paginated : Bool := false
  extendedStages : Option (List (String × Json)) := none
  sampleFilter : Option SampleFilter := none
  reload : Bool := false
  deriving DecidableEq, Inhabited

structure Extension where
  filters : Option Filters := none
  extendedStages : Option (List (String × Json)) := none
  paginated : Bool := false
  mediaTypes : Option (List MediaType) := none
  deriving Inhabited

open Json (optional withDefault leafFault? nullableFault? listFault?)

namespace GroupFilter

def isEmpty (g : GroupFilter) : Bool := g.id.isNone && g.slice.isNone && g.slices.isNone

def toJson (g : GroupFilter) : Json :=
  .obj [("id", .ofOption .str g.id), ("slice", .ofOption .str g.slice),
    ("slices", .ofOption .ofStrings g.slices)]

def ofJson? (j : Json) : Option GroupFilter := do
  let field ← j.record? ["id", "slice", "slices"]
  return {
    id := ← optional Json.string? (field "id")
    slice := ← optional Json.string? (field "slice")
    slices := ← optional (Json.list? Json.string?) (field "slices") }

def fieldFaults : Json.FieldFaults :=
  let textFault? := leafFault? "a string" Json.string?
  [("id", nullableFault? textFault?), ("slice", nullableFault? textFault?),
    ("slices", nullableFault? (listFault? textFault?))]

def fault? : Json → Option Json.Fault := Json.recordFault? "GroupFilter" fieldFaults

end GroupFilter

namespace SampleFilter

def toJson (s : SampleFilter) : Json :=
  .obj [("group", .ofOption GroupFilter.toJson s.group), ("id", .ofOption .str s.id)]

def ofJson? (j : Json) : Option SampleFilter := do
  let field ← j.record? ["group", "id"]
  return {
    group := ← optional GroupFilter.ofJson? (field "group")
    id := ← optional Json.string? (field "id") }

def fieldFaults : Json.FieldFaults :=
  [("group", nullableFault? GroupFilter.fault?),
    ("id", nullableFault? (leafFault? "a string" Json.string?))]

def fault? : Json → Option Json.Fault := Json.recordFault? "SampleFilter" fieldFaults

end SampleFilter

namespace Filters

def toJson (filters : Filters) : Json := .obj (filters.entries.map fun e => (e.1, e.2.toJson))

def ofJson? : Json → Option Filters := Json.map? Filter.ofJson?

def fault? : Json → Option Json.Fault := Json.mapFault? Filter.fault?

end Filters

namespace ViewRequest

def toJson (r : ViewRequest) : Json :=
  .obj [("dataset", .str r.dataset), ("view_name", .ofOption .str r.viewName),
    ("stages", .ofOption .arr r.stages), ("filters", .ofOption Filters.toJson r.filters),
    ("pagination_data", .bool r.paginated),
    ("extended_stages", .ofOption .obj r.extendedStages),
    ("sample_filter", .ofOption SampleFilter.toJson r.sampleFilter), ("reload", .bool r.reload)]

def fieldNames : List String :=
  ["dataset", "view_name", "stages", "filters", "pagination_data", "extended_stages",
    "sample_filter", "reload"]

def ofJson? (j : Json) : Option ViewRequest := do
  let field ← j.record? fieldNames
  return {
    dataset := ← field "dataset" >>= Json.string?
    viewName := ← optional Json.string? (field "view_name")
    stages := ← optional (Json.list? some) (field "stages")
    filters := ← optional Filters.ofJson? (field "filters")
    paginated := ← withDefault false Json.bool? (field "pagination_data")
    extendedStages := ← optional Json.members? (field "extended_stages")
    sampleFilter := ← optional SampleFilter.ofJson? (field "sample_filter")
    reload := ← withDefault false Json.bool? (field "reload") }

def fieldFaults : Json.FieldFaults :=
  [("dataset", leafFault? "a string" Json.string?),
    ("view_name", nullableFault? (leafFault? "a string" Json.string?)),
    ("stages", nullableFault? (listFault? fun _ => none)),
    ("filters", nullableFault? Filters.fault?),
    ("pagination_data", leafFault? "a boolean" Json.bool?),
    ("extended_stages", nullableFault? (leafFault? "a map" Json.members?)),
    ("sample_filter", nullableFault? SampleFilter.fault?),
    ("reload", leafFault? "a boolean" Json.bool?)]

def writtenFault? : Json → Option Json.Fault := Json.recordFault? "ViewRequest" fieldFaults

/-- What is said where nothing is wrong but that the dataset is left out. No other field has to be
given. -/
def absentDataset : Json → Json.Fault
  | .arr _ => .wrongLength 0 "struct ViewRequest with 8 elements"
  | _ => .missingField "dataset"

def decode (j : Json) : Except Json.Fault ViewRequest :=
  match ofJson? j with
  | some r => .ok r
  | none => .error ((writtenFault? j).getD (absentDataset j))

def needsExtension (r : ViewRequest) : Bool :=
  r.filters.isSome || r.extendedStages.isSome || r.paginated

def extension (r : ViewRequest) (mediaTypes : Option (List MediaType)) : Extension :=
  ⟨r.filters, r.extendedStages, r.paginated, mediaTypes⟩

end ViewRequest
end MediaViews
