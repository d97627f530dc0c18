import MediaViews.Filter.Basic
import MediaViews.Json.Fault

/-! The written form of filters. What is not asked for is left out. -/
namespace MediaViews.Filter

open Json (optional withDefault leafFault? nullableFault? listFault?)

def fieldNames : List String :=
  ["values", "range", "true", "false", "nan", "inf", "ninf", "none", "exclude", "isMatching",
    "search"]

def entry {α : Type} (name : String) (encode : α → Json) : Option α → List (String × Json)
  | some a => [(name, encode a)]
  | none => []

def valuesJson (values : List (Option String)) : Json := .arr (values.map (.ofOption .str))

def rangeJson (range : Double × Double) : Json := .arr [.ofDouble range.1, .ofDouble range.2]

def toJson (f : Filter) : Json :=
  .obj <|
    entry "values" valuesJson f.values ++ entry "range" rangeJson f.range ++
    entry "true" .bool f.includeTrue ++ entry "false" .bool f.includeFalse ++
    entry "nan" .bool f.nan ++ entry "inf" .bool f.inf ++ entry "ninf" .bool f.negInf ++
    entry "none" .bool f.missing ++
    [("exclude", .bool f.exclude), ("isMatching", .bool f.isMatching)] ++
    entry "search" .str f.search

def range? : Json → Option (Double × Double)
  | .arr [min, max] => do return (← min.double?, ← max.double?)
  | _ => none

def ofJson? (j : Json) : Option Filter := do
  let field ← j.record? fieldNames
  return {
    values := ← optional (Json.list? (Json.nullable? Json.string?)) (field "values")
    range := ← optional range? (field "range")
    includeTrue := ← optional Json.bool? (field "true")
    includeFalse := ← optional Json.bool? (field "false")
    nan := ← optional Json.bool? (field "nan")
    inf := ← optional Json.bool? (field "inf")
    negInf := ← optional Json.bool? (field "ninf")
    missing := ← optional Json.bool? (field "none")
    exclude := ← withDefault false Json.bool? (field "exclude")
    isMatching := ← withDefault false Json.bool? (field "isMatching")
    search := ← optional Json.string? (field "search") }

def rangeFault? : Json → Option Json.Fault
  | .arr items =>
    ((items.take 2).findSome? (leafFault? "f64" Json.double?)).or
      (if items.length < 2 then some (.wrongLength items.length "an array of length 2")
      else if items.length = 2 then none
      else some (Json.excess items.length))
  | j => some (.wrongType j "an array of length 2")

def fieldFaults : Json.FieldFaults :=
  let flagFault? := nullableFault? (leafFault? "a boolean" Json.bool?)
  [("values", nullableFault? (listFault? (nullableFault? (leafFault? "a string" Json.string?)))),
    ("range", nullableFault? rangeFault?), ("true", flagFault?), ("false", flagFault?),
    ("nan", flagFault?), ("inf", flagFault?), ("ninf", flagFault?), ("none", flagFault?),
    ("exclude", leafFault? "a boolean" Json.bool?),
    ("isMatching", leafFault? "a boolean" Json.bool?),
    ("search", nullableFault? (leafFault? "a string" Json.string?))]

def fault? : Json → Option Json.Fault := Json.recordFault? "FilterSpec" fieldFaults

end MediaViews.Filter
