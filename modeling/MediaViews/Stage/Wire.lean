import MediaViews.Path
import MediaViews.Stage.Basic

/-! The written form of stages: a class name beside keyword arguments. -/
namespace MediaViews

inductive StageError where
  | malformed (name : String)
  | invalidId (error : ObjectIdError)
  deriving DecidableEq

namespace StageError

def code : StageError → String
  | malformed _ => "AERO_STAGE_INVALID"
  | invalidId _ => "AERO_STAGE_INVALID_ID"

/-- What the decoder says of a stage is left out: one text stands for all of it. -/
def message : StageError → String
  | malformed name => "Invalid stage '" ++ name ++ "': not a known stage with its arguments"
  | invalidId e => e.message

end StageError

namespace Stage

open Json (ofOption ofStrings withDefault optional)

def countJson (n : UInt64) : Json := .int n.toNat

def keywords : Stage → List (String × Json)
  | matching filter => [("filter", filter)]
  | matchTags tags wanted => [("tags", ofStrings tags), ("bool", .bool wanted)]
  | setField field expr allowMissing =>
    [("field", .str field), ("expr", expr), ("allow_missing", .bool allowMissing)]
  | filterLabels field filter onlyMatches =>
    [("field", .str field), ("filter", filter), ("only_matches", .bool onlyMatches)]
  | filterKeypoints field filter labels onlyMatches =>
    [("field", .str field), ("filter", filter.getD .null), ("labels", ofOption ofStrings labels),
      ("only_matches", .bool onlyMatches)]
  | selectFields names | excludeFields names => [("field_names", ofStrings names)]
  | select ids ordered => [("sample_ids", ofStrings ids), ("ordered", .bool ordered)]
  | selectBy field values ordered =>
    [("field", .str field), ("values", .arr values), ("ordered", .bool ordered)]
  | exclude ids => [("sample_ids", ofStrings ids)]
  | selectGroupSlices slices allowMixed forceMixed =>
    [("slices", ofOption ofStrings slices), ("allow_mixed", .bool allowMixed),
      ("force_mixed", .bool forceMixed)]
  | groupBy key orderBy reverse =>
    [("field_or_expr", .str key), ("order_by", ofOption .str orderBy), ("reverse", .bool reverse)]
  | sortBy key reverse => [("field_or_expr", key), ("reverse", .bool reverse)]
  | sortBySimilarity query count reverse distanceField brainKey =>
    [("query", query), ("k", ofOption countJson count), ("reverse", .bool reverse),
      ("dist_field", ofOption .str distanceField), ("brain_key", ofOption .str brainKey)]
  | limit count => [("limit", countJson count)]
  | skip count => [("skip", countJson count)]
  | take size seed => [("size", countJson size), ("seed", ofOption countJson seed)]
  | shuffle seed => [("seed", ofOption countJson seed)]
  | pipeline steps => [("pipeline", .arr steps)]

def toJson (stage : Stage) : Json :=
  .obj [("_cls", .str stage.className), ("kwargs", .obj stage.keywords)]

def string? (j : Option Json) : Option String := j >>= Json.string?

def strings? (j : Option Json) : Option (List String) := j >>= Json.list? Json.string?

def count? (j : Option Json) : Option UInt64 := j >>= Json.count?

def flag? (default : Bool) : Option Json → Option Bool := withDefault default Json.bool?

def ofKeywords? (className : String) (arg : String → Option Json) : Option Stage :=
  match className with
  | "Match" => do return .matching (← arg "filter")
  | "MatchTags" => do return .matchTags (← strings? (arg "tags")) (← flag? true (arg "bool"))
  | "SetField" => do
    return .setField (← string? (arg "field")) (← arg "expr") (← flag? false (arg "allow_missing"))
  | "FilterLabels" => do
    return .filterLabels (← string? (arg "field")) (← arg "filter")
      (← flag? true (arg "only_matches"))
  | "FilterKeypoints" => do
    return .filterKeypoints (← string? (arg "field")) (← optional some (arg "filter"))
      (← optional (Json.list? Json.string?) (arg "labels")) (← flag? true (arg "only_matches"))
  | "SelectFields" => do return .selectFields (← strings? (arg "field_names"))
  | "ExcludeFields" => do return .excludeFields (← strings? (arg "field_names"))
  | "Select" => do
    return .select (← strings? (arg "sample_ids")) (← flag? false (arg "ordered"))
  | "SelectBy" => do
    return .selectBy (← string? (arg "field")) (← arg "values" >>= Json.list? some)
      (← flag? false (arg "ordered"))
  | "Exclude" => do return .exclude (← strings? (arg "sample_ids"))
  | "SelectGroupSlices" => do
    return .selectGroupSlices (← optional (Json.list? Json.string?) (arg "slices"))
      (← flag? false (arg "allow_mixed")) (← flag? false (arg "force_mixed"))
  | "GroupBy" => do
    return .groupBy (← string? (arg "field_or_expr")) (← optional Json.string? (arg "order_by"))
      (← flag? false (arg "reverse"))
  | "SortBy" => do return .sortBy (← arg "field_or_expr") (← flag? false (arg "reverse"))
  | "SortBySimilarity" => do
    return .sortBySimilarity (← arg "query") (← optional Json.count? (arg "k"))
      (← flag? false (arg "reverse")) (← optional Json.string? (arg "dist_field"))
      (← optional Json.string? (arg "brain_key"))
  | "Limit" => do return .limit (← count? (arg "limit"))
  | "Skip" => do return .skip (← count? (arg "skip"))
  | "Take" => do return .take (← count? (arg "size")) (← optional Json.count? (arg "seed"))
  | "Shuffle" => do return .shuffle (← optional Json.count? (arg "seed"))
  | "Mongo" => do return .pipeline (← arg "pipeline" >>= Json.list? some)
  | _ => none

/-- The name of a class, which in an object may also be the key of one that holds nothing. -/
def className? : Json → Option String
  | .str name => some name
  | .obj [(name, .null)] => some name
  | _ => none

def ofArguments? (className : String) (kwargs : Json) : Option Stage := do
  let members ← kwargs.members?
  ofKeywords? className (members.lookup ·)

/-- A stage is written as an object, or as a pair of its class name, then a plain string, and its
arguments. -/
def decode? : Json → Option Stage
  | .obj members => do
    let className ← members.lookup "_cls" >>= className?
    let kwargs ← members.lookup "kwargs"
    ofArguments? className kwargs
  | .arr [.str className, kwargs] => ofArguments? className kwargs
  | _ => none

def claimedName (j : Json) : String :=
  ((j.get? "_cls").bind Json.string?).getD "<unnamed>"

def ofJson (j : Json) : Except StageError Stage :=
  match decode? j with
  | some stage => .ok stage
  | none => .error (.malformed (claimedName j))

/-- The stage of a class whose name may be qualified by dotted modules. -/
def ofQualified (className : String) (kwargs : Json) : Except StageError Stage :=
  ofJson (.obj [("_cls", .str (Path.name className)), ("kwargs", kwargs)])

end Stage
end MediaViews
