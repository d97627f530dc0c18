import MediaViews.Json.Decode
import MediaViews.Json.Reader
import MediaViews.View.Error

/-! The configuration of the compiler. -/
namespace MediaViews

structure Config where
  logLevel : String := "info"
  projectDicts : Bool := true
  /-- Excluding label filters drop documents that they leave without labels. -/
  excludeDropsEmpty : Bool := false
  countLabelTags : Bool := true
  deriving DecidableEq, Inhabited

namespace Config

def toJson (c : Config) : Json :=
  .obj [("log_level", .str c.logLevel), ("project_dicts_on_pagination", .bool c.projectDicts),
    ("exclude_drops_empty", .bool c.excludeDropsEmpty),
    ("count_label_tags", .bool c.countLabelTags)]

def fieldNames : List String :=
  ["log_level", "project_dicts_on_pagination", "exclude_drops_empty", "count_label_tags"]

def ofJson? (j : Json) : Option Config := do
  let field ← j.record? fieldNames
  let flag (default : Bool) (name : String) := Json.withDefault default Json.bool? (field name)
  return {
    logLevel := ← Json.withDefault "info" Json.string? (field "log_level")
    projectDicts := ← flag true "project_dicts_on_pagination"
    excludeDropsEmpty := ← flag false "exclude_drops_empty"
    countLabelTags := ← flag true "count_label_tags" }

def outline : Json.Outline := .record (fieldNames.map (·, .verbatim))

def severity (c : Config) : Except ViewError Severity :=
  match Severity.ofName? c.logLevel with
  | some s => .ok s
  | none => .error (.config (.unknownLevel c.logLevel))

def ofFile (content : Except String String) : Except ViewError Config := do
  match content with
  | .error cause => throw (.config (.unreadable cause))
  | .ok text =>
    match Json.readAs? outline text >>= ofJson? with
    | none => throw (.config .malformed)
    | some c =>
      let _ ← c.severity
      return c

end Config
end MediaViews
