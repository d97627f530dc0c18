import MediaViews.Schema.Catalog

/-! The label fields that carry tags, and where their tags are stored. -/
namespace MediaViews

inductive TagLevel where
  | sample | frame
  deriving DecidableEq

structure TagSource where
  path : String
  /-- The stored path, counted from the level. -/
  storagePath : String
  level : TagLevel
  listAttribute : Option String
  deriving DecidableEq

namespace TagLevel

def name : TagLevel → String
  | sample => "sample"
  | frame => "frame"

end TagLevel

namespace TagSource

def relativeTagsPath (s : TagSource) : String :=
  match s.listAttribute with
  | some listName => s.storagePath ++ "." ++ listName ++ ".tags"
  | none => s.storagePath ++ ".tags"

def tagsPath (s : TagSource) : String :=
  match s.level with
  | .sample => s.relativeTagsPath
  | .frame => Path.framesStem ++ s.relativeTagsPath

/-- A field is one of frames when its public path and its stored path both begin there. -/
def ofField (c : Catalog) (field : Field) : TagSource :=
  let stored := c.storagePath field.path
  match Path.withinFrame? stored with
  | some relative =>
    if Path.isFrameLevel field.path then ⟨field.path, relative, .frame, field.listAttribute?⟩
    else ⟨field.path, stored, .sample, field.listAttribute?⟩
  | none => ⟨field.path, stored, .sample, field.listAttribute?⟩

def ofCatalog (c : Catalog) : List TagSource :=
  let sources := c.labelFields.map (ofField c)
  sources.filter (·.level == .sample) ++ sources.filter (·.level == .frame)

end TagSource
end MediaViews
