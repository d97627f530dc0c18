import MediaViews.Schema.Catalog

/-! Catalogs put together step by step. A step replaces the fields with the paths that it writes. -/
namespace MediaViews

inductive SchemaStep where
  | field (path : String) (kind : FieldKind)
  | storedField (path : String) (kind : FieldKind) (storageName : String)
  | label (path : String) (kind : LabelKind) (declared : List (String × FieldKind))
  deriving DecidableEq

namespace Catalog

def apply (c : Catalog) : SchemaStep → Catalog
  | .field path kind => c.insert (.ofPath path kind)
  | .storedField path kind storageName =>
    c.insert { Field.ofPath path kind with storageName := storageName }
  | .label path kind declared => c.insertLabel path kind declared

def ofSteps (steps : List SchemaStep) : Catalog := steps.foldl apply ∅

end Catalog
end MediaViews
