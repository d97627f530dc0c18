import MediaViews.Double.Shortest
import MediaViews.ObjectId
import MediaViews.Schema.FieldKind

/-! What can be wrong with a filter. A filter that cannot be compiled is refused, since to leave it
out would give the client more documents than it asked for. -/
namespace MediaViews

inductive FilterMisfit where
  | notFilterable
  | rangeNeeded
  | valuesNeeded
  | pointRangeNeeded
  | tagValuesNeeded
  deriving DecidableEq

inductive FilterError where
  | unknownField (path : String)
  | unsupported (path : String) (kind : FieldKind) (misfit : FilterMisfit)
  | unsupportedPoints (path : String) (kind : FieldKind)
  | missingSkeleton (path : String)
  | invalidTimestamp (path : String) (value : Double)
  | invalidId (error : ObjectIdError)
  deriving DecidableEq

namespace FilterMisfit

def reason : FilterMisfit → String
  | notFilterable => "field kind cannot be filtered"
  | rangeNeeded => "numeric filters need a range or non-finite flags"
  | valuesNeeded => "value filters need `values` (or `search` on strings)"
  | pointRangeNeeded => "numeric keypoint attributes need a range"
  | tagValuesNeeded => "label tag filters need `values`"

end FilterMisfit

namespace FilterError

def code : FilterError → String
  | unknownField .. => "AERO_VIEW_UNKNOWN_FIELD"
  | unsupported .. => "AERO_VIEW_UNSUPPORTED_FILTER"
  | unsupportedPoints .. => "AERO_VIEW_UNSUPPORTED_KEYPOINT_ATTRIBUTE"
  | missingSkeleton .. => "AERO_VIEW_MISSING_SKELETON"
  | invalidTimestamp .. => "AERO_VIEW_INVALID_TIMESTAMP"
  | invalidId _ => "AERO_VIEW_INVALID_ID"

def path? : FilterError → Option String
  | unknownField path | unsupported path .. | unsupportedPoints path _ | missingSkeleton path
  | invalidTimestamp path _ => some path
  | invalidId _ => none

def timestampLayout : DecimalLayout where
  positional _ := true
  keepsPoint := false
  nan := "NaN"
  infinity := "inf"

def message : FilterError → String
  | unknownField path => "Unknown field '" ++ path ++ "'"
  | unsupported path kind misfit =>
    "Unsupported filter on '" ++ path ++ "' (" ++ kind.typeName ++ "): " ++ misfit.reason
  | unsupportedPoints path kind =>
    "Unsupported keypoint list field '" ++ path ++ "' of type " ++ kind.typeName
  | missingSkeleton path => "No skeleton found for keypoint field '" ++ path ++ "'"
  | invalidTimestamp path value =>
    "Invalid timestamp " ++ String.ofList (timestampLayout.write value) ++ " for '" ++ path ++ "'"
  | invalidId e => e.message

end FilterError
end MediaViews
