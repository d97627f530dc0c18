import MediaViews.Json.Printer
import MediaViews.Log.Severity

/-! Log records, each of which is written as one line of JSON. -/
namespace MediaViews

abbrev LogFields := List (String × String)

structure LogRecord where
  severity : Severity
  event : String
  fields : LogFields
  deriving DecidableEq

namespace LogRecord

/-- The event and the severity, then the fields in key order. A later field replaces an earlier one
of its name where that one stands. -/
def toJson (r : LogRecord) : Json :=
  let ordered := r.fields.mergeSort fun a b => decide (a.1 ≤ b.1)
  .ofMembers (("event", .str r.event) :: ("severity", .str r.severity.name) ::
    ordered.map fun f => (f.1, .str f.2))

def render (r : LogRecord) : String := r.toJson.render

def atLeast (threshold : Severity) (records : List LogRecord) : List LogRecord :=
  records.filter fun r => threshold ≤ r.severity

end LogRecord
end MediaViews
