import MediaViews.Json.Decode
import MediaViews.Json.Printer
import MediaViews.Text.Quoted

/-! What keeps a JSON value from being decoded. A value is looked at in the order in which it is
written, so of several faults in it the first one is told. -/
namespace MediaViews.Json

inductive Fault where
  | wrongType (found : Json) (expected : String)
  | wrongLength (length : Nat) (expected : String)
  | repeatedField (name : String)
  | missingField (name : String)
  deriving DecidableEq

/-- A value as faults show it. Of lists and objects no more than that is told. -/
def description : Json → String
  | .null => "null"
  | .bool b => "boolean `" ++ toString b ++ "`"
  | .int n => "integer `" ++ toString n ++ "`"
  | .float x => "floating point `" ++ render (.float x) ++ "`"
  | .str s => "string " ++ Text.quoted '"' s.toList
  | .arr _ => "sequence"
  | .obj _ => "map"

def Fault.reason : Fault → String
  | wrongType found expected => "invalid type: " ++ found.description ++ ", expected " ++ expected
  | wrongLength length expected =>
    "invalid length " ++ toString length ++ ", expected " ++ expected
  | repeatedField name => "duplicate field `" ++ name ++ "`"
  | missingField name => "missing field `" ++ name ++ "`"

def leafFault? {α : Type} (expected : String) (decode : Json → Option α) (j : Json) :
    Option Fault :=
  if (decode j).isSome then none else some (.wrongType j expected)

def nullableFault? (fault? : Json → Option Fault) : Json → Option Fault
  | .null => none
  | j => fault? j

def listFault? (fault? : Json → Option Fault) : Json → Option Fault
  | .arr items => items.findSome? fault?
  | j => some (.wrongType j "a sequence")

def mapFault? (fault? : Json → Option Fault) : Json → Option Fault
  | .obj members => members.findSome? fun m => fault? m.2
  | j => some (.wrongType j "a map")

def excess (length : Nat) : Fault := .wrongLength length "fewer elements in array"

abbrev FieldFaults := List (String × (Json → Option Fault))

/-- The fault of a member, where the keys of those in front of it are given. -/
def memberFault? (fields : FieldFaults) (seen : List String) (m : String × Json) : Option Fault :=
  (fields.lookup m.1).bind fun fault? =>
    if m.1 ∈ seen then some (.repeatedField m.1) else fault? m.2

def membersFault? (fields : FieldFaults) : List String → List (String × Json) → Option Fault
  | _, [] => none
  | seen, m :: rest => (memberFault? fields seen m).or (membersFault? fields (m.1 :: seen) rest)

def itemsFault? (fields : FieldFaults) (items : List Json) : Option Fault :=
  (fields.zip items).findSome? fun (field, item) => field.2 item

def recordFault? (name : String) (fields : FieldFaults) : Json → Option Fault
  | .obj members => membersFault? fields [] members
  | .arr items =>
    (itemsFault? fields items).or
      (if items.length ≤ fields.length then none else some (excess items.length))
  | j => some (.wrongType j ("struct " ++ name))

end MediaViews.Json
