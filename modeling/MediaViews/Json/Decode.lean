import MediaViews.Double.Rounding
import MediaViews.Json.Basic
import MediaViews.SortedMap

/-! Decoders of JSON values. A record is given as an object, whose unknown members are passed over,
or as an array of its fields in order, of which the last ones may be left out. -/
namespace MediaViews.Json

variable {α : Type}

def bool? : Json → Option Bool
  | .bool b => some b
  | _ => none

def string? : Json → Option String
  | .str s => some s
  | _ => none

def double? : Json → Option Double
  | .float x => some x
  | .int n => some (.ofInt n)
  | _ => none

def count? : Json → Option UInt64
  | .int n => if 0 ≤ n && n < Nat.pow 2 64 then some (UInt64.ofNat n.toNat) else none
  | _ => none

def list? (each : Json → Option α) : Json → Option (List α)
  | .arr items => items.mapM each
  | _ => none

def members? : Json → Option (List (String × Json))
  | .obj members => some members
  | _ => none

def map? (each : Json → Option α) (j : Json) : Option (SortedMap α) := do
  let members ← j.members?
  let pairs ← members.mapM fun m => (each m.2).map (m.1, ·)
  return .ofList pairs

def nullable? (each : Json → Option α) : Json → Option (Option α)
  | .null => some none
  | j => (each j).map some

/-- One of some named values: its name, or an object that holds nothing under its name. -/
def choice? (holdsNothing : Json → Bool) (names : List (String × α)) : Json → Option α
  | .str name => names.lookup name
  | .obj [(name, held)] => if holdsNothing held then names.lookup name else none
  | _ => none

def isNull : Json → Bool
  | .null => true
  | _ => false

def isUnit : Json → Bool
  | .null | .obj [] => true
  | _ => false

/-- The look-up of a record's fields; a field that is written twice fails. -/
def record? (fields : List String) : Json → Option (String → Option Json)
  | .obj members =>
    if fields.all fun f => (members.filter (·.1 == f)).length ≤ 1 then some (members.lookup ·)
    else none
  | .arr items =>
    if items.length ≤ fields.length then some ((fields.zip items).lookup ·) else none
  | _ => none

def withDefault (default : α) (decode : Json → Option α) : Option Json → Option α
  | none => some default
  | some j => decode j

def optional (decode : Json → Option α) : Option Json → Option (Option α) :=
  withDefault none (nullable? decode)

end MediaViews.Json
