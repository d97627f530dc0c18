import MediaViews.Double.Rounding
import MediaViews.Instant
import MediaViews.Json.Printer
import MediaViews.ObjectId

/-! Constants in conditions and expressions. -/
namespace MediaViews

inductive Literal where
  | null
  | bool (value : Bool)
  | int (value : Int)
  | float (value : Double)
  | str (value : String)
  | objectId (value : ObjectId)
  | instant (value : Instant)
  | array (items : List Literal)
  deriving Inhabited

namespace Literal

def nan : Literal := .float .nan

def isNull : Literal → Bool
  | null => true
  | _ => false

/-- A whole number below 2^63 in magnitude counts as an integer. -/
def ofDouble (x : Double) : Literal :=
  match x with
  | .nan => .float x
  | .number _ rank =>
    if x.isFinite && Double.isWhole rank && Double.wholePart rank < Nat.pow 2 63 then .int x.truncate
    else .float x

mutual

/-- An object has no constant of its own and becomes its text. -/
def ofJson : Json → Literal
  | .null => .null
  | .bool b => .bool b
  | .int n => if n < Nat.pow 2 63 then .int n else .float (.ofInt n)
  | .float x => .float x
  | .str s => .str s
  | .arr items => .array (ofItems items)
  | .obj members => .str (Json.obj members).render

def ofItems : List Json → List Literal
  | [] => []
  | j :: js => ofJson j :: ofItems js

end

def floatJson : Double → Json
  | .nan => .obj [("$numberDouble", .str "NaN")]
  | .number negative rank =>
    if rank.val < Double.infinityRank then .float (.number negative rank)
    else .obj [("$numberDouble", .str (if negative then "-Infinity" else "Infinity"))]

mutual

/-- Values that JSON does not have are marked by a member whose name begins with a dollar sign. -/
def toJson : Literal → Json
  | .null => .null
  | .bool b => .bool b
  | .int n => .int n
  | .float x => floatJson x
  | .str s => .str s
  | .objectId id => id.toExtendedJson
  | .instant t => .obj [("$date", .str t.text)]
  | .array items => .arr (itemsJson items)

def itemsJson : List Literal → List Json
  | [] => []
  | l :: ls => toJson l :: itemsJson ls

end

end Literal
end MediaViews
