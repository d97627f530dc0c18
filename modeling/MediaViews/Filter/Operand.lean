import MediaViews.Expr.Literal
import MediaViews.Filter.Basic
import MediaViews.Filter.Error

/-! The constants that a filter compares with. -/
namespace MediaViews

def Sentinel.literal : Sentinel → Literal
  | nan => .nan
  | inf => .float (.infinity false)
  | negInf => .float (.infinity true)
  | missing => .null

namespace Filter

def boundInstant? (value : Double) : Option Instant :=
  if value.isFinite then Instant.ofMillis? value.truncate else none

def boundLiteral (path : String) (kind : FieldKind) (value : Double) :
    Except FilterError Literal :=
  if kind.isTemporal then
    match boundInstant? value with
    | some t => .ok (.instant t)
    | none => .error (.invalidTimestamp path value)
  else if kind = .float then .ok (.float value)
  else .ok (.ofDouble value)

def boundLiterals (path : String) (kind : FieldKind) (range : Double × Double) :
    Except FilterError (Literal × Literal) := do
  let min ← boundLiteral path kind range.1
  let max ← boundLiteral path kind range.2
  return (min, max)

def valueLiteral (kind : FieldKind) (value : String) : Except FilterError Literal :=
  if kind = .objectId then
    match ObjectId.parse value with
    | .ok id => .ok (.objectId id)
    | .error e => .error (.invalidId e)
  else .ok (.str value)

def presentLiterals (kind : FieldKind) (f : Filter) : Except FilterError (List Literal) :=
  f.presentValues.mapM (valueLiteral kind)

def patternSpecials : List Char :=
  ['\\', '.', '+', '*', '?', '(', ')', '|', '[', ']', '\x7b', '\x7d', '^', '$', '#', '&', '-', '~']

def searchPattern (text : String) : String :=
  String.ofList (text.toList.flatMap fun c => if patternSpecials.contains c then ['\\', c] else [c])

end Filter
end MediaViews
