import MediaViews.Expr.Literal

/-! Expressions evaluated on one document, or on one element of a list inside a stage that binds
`this`. -/
namespace MediaViews

inductive Comparison where
  | eq | ne | gt | gte | lt | lte
  deriving DecidableEq

def Comparison.operator : Comparison → String
  | eq => "$eq"
  | ne => "$ne"
  | gt => "$gt"
  | gte => "$gte"
  | lt => "$lt"
  | lte => "$lte"

inductive Root where
  | document
  | var (name : String)
  deriving DecidableEq

inductive Expr where
  | ref (root : Root) (path : Option String)
  | literal (value : Literal)
  | all (operands : List Expr)
  | any (operands : List Expr)
  | negation (operand : Expr)
  | comparison (op : Comparison) (left right : Expr)
  | member (needle haystack : Expr)
  | size (input : Expr)
  | filter (input test : Expr)
  | map (input : Expr) (var : String) (body : Expr)
  | reduce (input initial body : Expr)
  | concat (lists : List Expr)
  | cond (test yes no : Expr)
  | ifNull (value fallback : Expr)
  | present (value : Expr)
  | distinct (input : Expr)
  | toObject (pairs : Expr)
  | elementAt (input : Expr) (index : Int)
  | search (input : Expr) (pattern : String)
  | object (entries : List (String × Expr))
  deriving Inhabited

namespace Expr

def field (path : String) : Expr := .ref .document (some path)

def var (name : String) : Expr := .ref (.var name) none

def varField (name path : String) : Expr := .ref (.var name) (some path)

def this : Expr := var "this"

def thisField (path : String) : Expr := varField "this" path

def null : Expr := .literal .null

def ofBool (b : Bool) : Expr := .literal (.bool b)

def ofInt (n : Int) : Expr := .literal (.int n)

def emptyArray : Expr := .literal (.array [])

/-- The attribute of a field or variable; no other expression has attributes. -/
def child : Expr → String → Expr
  | .ref root none, name => .ref root (some name)
  | .ref root (some path), name => .ref root (some (path ++ "." ++ name))
  | e, _ => e

def eq (a b : Expr) : Expr := .comparison .eq a b
def ne (a b : Expr) : Expr := .comparison .ne a b
def gt (a b : Expr) : Expr := .comparison .gt a b
def gte (a b : Expr) : Expr := .comparison .gte a b
def lt (a b : Expr) : Expr := .comparison .lt a b
def lte (a b : Expr) : Expr := .comparison .lte a b

def isIn (e : Expr) (values : List Literal) : Expr := .member e (.literal (.array values))

def and : Expr → Expr → Expr
  | .all operands, e => .all (operands ++ [e])
  | a, b => .all [a, b]

def or : Expr → Expr → Expr
  | .any operands, e => .any (operands ++ [e])
  | a, b => .any [a, b]

def extend (a b : Expr) : Expr := .concat [a, b]

def orEmpty (list : Expr) : Expr := .ifNull list emptyArray

/-- A constant that could be read as an expression is quoted. -/
def literalJson : Literal → Json
  | .str s => if s.toList.head? = some '$' then .obj [("$literal", .str s)] else .str s
  | .array items => .obj [("$literal", (Literal.array items).toJson)]
  | value => value.toJson

mutual

def toJson : Expr → Json
  | .ref .document none => .str "$"
  | .ref .document (some path) => .str ("$" ++ path)
  | .ref (.var name) none => .str ("$$" ++ name)
  | .ref (.var name) (some path) => .str ("$$" ++ name ++ "." ++ path)
  | .literal value => literalJson value
  | .all operands => .obj [("$and", .arr (listJson operands))]
  | .any operands => .obj [("$or", .arr (listJson operands))]
  | .negation operand => .obj [("$not", .arr [toJson operand])]
  | .comparison op left right => .obj [(op.operator, .arr [toJson left, toJson right])]
  | .member needle haystack => .obj [("$in", .arr [toJson needle, toJson haystack])]
  | .size input => .obj [("$size", toJson input)]
  | .filter input test =>
    .obj [("$filter", .obj [("input", toJson input), ("as", .str "this"), ("cond", toJson test)])]
  | .map input var body =>
    .obj [("$map", .obj [("input", toJson input), ("as", .str var), ("in", toJson body)])]
  | .reduce input initial body =>
    .obj [("$reduce",
      .obj [("input", toJson input), ("initialValue", toJson initial), ("in", toJson body)])]
  | .concat lists => .obj [("$concatArrays", .arr (listJson lists))]
  | .cond test yes no =>
    .obj [("$cond", .obj [("if", toJson test), ("then", toJson yes), ("else", toJson no)])]
  | .ifNull value fallback => .obj [("$ifNull", .arr [toJson value, toJson fallback])]
  | .present value => .obj [("$gt", .arr [toJson value, .null])]
  | .distinct input => .obj [("$setUnion", .arr [toJson input])]
  | .toObject pairs => .obj [("$arrayToObject", toJson pairs)]
  | .elementAt input index => .obj [("$arrayElemAt", .arr [toJson input, .int index])]
  | .search input pattern =>
    .obj [("$regexMatch",
      .obj [("input", toJson input), ("regex", .str pattern), ("options", .str "i")])]
  | .object entries => .ofMembers (entriesJson entries)

def listJson : List Expr → List Json
  | [] => []
  | e :: es => toJson e :: listJson es

def entriesJson : List (String × Expr) → List (String × Json)
  | [] => []
  | (key, e) :: es => (key, toJson e) :: entriesJson es

end

end Expr
end MediaViews
