import MediaViews.Expr.Basic

/-! Conditions that decide whether a whole document is kept. -/
namespace MediaViews

inductive FieldTest where
  | compare (op : Comparison) (value : Literal)
  | isIn (values : List Literal)
  | notIn (values : List Literal)
  | search (pattern : String)
  deriving Inhabited

inductive Query where
  | all (conditions : List Query)
  | any (conditions : List Query)
  | neither (conditions : List Query)
  | field (path : String) (test : FieldTest)
  | expr (e : Expr)
  deriving Inhabited

def FieldTest.toJson : FieldTest → Json
  | compare op value => .obj [(op.operator, value.toJson)]
  | isIn values => .obj [("$in", (Literal.array values).toJson)]
  | notIn values => .obj [("$nin", (Literal.array values).toJson)]
  | search pattern => .obj [("$regex", .str pattern), ("$options", .str "i")]

namespace Query

def compare (path : String) (op : Comparison) (value : Literal) : Query :=
  .field path (.compare op value)

def allOf : List Query → Query
  | [q] => q
  | qs => .all qs

def anyOf : List Query → Query
  | [q] => q
  | qs => .any qs

def not (q : Query) : Query := .neither [q]

mutual

def toJson : Query → Json
  | .all qs => .obj [("$and", .arr (listJson qs))]
  | .any qs => .obj [("$or", .arr (listJson qs))]
  | .neither qs => .obj [("$nor", .arr (listJson qs))]
  | .field path test => .obj [(path, test.toJson)]
  | .expr e => .obj [("$expr", e.toJson)]

def listJson : List Query → List Json
  | [] => []
  | q :: qs => toJson q :: listJson qs

end

end Query
end MediaViews
