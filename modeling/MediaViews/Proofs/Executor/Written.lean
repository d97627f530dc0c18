import MediaViews.Proofs.Calendar
import MediaViews.Proofs.Executor.Basic
import MediaViews.Proofs.Identifier

/-! What the JSON that stages hold means to an executor. It reads the JSON itself, and not the
condition or expression that it was written from. -/
namespace MediaViews

namespace Value

def ofMark? (mark text : String) : Option Value :=
  if mark = "$oid" then (ObjectId.parse text).toOption.map .objectId
  else if mark = "$date" then (Instant.ofText? text).map .instant
  else if mark = "$numberDouble" then
    if text = "NaN" then some (.float .nan)
    else if text = "Infinity" then some (.float (.infinity false))
    else if text = "-Infinity" then some (.float (.infinity true))
    else none
  else none

def ofMarked? : List (String × Json) → Option Value
  | [(mark, .str text)] => ofMark? mark text
  | _ => none

mutual

def ofJson : Json → Value
  | .null => .null
  | .bool b => .bool b
  | .int n => .int n
  | .float x => .float x
  | .str s => .str s
  | .arr items => .arr (ofItems items)
  | .obj members => (ofMarked? members).getD (.obj (ofMembers members))

def ofItems : List Json → List Value
  | [] => []
  | j :: js => ofJson j :: ofItems js

def ofMembers : List (String × Json) → Document
  | [] => []
  | (key, j) :: members => (key, ofJson j) :: ofMembers members

end

end Value

structure Operand where
  written : Json
  whole : Scope → Value
  items : List (Scope → Value)
  members : List (String × (Scope → Value))

namespace Operand

def item (o : Operand) (index : Nat) (σ : Scope) : Value :=
  ((o.items[index]?).map (· σ)).getD .null

def part (o : Operand) (name : String) (σ : Scope) : Value :=
  ((o.members.lookup name).map (· σ)).getD .null

def values (o : Operand) (σ : Scope) : List Value := o.items.map (· σ)

def text (o : Operand) (name default : String) : String :=
  ((o.written.get? name).bind Json.string?).getD default

end Operand

namespace Executor

variable (ex : Executor)

def comparison? (operator : String) : Option Comparison :=
  [.eq, .ne, .gt, .gte, .lt, .lte].find? fun op => op.operator == operator

/-- What an operator makes of its operand. An operator that is not known gives null. -/
def operate (operator : String) (o : Operand) (σ : Scope) : Value :=
  match operator with
  | "$literal" => .ofJson o.written
  | "$and" => .bool ((o.values σ).all Value.isTrue)
  | "$or" => .bool ((o.values σ).any Value.isTrue)
  | "$not" => .bool !(o.item 0 σ).isTrue
  | "$in" => .bool ((o.item 1 σ).items.any (·.same (o.item 0 σ)))
  | "$size" => .int (o.whole σ).items.length
  | "$filter" =>
    match o.part "input" σ with
    | .arr items =>
      .arr (items.filter fun item => (o.part "cond" (σ.bind (o.text "as" "this") item)).isTrue)
    | _ => .null
  | "$map" =>
    match o.part "input" σ with
    | .arr items => .arr (items.map fun item => o.part "in" (σ.bind (o.text "as" "this") item))
    | _ => .null
  | "$reduce" =>
    match o.part "input" σ with
    | .arr items =>
      items.foldl (fun value item => o.part "in" ((σ.bind "value" value).bind "this" item))
        (o.part "initialValue" σ)
    | _ => .null
  | "$concatArrays" => .concat (o.values σ)
  | "$cond" => if (o.part "if" σ).isTrue then o.part "then" σ else o.part "else" σ
  | "$ifNull" => if (o.item 0 σ).isNull then o.item 1 σ else o.item 0 σ
  | "$setUnion" => .arr (Value.distinct ((o.values σ).flatMap Value.items))
  | "$arrayToObject" => .obj (Value.ofPairs (o.whole σ).items)
  | "$arrayElemAt" =>
    match o.item 1 σ with
    | .int index => (o.item 0 σ).elementAt index
    | _ => (o.item 0 σ).elementAt 0
  | "$regexMatch" =>
    .bool (ex.finds (o.text "options" "") (o.text "regex" "") (o.part "input" σ))
  | _ =>
    match comparison? operator with
    | some op => .bool (op.admits ((o.item 0 σ).compare (o.item 1 σ)))
    | none => .null

def isOperator (key : String) : Bool := key.toList.head? == some '$'

/-- A text with two dollar signs refers to a variable, one with a single dollar sign to the
document, and any other stands for itself. -/
def reference (text : String) (σ : Scope) : Value :=
  match text.toList with
  | '$' :: '$' :: rest =>
    let value := σ.var (.ofList (rest.takeWhile (· != '.')))
    match rest.dropWhile (· != '.') with
    | [] => value
    | _ :: path => value.valueAt (Path.components (.ofList path))
  | '$' :: path => (Value.obj σ.document).valueAt (Path.components (.ofList path))
  | _ => .str text

mutual

def denote : Json → Scope → Value
  | .str text, σ => reference text σ
  | .arr items, σ => .arr ((denoteItems items).map (· σ))
  | .obj [(key, operand)], σ =>
    match Value.ofMarked? [(key, operand)] with
    | some v => v
    | none =>
      if isOperator key then
        operate ex key
          ⟨operand, denote operand, denoteOperands (denote operand) operand,
            denoteParts operand⟩ σ
      else .obj [(key, denote operand σ)]
  | .obj members, σ => .obj ((denoteMembers members).map fun m => (m.1, m.2 σ))
  | .null, _ => .null
  | .bool b, _ => .bool b
  | .int n, _ => .int n
  | .float x, _ => .float x

def denoteItems : List Json → List (Scope → Value)
  | [] => []
  | j :: js => denote j :: denoteItems js

def denoteMembers : List (String × Json) → List (String × (Scope → Value))
  | [] => []
  | (key, j) :: members => (key, denote j) :: denoteMembers members

def denoteOperands (whole : Scope → Value) : Json → List (Scope → Value)
  | .arr items => denoteItems items
  | _ => [whole]

def denoteParts : Json → List (String × (Scope → Value))
  | .obj members => denoteMembers members
  | _ => []

end

def fieldTests (condition : Json) : List (String × Json) :=
  match condition with
  | .obj members =>
    if (members.all fun m => isOperator m.1) && (Value.ofMarked? members).isNone then members
    else [("$eq", condition)]
  | _ => [("$eq", condition)]

def meetsTest (met : List Value) (operator : String) (constant : Value) : Bool :=
  match operator with
  | "$in" => constant.items.any (equalsAny met)
  | "$nin" => !constant.items.any (equalsAny met)
  | _ =>
    match comparison? operator with
    | some .eq => equalsAny met constant
    | some .ne => !equalsAny met constant
    | some op => comparesAny met op constant
    | none => false

def meets (met : List Value) (condition : Json) : Bool :=
  let tests := fieldTests condition
  match tests.lookup "$regex" with
  | some pattern =>
    let options := ((tests.lookup "$options").bind Json.string?).getD ""
    met.any (ex.finds options (pattern.string?.getD ""))
  | none => tests.all fun t => meetsTest met t.1 (.ofJson t.2)

mutual

def satisfies : Json → Document → Bool
  | .obj members, d => satisfiesMembers members d
  | _, _ => false

def satisfiesMembers : List (String × Json) → Document → Bool
  | [], _ => true
  | (key, condition) :: members, d =>
    (match key with
    | "$and" => (satisfiesEach condition d).all id
    | "$or" => (satisfiesEach condition d).any id
    | "$nor" => !(satisfiesEach condition d).any id
    | "$expr" => (ex.denote condition ⟨d, []⟩).isTrue
    | path => ex.meets ((Value.obj d).reached (Path.components path)) condition) &&
      satisfiesMembers members d

def satisfiesEach : Json → Document → List Bool
  | .arr conditions, d => satisfiesItems conditions d
  | _, _ => []

def satisfiesItems : List Json → Document → List Bool
  | [], _ => []
  | j :: js, d => satisfies j d :: satisfiesItems js d

end

end Executor
end MediaViews
