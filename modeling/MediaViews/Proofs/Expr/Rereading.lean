import MediaViews.Proofs.Executor.Rendering

/-! Expressions read back from what is written for them. A test for presence comes back as the
comparison with null that it is written as, and every other expression comes back as it is. -/
namespace MediaViews

namespace Value

mutual

def literal? : Value → Option Literal
  | .null => some .null
  | .bool b => some (.bool b)
  | .int n => some (.int n)
  | .float x => some (.float x)
  | .str s => some (.str s)
  | .objectId id => some (.objectId id)
  | .instant t => some (.instant t)
  | .arr items => (literals? items).map .array
  | .obj _ => none

def literals? : List Value → Option (List Literal)
  | [] => some []
  | v :: vs => do return (← literal? v) :: (← literals? vs)

end

mutual

theorem literal?_ofLiteral : ∀ l : Literal, (ofLiteral l).literal? = some l
  | .null | .bool _ | .int _ | .float _ | .str _ | .objectId _ | .instant _ => rfl
  | .array items => by rw [ofLiteral, literal?, literals?_ofLiterals items, Option.map_some]

theorem literals?_ofLiterals : ∀ ls : List Literal, literals? (ofLiterals ls) = some ls
  | [] => rfl
  | l :: ls => by
    rw [ofLiterals, literals?, literal?_ofLiteral l, literals?_ofLiterals ls]
    rfl

end

end Value

namespace Literal

def read? (j : Json) : Option Literal := (Value.ofJson j).literal?

theorem read?_toJson (l : Literal) : read? l.toJson = some l := by
  rw [read?, Value.ofJson_toJson, Value.literal?_ofLiteral]

theorem read?_floatJson (x : Double) : read? (floatJson x) = some (.float x) :=
  read?_toJson (.float x)

end Literal

namespace Expr

open Executor (isOperator comparison?)

structure Operand where
  written : Json
  whole : Option Expr
  items : List (Option Expr)
  members : List (String × Option Expr)

namespace Operand

def item? (o : Operand) (index : Nat) : Option Expr := o.items[index]?.join

def part? (o : Operand) (name : String) : Option Expr := (o.members.lookup name).join

def items? (o : Operand) : Option (List Expr) := o.items.mapM id

theorem items?_of_items_eq {o : Operand} {es : List Expr} (h : o.items = es.map some) :
    o.items? = some es := by
  rw [items?, h]
  clear h
  induction es with
  | nil => rfl
  | cons e es ih => rw [List.map_cons, List.mapM_cons, ih]; rfl

def text? (o : Operand) (name : String) : Option String := o.written.get? name >>= Json.string?

def index? (o : Operand) : Option Int :=
  match o.written with
  | .arr [_, .int index] => some index
  | _ => none

end Operand

def ofOperator? (operator : String) (o : Operand) : Option Expr :=
  match operator with
  | "$literal" => (Literal.read? o.written).map .literal
  | "$and" => o.items?.map .all
  | "$or" => o.items?.map .any
  | "$not" => (o.item? 0).map .negation
  | "$in" => do return .member (← o.item? 0) (← o.item? 1)
  | "$size" => o.whole.map .size
  | "$filter" => do return .filter (← o.part? "input") (← o.part? "cond")
  | "$map" => do return .map (← o.part? "input") (← o.text? "as") (← o.part? "in")
  | "$reduce" => do
    return .reduce (← o.part? "input") (← o.part? "initialValue") (← o.part? "in")
  | "$concatArrays" => o.items?.map .concat
  | "$cond" => do return .cond (← o.part? "if") (← o.part? "then") (← o.part? "else")
  | "$ifNull" => do return .ifNull (← o.item? 0) (← o.item? 1)
  | "$setUnion" => (o.item? 0).map .distinct
  | "$arrayToObject" => o.whole.map .toObject
  | "$arrayElemAt" => do return .elementAt (← o.item? 0) (← o.index?)
  | "$regexMatch" => do return .search (← o.part? "input") (← o.text? "regex")
  | _ =>
    match comparison? operator with
    | some op => do return .comparison op (← o.item? 0) (← o.item? 1)
    | none => (Literal.read? (.obj [(operator, o.written)])).map .literal

def ofText (text : String) : Expr :=
  match text.toList with
  | '$' :: '$' :: rest =>
    let name := String.ofList (rest.takeWhile (· != '.'))
    match rest.dropWhile (· != '.') with
    | [] => var name
    | _ :: path => varField name (.ofList path)
  | ['$'] => .ref .document none
  | '$' :: path => field (.ofList path)
  | _ => .literal (.str text)

mutual

def read? : Json → Option Expr
  | .str text => some (ofText text)
  | .obj [(key, operand)] =>
    if isOperator key then
      ofOperator? key ⟨operand, read? operand, readItems operand, readParts operand⟩
    else (read? operand).map fun e => .object [(key, e)]
  | .obj members => (readMembers members).map .object
  | .null => some null
  | .bool b => some (ofBool b)
  | .int n => some (ofInt n)
  | .float x => some (.literal (.float x))
  | .arr _ => none

def readItems : Json → List (Option Expr)
  | .arr items => readList items
  | _ => []

def readParts : Json → List (String × Option Expr)
  | .obj members => readEntries members
  | _ => []

def readList : List Json → List (Option Expr)
  | [] => []
  | j :: js => read? j :: readList js

def readEntries : List (String × Json) → List (String × Option Expr)
  | [] => []
  | (key, j) :: members => (key, read? j) :: readEntries members

def readMembers : List (String × Json) → Option (List (String × Expr))
  | [] => some []
  | (key, j) :: members => do return (key, ← read? j) :: (← readMembers members)

end

mutual

/-- The expression with each test for presence spelled out as a comparison with null. -/
def spelled : Expr → Expr
  | .ref root path => .ref root path
  | .literal value => .literal value
  | .all operands => .all (spelledList operands)
  | .any operands => .any (spelledList operands)
  | .negation operand => .negation (spelled operand)
  | .comparison op left right => .comparison op (spelled left) (spelled right)
  | .member needle haystack => .member (spelled needle) (spelled haystack)
  | .size input => .size (spelled input)
  | .filter input test => .filter (spelled input) (spelled test)
  | .map input var body => .map (spelled input) var (spelled body)
  | .reduce input initial body => .reduce (spelled input) (spelled initial) (spelled body)
  | .concat lists => .concat (spelledList lists)
  | .cond test yes no => .cond (spelled test) (spelled yes) (spelled no)
  | .ifNull value fallback => .ifNull (spelled value) (spelled fallback)
  | .present value => (spelled value).gt null
  | .distinct input => .distinct (spelled input)
  | .toObject pairs => .toObject (spelled pairs)
  | .elementAt input index => .elementAt (spelled input) index
  | .search input pattern => .search (spelled input) pattern
  | .object entries => .object (spelledEntries entries)

def spelledList : List Expr → List Expr
  | [] => []
  | e :: es => spelled e :: spelledList es

def spelledEntries : List (String × Expr) → List (String × Expr)
  | [] => []
  | (key, e) :: entries => (key, spelled e) :: spelledEntries entries

end

mutual

/-- Whether no name is taken for something else: the path of a document field is not empty and does
not begin with a dollar sign, the name of a variable has no dot, and the keys of an object differ
and do not begin with a dollar sign. -/
def isLegible : Expr → Bool
  | .ref .document none => true
  | .ref .document (some path) => path != "" && !beginsWithDollar path
  | .ref (.var name) _ => !name.toList.contains '.'
  | .literal _ => true
  | .all operands => listLegible operands
  | .any operands => listLegible operands
  | .negation operand => isLegible operand
  | .comparison _ left right => isLegible left && isLegible right
  | .member needle haystack => isLegible needle && isLegible haystack
  | .size input => isLegible input
  | .filter input test => isLegible input && isLegible test
  | .map input _ body => isLegible input && isLegible body
  | .reduce input initial body => isLegible input && isLegible initial && isLegible body
  | .concat lists => listLegible lists
  | .cond test yes no => isLegible test && isLegible yes && isLegible no
  | .ifNull value fallback => isLegible value && isLegible fallback
  | .present value => isLegible value
  | .distinct input => isLegible input
  | .toObject pairs => isLegible pairs
  | .elementAt input _ => isLegible input
  | .search input _ => isLegible input
  | .object entries => decide (entries.map (·.1)).Nodup && entriesLegible entries

def listLegible : List Expr → Bool
  | [] => true
  | e :: es => isLegible e && listLegible es

def entriesLegible : List (String × Expr) → Bool
  | [] => true
  | (key, e) :: entries => !beginsWithDollar key && isLegible e && entriesLegible entries

end

/-! Texts. -/

theorem ofText_field {path : String} (hne : path ≠ "") (h : beginsWithDollar path = false) :
    ofText ("$" ++ path) = field path := by
  have hlist : ("$" ++ path).toList = '$' :: path.toList := by simp
  rw [ofText, hlist]
  split
  · next rest heq =>
    have hpath := (List.cons.inj heq).2
    simp [beginsWithDollar, hpath] at h
  · next heq =>
    have hpath := (List.cons.inj heq).2
    exact absurd (String.toList_eq_nil_iff.1 hpath) hne
  · next rest _ heq => rw [← (List.cons.inj heq).2, String.ofList_toList]
  · next hnone => exact absurd rfl (hnone path.toList)

theorem ofText_var {name : String} (h : '.' ∉ name.toList) : ofText ("$$" ++ name) = var name := by
  have hlist : ("$$" ++ name).toList = '$' :: '$' :: name.toList := by simp
  have htake := List.takeWhile_eq_self_iff.2 (Executor.ne_dot_of_mem h)
  have hdrop := List.dropWhile_eq_nil_iff.2 (Executor.ne_dot_of_mem h)
  simp only [ofText, hlist, htake, hdrop, String.ofList_toList]

theorem ofText_varField {name : String} (h : '.' ∉ name.toList) (path : String) :
    ofText ("$$" ++ name ++ "." ++ path) = varField name path := by
  have hlist :
      ("$$" ++ name ++ "." ++ path).toList = '$' :: '$' :: (name.toList ++ '.' :: path.toList) := by
    simp
  simp only [ofText, hlist, Executor.takeWhile_ne_dot h, Executor.dropWhile_ne_dot h,
    String.ofList_toList]

theorem ofText_of_head?_ne {text : String} (h : text.toList.head? ≠ some '$') :
    ofText text = .literal (.str text) := by
  unfold ofText
  split
  · next heq => simp [heq] at h
  · next heq => simp [heq] at h
  · next heq => simp [heq] at h
  · rfl

/-! Operators. -/

theorem read?_operator {key : String} (hkey : isOperator key) (operand : Json) :
    read? (.obj [(key, operand)]) =
      ofOperator? key ⟨operand, read? operand, readItems operand, readParts operand⟩ := by
  rw [read?, if_pos hkey]

theorem ofOperator?_comparison (op : Comparison) (o : Operand) :
    ofOperator? op.operator o = do return .comparison op (← o.item? 0) (← o.item? 1) := by
  cases op <;> rfl

theorem read?_marked {mark : String} (h : mark ∈ Value.marks) (j : Json) :
    read? (.obj [(mark, j)]) = (Literal.read? (.obj [(mark, j)])).map literal := by
  simp only [Value.marks, List.mem_cons, List.not_mem_nil, or_false] at h
  rcases h with rfl | rfl | rfl <;> rw [read?_operator (by decide)] <;> rfl

theorem read?_floatJson (x : Double) : read? (Literal.floatJson x) = some (.literal (.float x)) := by
  have hx := Literal.read?_floatJson x
  cases x with
  | nan =>
    rw [Literal.floatJson] at hx ⊢
    rw [read?_marked (by decide), hx, Option.map_some]
  | number negative rank =>
    rw [Literal.floatJson] at hx ⊢
    split
    · rfl
    · next h =>
      rw [if_neg h] at hx
      rw [read?_marked (by decide), hx, Option.map_some]

theorem read?_literalJson (l : Literal) : read? (literalJson l) = some (.literal l) := by
  have hl := Literal.read?_toJson l
  cases l with
  | str s =>
    rw [literalJson]
    split
    · rw [read?_operator (by decide)]
      rfl
    · next h => rw [read?, ofText_of_head?_ne h]
  | array items =>
    rw [literalJson, read?_operator (by decide)]
    show (Literal.read? (Literal.array items).toJson).map literal = _
    rw [hl, Option.map_some]
  | float x => exact read?_floatJson x
  | objectId id =>
    show read? (.obj [("$oid", .str id.toHex)]) = _
    rw [read?_marked (by decide)]
    exact congrArg (Option.map literal) hl
  | instant t =>
    show read? (.obj [("$date", .str t.text)]) = _
    rw [read?_marked (by decide)]
    exact congrArg (Option.map literal) hl
  | _ => rfl

/-! Objects. -/

theorem not_isOperator_of_entriesLegible {entries : List (String × Expr)}
    (h : entriesLegible entries) : ∀ m ∈ entriesJson entries, isOperator m.1 = false := by
  induction entries with
  | nil => exact nofun
  | cons e entries ih =>
    obtain ⟨key, e⟩ := e
    simp only [entriesLegible, Bool.and_eq_true] at h
    intro m hm
    rcases List.mem_cons.1 hm with rfl | hm
    · simpa [beginsWithDollar, isOperator] using h.1.1
    · exact ih h.2 m hm

theorem read?_record {members : List (String × Json)}
    (h : ∀ m ∈ members, isOperator m.1 = false) :
    read? (.obj members) = (readMembers members).map .object := by
  cases members with
  | nil => rfl
  | cons m members =>
    obtain ⟨key, j⟩ := m
    cases members with
    | nil =>
      have hkey : isOperator key = false := h (key, j) List.mem_cons_self
      rw [read?, hkey, if_neg Bool.false_ne_true]
      cases hj : read? j <;> simp [readMembers, hj]
    | cons m' members => rfl

mutual

theorem read?_toJson : ∀ {e : Expr}, e.isLegible → read? e.toJson = some e.spelled
  -- The induction is on expressions. An operand is read by its parts, and these are written for the
  -- parts of the expression.
  | .ref .document none, _ => rfl
  | .ref .document (some path), h => by
    simp only [isLegible, Bool.and_eq_true, bne_iff_ne, Bool.not_eq_true'] at h
    exact congrArg some (ofText_field h.1 h.2)
  | .ref (.var name) none, h => congrArg some (ofText_var (by simpa [isLegible] using h))
  | .ref (.var name) (some path), h =>
    congrArg some (ofText_varField (by simpa [isLegible] using h) path)
  | .literal l, _ => read?_literalJson l
  | .all operands, h => by
    rw [toJson, read?_operator (by decide)]
    exact congrArg (Option.map Expr.all) (Operand.items?_of_items_eq (readList_listJson h))
  | .any operands, h => by
    rw [toJson, read?_operator (by decide)]
    exact congrArg (Option.map Expr.any) (Operand.items?_of_items_eq (readList_listJson h))
  | .negation operand, h => by
    rw [toJson, read?_operator (by decide), readItems, readList, readList,
      read?_toJson (e := operand) h]
    rfl
  | .comparison op left right, h => by
    simp only [isLegible, Bool.and_eq_true] at h
    rw [toJson, read?_operator (by cases op <;> rfl), readItems, readList, readList, readList,
      read?_toJson h.1, read?_toJson h.2, ofOperator?_comparison]
    rfl
  | .member needle haystack, h => by
    simp only [isLegible, Bool.and_eq_true] at h
    rw [toJson, read?_operator (by decide), readItems, readList, readList, readList,
      read?_toJson h.1, read?_toJson h.2]
    rfl
  | .size input, h => by
    rw [toJson, read?_operator (by decide), read?_toJson (e := input) h]
    rfl
  | .filter input test, h => by
    simp only [isLegible, Bool.and_eq_true] at h
    rw [toJson, read?_operator (by decide), readParts]
    simp only [readEntries, read?_toJson h.1, read?_toJson h.2]
    rfl
  | .map input var body, h => by
    simp only [isLegible, Bool.and_eq_true] at h
    rw [toJson, read?_operator (by decide), readParts]
    simp only [readEntries, read?_toJson h.1, read?_toJson h.2]
    rfl
  | .reduce input initial body, h => by
    simp only [isLegible, Bool.and_eq_true] at h
    rw [toJson, read?_operator (by decide), readParts]
    simp only [readEntries, read?_toJson h.1.1, read?_toJson h.1.2, read?_toJson h.2]
    rfl
  | .concat lists, h => by
    rw [toJson, read?_operator (by decide)]
    exact congrArg (Option.map Expr.concat) (Operand.items?_of_items_eq (readList_listJson h))
  | .cond test yes no, h => by
    simp only [isLegible, Bool.and_eq_true] at h
    rw [toJson, read?_operator (by decide), readParts]
    simp only [readEntries, read?_toJson h.1.1, read?_toJson h.1.2, read?_toJson h.2]
    rfl
  | .ifNull value fallback, h => by
    simp only [isLegible, Bool.and_eq_true] at h
    rw [toJson, read?_operator (by decide), readItems, readList, readList, readList,
      read?_toJson h.1, read?_toJson h.2]
    rfl
  | .present value, h => by
    rw [toJson, read?_operator (by decide), readItems, readList, readList, readList,
      read?_toJson (e := value) h]
    rfl
  | .distinct input, h => by
    rw [toJson, read?_operator (by decide), readItems, readList, readList,
      read?_toJson (e := input) h]
    rfl
  | .toObject pairs, h => by
    rw [toJson, read?_operator (by decide), read?_toJson (e := pairs) h]
    rfl
  | .elementAt input index, h => by
    rw [toJson, read?_operator (by decide), readItems, readList, readList, readList,
      read?_toJson (e := input) h]
    rfl
  | .search input pattern, h => by
    rw [toJson, read?_operator (by decide), readParts]
    simp only [readEntries, read?_toJson (e := input) h]
    rfl
  | .object entries, h => by
    simp only [isLegible, Bool.and_eq_true, decide_eq_true_eq] at h
    rw [toJson, Json.ofMembers_of_nodup (by rw [Executor.keys_entriesJson]; exact h.1),
      read?_record (not_isOperator_of_entriesLegible h.2), readMembers_entriesJson h.2,
      Option.map_some, spelled]

theorem readList_listJson : ∀ {es : List Expr}, listLegible es →
    readList (listJson es) = (spelledList es).map some
  | [], _ => rfl
  | e :: es, h => by
    simp only [listLegible, Bool.and_eq_true] at h
    rw [listJson, readList, read?_toJson h.1, readList_listJson h.2, spelledList, List.map_cons]

theorem readMembers_entriesJson : ∀ {entries : List (String × Expr)}, entriesLegible entries →
    readMembers (entriesJson entries) = some (spelledEntries entries)
  | [], _ => rfl
  | (key, e) :: entries, h => by
    simp only [entriesLegible, Bool.and_eq_true] at h
    rw [entriesJson, readMembers, read?_toJson h.1.2, readMembers_entriesJson h.2]
    rfl

end

end Expr
end MediaViews
