import MediaViews.Proofs.Executor.Value
import MediaViews.Stage.Basic

/-! What expressions evaluate to and which documents satisfy a condition. -/
namespace MediaViews

/-- What stages leave to the executor that runs them. -/
structure Executor where
  search : (options pattern text : String) → Bool
  skeleton : (field : String) → List String
  groupField : String
  /-- Grouping, sorting, sampling, and steps in the executor's own terms. -/
  rearrange : Stage → List Document → List Document
  deriving Inhabited

structure Scope where
  document : Document
  vars : List (String × Value) := []

namespace Scope

def var (σ : Scope) (name : String) : Value := (σ.vars.lookup name).getD .null

def bind (σ : Scope) (name : String) (value : Value) : Scope :=
  { σ with vars := (name, value) :: σ.vars }

def ofThis (d : Document) (element : Value) : Scope := ⟨d, [("this", element)]⟩

end Scope

def Comparison.admits : Comparison → Ordering → Bool
  | eq, o => o == .eq
  | ne, o => o != .eq
  | gt, o => o == .gt
  | gte, o => o != .lt
  | lt, o => o == .lt
  | lte, o => o != .gt

namespace Value

def distinct (vs : List Value) : List Value :=
  (vs.foldl (fun seen v => if seen.any (same · v) then seen else seen ++ [v]) []).insertionSort
    fun a b => compare a b != .gt

def concat (parts : List Value) : Value :=
  if parts.all isList then .arr (parts.flatMap items) else .null

def addPair (d : Document) (pair : Value) : Document :=
  match pair.get? "k" with
  | some (.str key) => d.set key ((pair.get? "v").getD .null)
  | _ => d

def ofPairs (pairs : List Value) : Document := pairs.foldl addPair []

def elementAt (v : Value) (index : Int) : Value :=
  if index < 0 then .null else (v.items[index.toNat]?).getD .null

end Value

namespace Executor

variable (ex : Executor)

def finds (options pattern : String) (v : Value) : Bool :=
  (v.string?).any (ex.search options pattern)

mutual

def eval : Expr → Scope → Value
  | .ref .document none, σ => .obj σ.document
  | .ref .document (some path), σ => (Value.obj σ.document).valueAt (Path.components path)
  | .ref (.var name) none, σ => σ.var name
  | .ref (.var name) (some path), σ => (σ.var name).valueAt (Path.components path)
  | .literal value, _ => .ofLiteral value
  | .all operands, σ => .bool ((evalList operands σ).all Value.isTrue)
  | .any operands, σ => .bool ((evalList operands σ).any Value.isTrue)
  | .negation operand, σ => .bool !(eval operand σ).isTrue
  | .comparison op left right, σ => .bool (op.admits ((eval left σ).compare (eval right σ)))
  | .member needle haystack, σ => .bool ((eval haystack σ).items.any (·.same (eval needle σ)))
  | .size input, σ => .int (eval input σ).items.length
  | .filter input test, σ =>
    match eval input σ with
    | .arr items => .arr (items.filter fun item => (eval test (σ.bind "this" item)).isTrue)
    | _ => .null
  | .map input var body, σ =>
    match eval input σ with
    | .arr items => .arr (items.map fun item => eval body (σ.bind var item))
    | _ => .null
  | .reduce input initial body, σ =>
    match eval input σ with
    | .arr items =>
      items.foldl (fun value item => eval body ((σ.bind "value" value).bind "this" item))
        (eval initial σ)
    | _ => .null
  | .concat lists, σ => .concat (evalList lists σ)
  | .cond test yes no, σ => if (eval test σ).isTrue then eval yes σ else eval no σ
  | .ifNull value fallback, σ =>
    if (eval value σ).isNull then eval fallback σ else eval value σ
  | .present value, σ => .bool ((eval value σ).compare .null == .gt)
  | .distinct input, σ => .arr (Value.distinct (eval input σ).items)
  | .toObject pairs, σ => .obj (Value.ofPairs (eval pairs σ).items)
  | .elementAt input index, σ => (eval input σ).elementAt index
  | .search input pattern, σ => .bool (ex.finds "i" pattern (eval input σ))
  | .object entries, σ => .obj (evalEntries entries σ)

def evalList : List Expr → Scope → List Value
  | [], _ => []
  | e :: es, σ => eval e σ :: evalList es σ

def evalEntries : List (String × Expr) → Scope → List (String × Value)
  | [], _ => []
  | (key, e) :: es, σ => (key, eval e σ) :: evalEntries es σ

end

theorem evalList_eq_map (es : List Expr) (σ : Scope) :
    ex.evalList es σ = es.map (ex.eval · σ) := by
  induction es with
  | nil => rfl
  | cons e es ih => rw [evalList, ih, List.map_cons]

theorem eval_and (a b : Expr) (σ : Scope) :
    (ex.eval (a.and b) σ).isTrue = ((ex.eval a σ).isTrue && (ex.eval b σ).isTrue) := by
  cases a with
  | all operands =>
    simp [Expr.and, eval, evalList_eq_map]
  | _ => simp [Expr.and, eval, evalList]

theorem eval_or (a b : Expr) (σ : Scope) :
    (ex.eval (a.or b) σ).isTrue = ((ex.eval a σ).isTrue || (ex.eval b σ).isTrue) := by
  cases a with
  | any operands =>
    simp [Expr.or, eval, evalList_eq_map]
  | _ => simp [Expr.or, eval, evalList]

/-- Whether some value that was met equals a constant; null is also met where nothing is. -/
def equalsAny (met : List Value) (v : Value) : Bool :=
  if v.isNull then met.isEmpty || met.any Value.isNull else met.any (·.same v)

/-- Whether some value that was met stands in an order to a constant. Only values of one type do,
and NaN never does. -/
def comparesAny (met : List Value) (op : Comparison) (v : Value) : Bool :=
  met.any fun m => m.rank == v.rank && !m.isNan && op.admits (m.compare v)

def passes (met : List Value) : FieldTest → Bool
  | .compare .eq value => equalsAny met (.ofLiteral value)
  | .compare .ne value => !equalsAny met (.ofLiteral value)
  | .compare op value => comparesAny met op (.ofLiteral value)
  | .isIn values => values.any fun l => equalsAny met (.ofLiteral l)
  | .notIn values => !values.any fun l => equalsAny met (.ofLiteral l)
  | .search pattern => met.any (ex.finds "i" pattern)

mutual

def holds : Query → Document → Bool
  | .all qs, d => holdsAll qs d
  | .any qs, d => holdsAny qs d
  | .neither qs, d => !holdsAny qs d
  | .field path test, d => ex.passes ((Value.obj d).reached (Path.components path)) test
  | .expr e, d => (ex.eval e ⟨d, []⟩).isTrue

def holdsAll : List Query → Document → Bool
  | [], _ => true
  | q :: qs, d => holds q d && holdsAll qs d

def holdsAny : List Query → Document → Bool
  | [], _ => false
  | q :: qs, d => holds q d || holdsAny qs d

end

end Executor
end MediaViews
