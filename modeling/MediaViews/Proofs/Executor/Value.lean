import Mathlib
import MediaViews.Expr.Literal
import MediaViews.Path

/-! Values that documents hold, the order that an executor compares them by, and the values that it
reaches along a path. -/
namespace MediaViews

inductive Value where
  | null
  | bool (value : Bool)
  | int (value : Int)
  | float (value : Double)
  | str (value : String)
  | objectId (value : ObjectId)
  | instant (value : Instant)
  | arr (items : List Value)
  | obj (fields : List (String × Value))
  deriving Inhabited

abbrev Document := List (String × Value)

namespace Value

mutual

def ofLiteral : Literal → Value
  | .null => .null
  | .bool b => .bool b
  | .int n => .int n
  | .float x => .float x
  | .str s => .str s
  | .objectId id => .objectId id
  | .instant t => .instant t
  | .array items => .arr (ofLiterals items)

def ofLiterals : List Literal → List Value
  | [] => []
  | l :: ls => ofLiteral l :: ofLiterals ls

end

theorem ofLiterals_eq_map (ls : List Literal) : ofLiterals ls = ls.map ofLiteral := by
  induction ls with
  | nil => rfl
  | cons l ls ih => rw [ofLiterals, ih, List.map_cons]

def isNull : Value → Bool
  | null => true
  | _ => false

def isList : Value → Bool
  | arr _ => true
  | _ => false

def items : Value → List Value
  | arr items => items
  | _ => []

def string? : Value → Option String
  | str s => some s
  | _ => none

def number? : Value → Option Double
  | int n => some (.ofInt n)
  | float x => some x
  | _ => none

def isNan (v : Value) : Bool := v.number? == some .nan

def isTrue : Value → Bool
  | null => false
  | bool b => b
  | int n => n != 0
  | float x => x.position != some 0
  | _ => true

@[simp] theorem isTrue_bool (b : Bool) : isTrue (.bool b) = b := rfl

theorem eq_null_of_isNull {v : Value} (h : v.isNull) : v = .null := by
  cases v with
  | null => rfl
  | _ => cases h

def rank : Value → Nat
  | null => 0
  | int _ | float _ => 1
  | str _ => 2
  | obj _ => 3
  | arr _ => 4
  | objectId _ => 5
  | bool _ => 6
  | instant _ => 7

mutual

/-- The total order: by type first. Of numbers NaN comes first, lists are compared item by item. -/
def compare : Value → Value → Ordering
  | arr xs, arr ys => compareItems xs ys
  | obj xs, obj ys => compareFields xs ys
  | str a, str b => Ord.compare a b
  | objectId a, objectId b => Ord.compare a.toHex b.toHex
  | bool a, bool b => Ord.compare a b
  | instant a, instant b => Ord.compare a.millis b.millis
  | a, b =>
    match a.number?, b.number? with
    | some x, some y => Ord.compare x.position y.position
    | _, _ => Ord.compare a.rank b.rank

def compareItems : List Value → List Value → Ordering
  | [], [] => .eq
  | [], _ :: _ => .lt
  | _ :: _, [] => .gt
  | x :: xs, y :: ys => (compare x y).then (compareItems xs ys)

def compareFields : List (String × Value) → List (String × Value) → Ordering
  | [], [] => .eq
  | [], _ :: _ => .lt
  | _ :: _, [] => .gt
  | (k, x) :: xs, (l, y) :: ys =>
    ((Ord.compare k l).then (compare x y)).then (compareFields xs ys)

end

def same (a b : Value) : Bool := compare a b == .eq

theorem compare_of_rank_ne {a b : Value} (h : a.rank ≠ b.rank) :
    compare a b = Ord.compare a.rank b.rank := by
  cases a <;> cases b <;> first | rfl | exact absurd rfl h

theorem compare_null (v : Value) : compare v .null = if v.isNull then .eq else .gt := by
  cases v <;> rfl

theorem same_null (v : Value) : same v .null = v.isNull := by
  rw [same, compare_null]
  cases v.isNull <;> rfl

theorem same_str (a b : String) : same (.str a) (.str b) = (a == b) := by
  rw [Bool.eq_iff_iff, same, beq_iff_eq, beq_iff_eq]
  exact Std.LawfulEqOrd.compare_eq_iff_eq (α := String)

theorem swap_ord {α : Type} [Ord α] [Std.OrientedOrd α] (a b : α) :
    (Ord.compare a b).swap = Ord.compare b a := Std.OrientedCmp.eq_swap.symm

mutual

theorem swap_compare : ∀ a b : Value, (compare a b).swap = compare b a
  | .arr xs, b => by
    cases b with
    | arr ys => exact swap_compareItems xs ys
    | _ => rfl
  | .obj xs, b => by
    cases b with
    | obj ys => exact swap_compareFields xs ys
    | _ => rfl
  | .null, b | .bool _, b | .int _, b | .float _, b | .str _, b | .objectId _, b | .instant _, b => by
    cases b <;> first | rfl | exact swap_ord _ _

theorem swap_compareItems : ∀ xs ys : List Value, (compareItems xs ys).swap = compareItems ys xs
  | [], [] | [], _ :: _ | _ :: _, [] => rfl
  | x :: xs, y :: ys => by
    rw [compareItems, compareItems, Ordering.swap_then, swap_compare x y, swap_compareItems xs ys]

theorem swap_compareFields : ∀ xs ys : List (String × Value),
    (compareFields xs ys).swap = compareFields ys xs
  | [], [] | [], _ :: _ | _ :: _, [] => rfl
  | (k, x) :: xs, (l, y) :: ys => by
    rw [compareFields, compareFields, Ordering.swap_then, Ordering.swap_then, swap_ord,
      swap_compare x y, swap_compareFields xs ys]

end

theorem same_comm (a b : Value) : same a b = same b a := by
  rw [same, same, ← swap_compare b a]
  cases compare b a <;> rfl

theorem rank_eq_of_same {a b : Value} (h : same a b) : a.rank = b.rank := by
  by_contra hne
  rw [same, beq_iff_eq, compare_of_rank_ne hne] at h
  exact hne (Std.LawfulEqOrd.compare_eq_iff_eq.1 h)

def get? (v : Value) (name : String) : Option Value :=
  match v with
  | obj fields => fields.lookup name
  | _ => none

def at? : List String → Value → Option Value
  | [], v => some v
  | name :: names, v => (v.get? name).bind (at? names)

/-- What a reference evaluates to: what is missing is null, and of a list the fields of its items
are taken. -/
def valueAt : List String → Value → Value
  | [], v => v
  | name :: names, v =>
    match v with
    | obj fields => valueAt names ((fields.lookup name).getD .null)
    | arr items => valueAt names (.arr (items.map fun item => (item.get? name).getD .null))
    | _ => .null

mutual

/-- Every value that a condition meets at a path, in lists on the way and at its end. -/
def reached : Value → List String → List Value
  | arr items, [] => items
  | arr items, name :: names => reachedItems items (name :: names)
  | obj fields, name :: names => reachedField fields name names
  | v, [] => [v]
  | _, _ :: _ => []

def reachedItems : List Value → List String → List Value
  | [], _ => []
  | v :: vs, names => reached v names ++ reachedItems vs names

def reachedField : List (String × Value) → String → List String → List Value
  | [], _, _ => []
  | (key, v) :: fields, name, names =>
    if name == key then reached v names else reachedField fields name names

end

def crossesList : List String → Value → Bool
  | [], _ => false
  | name :: names, v => v.isList || ((v.get? name).any (crossesList names))

theorem lookup_cons_ite {α : Type} (key name : String) (a : α) (rest : List (String × α)) :
    ((key, a) :: rest).lookup name = if name = key then some a else rest.lookup name := by
  by_cases h : name = key
  · simp [h]
  · simp [List.lookup_cons, beq_false_of_ne h, h]

theorem reachedItems_eq_flatMap (vs : List Value) (names : List String) :
    reachedItems vs names = vs.flatMap (reached · names) := by
  induction vs with
  | nil => rfl
  | cons v vs ih => rw [reachedItems, ih, List.flatMap_cons]

theorem reachedField_eq_lookup (fields : List (String × Value)) (name : String)
    (names : List String) :
    reachedField fields name names = ((fields.lookup name).map (reached · names)).getD [] := by
  induction fields with
  | nil => rfl
  | cons field fields ih =>
    obtain ⟨key, v⟩ := field
    rw [reachedField, lookup_cons_ite]
    by_cases h : name = key <;> simp [h, ih]

theorem reached_nil {v : Value} (h : v.isList = false) : v.reached [] = [v] := by
  cases v <;> first | rfl | cases h

mutual

theorem reached_append {rest : List String} (hrest : rest ≠ []) : ∀ (v : Value) (names : List String),
    v.reached (names ++ rest) = (v.reached names).flatMap (·.reached rest)
  | .arr items, [] => by
    obtain ⟨name, more, rfl⟩ := List.exists_cons_of_ne_nil hrest
    exact reachedItems_eq_flatMap items _
  | .arr items, name :: names => reachedItems_append hrest items (name :: names)
  | .obj fields, [] => by
    rw [List.nil_append, reached_nil rfl, List.flatMap_singleton]
  | .obj fields, name :: names => reachedField_append hrest fields name names
  | .null, names | .bool _, names | .int _, names | .float _, names | .str _, names
  | .objectId _, names | .instant _, names => by
    cases names with
    | nil => rw [List.nil_append, reached_nil rfl, List.flatMap_singleton]
    | cons name names => rfl

theorem reachedItems_append {rest : List String} (hrest : rest ≠ []) :
    ∀ (vs : List Value) (names : List String),
      reachedItems vs (names ++ rest) = (reachedItems vs names).flatMap (·.reached rest)
  | [], _ => rfl
  | v :: vs, names => by
    rw [reachedItems, reachedItems, List.flatMap_append, reached_append hrest v names,
      reachedItems_append hrest vs names]

theorem reachedField_append {rest : List String} (hrest : rest ≠ []) :
    ∀ (fields : List (String × Value)) (name : String) (names : List String),
      reachedField fields name (names ++ rest) =
        (reachedField fields name names).flatMap (·.reached rest)
  | [], _, _ => rfl
  | (key, v) :: fields, name, names => by
    rw [reachedField, reachedField, reached_append hrest v names,
      reachedField_append hrest fields name names]
    split <;> rfl

end

theorem valueAt_null (names : List String) : valueAt names .null = .null := by
  cases names <;> rfl

theorem valueAt_of_not_crossesList {names : List String} {v : Value}
    (h : crossesList names v = false) : valueAt names v = (at? names v).getD .null := by
  induction names generalizing v with
  | nil => rfl
  | cons name names ih =>
    cases v with
    | obj fields =>
      simp only [valueAt, at?, get?, crossesList, isList, Bool.false_or] at h ⊢
      cases hf : fields.lookup name with
      | none => exact valueAt_null names
      | some w =>
        simp only [hf, Option.any_some] at h
        exact ih h
    | arr items => simp [crossesList, isList] at h
    | _ => rfl

theorem reached_append_of_not_crossesList {names : List String} {v : Value}
    (h : crossesList names v = false) (rest : List String) :
    v.reached (names ++ rest) = (at? names v).toList.flatMap (·.reached rest) := by
  induction names generalizing v with
  | nil => exact (List.flatMap_singleton _ _).symm
  | cons name names ih =>
    cases v with
    | obj fields =>
      simp only [List.cons_append, reached, reachedField_eq_lookup, at?, get?]
      simp only [crossesList, isList, Bool.false_or, get?] at h
      cases hf : fields.lookup name with
      | none => rfl
      | some w =>
        simp only [hf, Option.any_some] at h
        exact ih h
    | arr items => simp [crossesList, isList] at h
    | _ => rfl

theorem reached_of_at?_eq {names : List String} {v w : Value} (h : at? names v = some w) :
    v.reached names = w.reached [] := by
  induction names generalizing v with
  | nil =>
    obtain rfl := Option.some.inj h
    rfl
  | cons name names ih =>
    obtain ⟨inner, hinner, hrest⟩ := Option.bind_eq_some_iff.1 h
    cases v with
    | obj fields =>
      rw [get?] at hinner
      rw [reached, reachedField_eq_lookup, hinner, Option.map_some, Option.getD_some, ih hrest]
    | _ => cases hinner

theorem reached_of_at? {names : List String} {v w : Value} (h : at? names v = some w)
    (hw : w.isList = false) : v.reached names = [w] := (reached_of_at?_eq h).trans (reached_nil hw)

theorem reached_of_not_crossesList {names : List String} {v : Value}
    (h : crossesList names v = false) (hend : ∀ w ∈ at? names v, w.isList = false) :
    reached v names = (at? names v).toList := by
  have hreached := reached_append_of_not_crossesList h []
  rw [List.append_nil] at hreached
  rw [hreached]
  cases hat : at? names v with
  | none => rfl
  | some w => exact (List.flatMap_singleton _ _).trans (reached_nil (hend w hat))

end Value

namespace Document

def set (name : String) (value : Value) : Document → Document
  | [] => [(name, value)]
  | (key, v) :: d => if key == name then (key, value) :: d else (key, v) :: set name value d

/-- Sets the value at a path. What stands in its way and is no embedded document is replaced. -/
def assign : List String → Value → Document → Document
  | [], _, d => d
  | [name], value, d => d.set name value
  | name :: names, value, d =>
    match d.lookup name with
    | some (.obj inner) => d.set name (.obj (assign names value inner))
    | _ => d.set name (.obj (assign names value []))

def without (name : String) (d : Document) : Document := d.filter (·.1 != name)

theorem lookup_set (name key : String) (value : Value) (d : Document) :
    (d.set name value).lookup key = if key = name then some value else d.lookup key := by
  induction d with
  | nil => rw [set, Value.lookup_cons_ite]
  | cons field d ih =>
    obtain ⟨k, v⟩ := field
    rw [set]
    by_cases hk : k = name
    · rw [if_pos (beq_iff_eq.2 hk), Value.lookup_cons_ite, Value.lookup_cons_ite, hk]
      split <;> rfl
    · rw [if_neg (by simpa using hk), Value.lookup_cons_ite, Value.lookup_cons_ite, ih]
      by_cases h : key = k
      · simp [h, hk]
      · simp [h]

theorem lookup_without (name key : String) (d : Document) :
    (d.without name).lookup key = if key = name then none else d.lookup key := by
  induction d with
  | nil => simp [without]
  | cons field d ih =>
    obtain ⟨k, v⟩ := field
    rw [without] at ih ⊢
    by_cases hk : k = name
    · rw [List.filter_cons_of_neg (by simpa using hk), ih, Value.lookup_cons_ite, hk]
      split <;> rfl
    · rw [List.filter_cons_of_pos (by simpa using hk), Value.lookup_cons_ite,
        Value.lookup_cons_ite, ih]
      by_cases h : key = k
      · simp [h, hk]
      · simp [h]

theorem set_set (name : String) (v w : Value) (d : Document) :
    (d.set name v).set name w = d.set name w := by
  induction d with
  | nil => simp [set]
  | cons field d ih =>
    obtain ⟨k, u⟩ := field
    simp only [set]
    split <;> simp_all [set]

end Document
end MediaViews
