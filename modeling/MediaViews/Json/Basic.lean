import MediaViews.Double.Basic

/-! JSON values. Whole numbers and floating-point numbers are different values, and the members of
an object are kept in order. -/
namespace MediaViews

inductive Json where
  | null
  | bool (value : Bool)
  | int (value : Int)
  | float (value : Double)
  | str (value : String)
  | arr (items : List Json)
  | obj (members : List (String × Json))
  deriving Inhabited

namespace Json

mutual

def decEq : (a b : Json) → Decidable (a = b)
  | .null, b => by
    cases b with
    | null => exact isTrue rfl
    | _ => exact isFalse Json.noConfusion
  | .bool x, b => by
    cases b with
    | bool y => exact decidable_of_iff (x = y) (by simp)
    | _ => exact isFalse Json.noConfusion
  | .int x, b => by
    cases b with
    | int y => exact decidable_of_iff (x = y) (by simp)
    | _ => exact isFalse Json.noConfusion
  | .float x, b => by
    cases b with
    | float y => exact decidable_of_iff (x = y) (by simp)
    | _ => exact isFalse Json.noConfusion
  | .str x, b => by
    cases b with
    | str y => exact decidable_of_iff (x = y) (by simp)
    | _ => exact isFalse Json.noConfusion
  | .arr xs, b => by
    cases b with
    | arr ys => exact @decidable_of_iff _ (xs = ys) (by simp) (itemsDecEq xs ys)
    | _ => exact isFalse Json.noConfusion
  | .obj xs, b => by
    cases b with
    | obj ys => exact @decidable_of_iff _ (xs = ys) (by simp) (membersDecEq xs ys)
    | _ => exact isFalse Json.noConfusion

def itemsDecEq : (xs ys : List Json) → Decidable (xs = ys)
  | [], [] => isTrue rfl
  | [], _ :: _ => isFalse nofun
  | _ :: _, [] => isFalse nofun
  | x :: xs, y :: ys =>
    match decEq x y, itemsDecEq xs ys with
    | isTrue h, isTrue hs => isTrue (by rw [h, hs])
    | isFalse h, _ => isFalse fun e => h (List.cons.inj e).1
    | _, isFalse hs => isFalse fun e => hs (List.cons.inj e).2

def membersDecEq : (xs ys : List (String × Json)) → Decidable (xs = ys)
  | [], [] => isTrue rfl
  | [], _ :: _ => isFalse nofun
  | _ :: _, [] => isFalse nofun
  | (k, x) :: xs, (l, y) :: ys =>
    match decEq x y, membersDecEq xs ys with
    | isTrue h, isTrue hs => if hk : k = l then isTrue (by rw [hk, h, hs])
      else isFalse fun e => hk (Prod.mk.inj (List.cons.inj e).1).1
    | isFalse h, _ => isFalse fun e => h (Prod.mk.inj (List.cons.inj e).1).2
    | _, isFalse hs => isFalse fun e => hs (List.cons.inj e).2

end

instance : DecidableEq Json := decEq

/-- The object with a member set: a new key goes last, a key in use keeps its place. -/
def setMember (key : String) (value : Json) : List (String × Json) → List (String × Json)
  | [] => [(key, value)]
  | (k, v) :: rest => if k = key then (k, value) :: rest else (k, v) :: setMember key value rest

def ofMembers (members : List (String × Json)) : Json :=
  .obj (members.foldl (fun ms m => setMember m.1 m.2 ms) [])

def get? : Json → String → Option Json
  | .obj members, key => members.lookup key
  | _, _ => none

def ofStrings (values : List String) : Json := .arr (values.map .str)

def ofOption {α : Type} (encode : α → Json) : Option α → Json
  | some a => encode a
  | none => .null

/-- A number that is not finite has no JSON form and becomes `null`. -/
def ofDouble (x : Double) : Json := if x.isFinite then .float x else .null

mutual

/-- Equality up to the order of members, where numbers of different kinds differ and the two zeros
of a floating-point number are equal. -/
def same : Json → Json → Bool
  | .null, .null => true
  | .bool x, .bool y => x == y
  | .int x, .int y => x == y
  | .float x, .float y => x.same y
  | .str x, .str y => x == y
  | .arr xs, .arr ys => sameItems xs ys
  | .obj xs, .obj ys => xs.length == ys.length && sameMembers xs ys
  | _, _ => false

def sameItems : List Json → List Json → Bool
  | [], [] => true
  | x :: xs, y :: ys => same x y && sameItems xs ys
  | _, _ => false

def sameMembers : List (String × Json) → List (String × Json) → Bool
  | [], _ => true
  | (k, x) :: xs, ys =>
    (match ys.lookup k with
    | some y => same x y
    | none => false) && sameMembers xs ys

end

end Json
end MediaViews
