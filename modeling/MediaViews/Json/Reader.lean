import MediaViews.Json.Tree

/-! Reading JSON text into values. Text is read along an outline of what is wanted from it: the
members that a record does not know are passed over, whatever they denote. -/
namespace MediaViews.Json

inductive Outline where
  /-- A value of any shape, in which a repeated member counts once, with its last value. -/
  | free
  /-- A value of any shape with every member it is written with. -/
  | verbatim
  | record (fields : List (String × Outline))
  | entries (each : Outline)

namespace Outline

def item : Outline → Nat → Outline
  | free, _ => free
  | verbatim, _ => verbatim
  | record fields, i => (fields[i]?.map (·.2)).getD free
  | entries each, _ => each

def member? : Outline → String → Option Outline
  | free, _ => some free
  | verbatim, _ => some verbatim
  | record fields, key => fields.lookup key
  | entries each, _ => some each

def collect : Outline → List (String × Json) → Json
  | free, members => .ofMembers members
  | _, members => .obj members

end Outline

def maxDepth : Nat := 127

namespace Tree

mutual

def read (room : Nat) (outline : Outline) : Tree → Option Json
  | leaf value => value
  | array items =>
    match room with
    | 0 => none
    | room + 1 => (readItems room outline 0 items).map .arr
  | object members =>
    match room with
    | 0 => none
    | room + 1 => (readMembers room outline members).map outline.collect

def readItems (room : Nat) (outline : Outline) (index : Nat) : List Tree → Option (List Json)
  | [] => some []
  | item :: items => do
    let value ← read room (outline.item index) item
    let values ← readItems room outline (index + 1) items
    return value :: values

def readMembers (room : Nat) (outline : Outline) :
    List (Option String × Tree) → Option (List (String × Json))
  | [] => some []
  | (none, _) :: _ => none
  | (some key, item) :: members =>
    match outline.member? key with
    | some inner => do
      let value ← read room inner item
      let values ← readMembers room outline members
      return (key, value) :: values
    | none => readMembers room outline members

end

end Tree

def readAs? (outline : Outline) (text : String) : Option Json := do
  let tree ← Tree.ofText? text
  tree.read maxDepth outline

def parse? (text : String) : Option Json := readAs? .free text

end MediaViews.Json
