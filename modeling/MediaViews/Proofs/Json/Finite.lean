import MediaViews.Json.Decode
import MediaViews.Json.Reader
import MediaViews.Proofs.Double.Rounding

/-! Every number of a value that was read from a text is finite, since a number past every finite
one denotes nothing, and a whole number is read as such only where it has 64 bits. -/
namespace MediaViews.Json

mutual

def isFinite : Json → Bool
  | .int n => (Double.ofInt n).isFinite
  | .float x => x.isFinite
  | .arr items => itemsFinite items
  | .obj members => membersFinite members
  | .null | .bool _ | .str _ => true

def itemsFinite : List Json → Bool
  | [] => true
  | j :: js => isFinite j && itemsFinite js

def membersFinite : List (String × Json) → Bool
  | [] => true
  | (_, j) :: members => isFinite j && membersFinite members

end

theorem membersFinite_setMember {key : String} {value : Json} {members : List (String × Json)}
    (hvalue : value.isFinite) (h : membersFinite members) :
    membersFinite (setMember key value members) := by
  induction members with
  | nil => simp [setMember, membersFinite, hvalue]
  | cons member members ih =>
    obtain ⟨k, v⟩ := member
    rw [membersFinite, Bool.and_eq_true] at h
    rw [setMember]
    split
    · rw [membersFinite, hvalue, h.2]
      rfl
    · rw [membersFinite, h.1, ih h.2]
      rfl

theorem isFinite_ofMembers {members : List (String × Json)} (h : membersFinite members) :
    (ofMembers members).isFinite := by
  have hfold : ∀ acc, membersFinite acc →
      membersFinite (members.foldl (fun ms m => setMember m.1 m.2 ms) acc) := by
    induction members with
    | nil => exact fun acc hacc => hacc
    | cons member members ih =>
      intro acc hacc
      rw [membersFinite, Bool.and_eq_true] at h
      exact ih h.2 _ (membersFinite_setMember h.1 hacc)
  rw [ofMembers, isFinite]
  exact hfold [] rfl

theorem isFinite_collect (outline : Outline) {members : List (String × Json)}
    (h : membersFinite members) : (outline.collect members).isFinite := by
  cases outline with
  | free => exact isFinite_ofMembers h
  | verbatim | record _ | entries _ => exact h

theorem isFinite_of_mem {items : List Json} (h : itemsFinite items) {j : Json} (hj : j ∈ items) :
    j.isFinite := by
  induction items with
  | nil => cases hj
  | cons item items ih =>
    rw [itemsFinite, Bool.and_eq_true] at h
    rcases List.mem_cons.1 hj with rfl | hj
    · exact h.1
    · exact ih h.2 hj

theorem isFinite_of_mem_members {members : List (String × Json)} (h : membersFinite members)
    {m : String × Json} (hm : m ∈ members) : m.2.isFinite := by
  induction members with
  | nil => cases hm
  | cons member members ih =>
    obtain ⟨k, v⟩ := member
    rw [membersFinite, Bool.and_eq_true] at h
    rcases List.mem_cons.1 hm with rfl | hm
    · exact h.1
    · exact ih h.2 hm

theorem mem_of_lookup_eq_some {α : Type} {entries : List (String × α)} {key : String} {a : α}
    (h : entries.lookup key = some a) : (key, a) ∈ entries := by
  obtain ⟨before, after, rfl, -⟩ := List.lookup_eq_some_iff.1 h
  exact List.mem_append_right before List.mem_cons_self

theorem isFinite_of_record? {j : Json} (h : j.isFinite) {fields : List String}
    {field : String → Option Json} (hfield : j.record? fields = some field) {name : String}
    {value : Json} (hvalue : field name = some value) : value.isFinite := by
  cases j with
  | obj members =>
    rw [record?] at hfield
    split at hfield
    · obtain rfl := Option.some.inj hfield
      exact isFinite_of_mem_members h (mem_of_lookup_eq_some hvalue)
    · cases hfield
  | arr items =>
    rw [record?] at hfield
    split at hfield
    · obtain rfl := Option.some.inj hfield
      exact isFinite_of_mem h (List.of_mem_zip (mem_of_lookup_eq_some hvalue)).2
    · cases hfield
  | _ => cases hfield

namespace Tree

mutual

def leavesFinite : Tree → Bool
  | leaf value => value.all isFinite
  | array items => allFinite items
  | object members => valuesFinite members

def allFinite : List Tree → Bool
  | [] => true
  | t :: ts => leavesFinite t && allFinite ts

def valuesFinite : List (Option String × Tree) → Bool
  | [] => true
  | (_, t) :: members => leavesFinite t && valuesFinite members

end

theorem isFinite_floatLeaf (negative : Bool) (significand : Nat) (power : Int) :
    (floatLeaf negative significand power).all isFinite := by
  rw [floatLeaf]
  split
  · next h => exact h
  · rfl

theorem significand_takeDigits_lt {d : Digits} (h : d.significand < 2 ^ 64) (text : List Char) :
    (takeDigits d text).1.significand < 2 ^ 64 := by
  induction text generalizing d with
  | nil => exact h
  | cons c rest ih =>
    rw [takeDigits]
    split
    · exact h
    · split
      · next hfits =>
        rw [Bool.and_eq_true, decide_eq_true_iff, decide_eq_true_iff] at hfits
        exact ih hfits.2
      · exact ih h

theorem significand_lt_of_takeWhole {text rest : List Char} {whole : Digits}
    (h : takeWhole text = some (whole, rest)) : whole.significand < 2 ^ 64 := by
  unfold takeWhole at h
  split at h
  · obtain ⟨rfl, -⟩ := Prod.mk.inj (Option.some.inj h)
    exact Nat.two_pow_pos 64
  · rw [takeRun] at h
    have hlt := significand_takeDigits_lt (d := ⟨0, 0, 0⟩) (Nat.two_pow_pos 64) text
    dsimp only at h
    split at h
    · cases h
    · obtain ⟨rfl, -⟩ := Prod.mk.inj (Option.some.inj h)
      exact hlt

theorem isFinite_numberLeaf (negative : Bool) {whole : Digits} (hwhole : whole.significand < 2 ^ 64)
    (fraction : Option Digits) (power : Option Int) :
    (numberLeaf negative whole fraction power).all isFinite := by
  unfold numberLeaf
  split
  · dsimp only
    split_ifs
    · exact Double.isFinite_ofInt (by omega)
    · exact Double.isFinite_ofInt (by omega)
    · exact isFinite_floatLeaf ..
  · exact isFinite_floatLeaf ..
  · exact isFinite_floatLeaf ..

theorem leavesFinite_of_takeNumber {negative : Bool} {text : List Char} {tree : Tree}
    {rest : List Char} (h : takeNumber negative text = some (tree, rest)) : tree.leavesFinite := by
  simp only [takeNumber, Option.bind_eq_bind, Option.bind_eq_some_iff] at h
  obtain ⟨⟨whole, _⟩, hwhole, fraction, -, power, -, h⟩ := h
  obtain ⟨rfl, -⟩ := Prod.mk.inj (Option.some.inj h)
  exact isFinite_numberLeaf _ (significand_lt_of_takeWhole hwhole) _ _

def Takes {α : Type} (take : List Char → Option (α × List Char)) (test : α → Bool) : Prop :=
  ∀ text a rest, take text = some (a, rest) → test a

theorem takes_value {fuel : Nat} (hitems : Takes (takeItems fuel) allFinite)
    (hmembers : Takes (takeMembers fuel) valuesFinite) :
    Takes (takeValue (fuel + 1)) leavesFinite := by
  intro text tree rest h
  rw [takeValue] at h
  split at h
  · obtain ⟨rfl, -⟩ := Prod.mk.inj (Option.some.inj h)
    rfl
  · obtain ⟨rfl, -⟩ := Prod.mk.inj (Option.some.inj h)
    rfl
  · obtain ⟨rfl, -⟩ := Prod.mk.inj (Option.some.inj h)
    rfl
  · obtain ⟨⟨s, _⟩, -, h⟩ := Option.map_eq_some_iff.1 h
    obtain ⟨rfl, -⟩ := Prod.mk.inj h
    cases s <;> rfl
  · split at h
    · obtain ⟨rfl, -⟩ := Prod.mk.inj (Option.some.inj h)
      rfl
    · obtain ⟨⟨items, _⟩, hok, h⟩ := Option.map_eq_some_iff.1 h
      obtain ⟨rfl, -⟩ := Prod.mk.inj h
      exact hitems _ _ _ hok
  · split at h
    · obtain ⟨rfl, -⟩ := Prod.mk.inj (Option.some.inj h)
      rfl
    · obtain ⟨⟨members, _⟩, hok, h⟩ := Option.map_eq_some_iff.1 h
      obtain ⟨rfl, -⟩ := Prod.mk.inj h
      exact hmembers _ _ _ hok
  · exact leavesFinite_of_takeNumber h
  · exact leavesFinite_of_takeNumber h

theorem takes_items {fuel : Nat} (hvalue : Takes (takeValue fuel) leavesFinite)
    (hitems : Takes (takeItems fuel) allFinite) : Takes (takeItems (fuel + 1)) allFinite := by
  intro text items rest h
  rw [takeItems] at h
  obtain ⟨⟨item, _⟩, hitem, h⟩ := Option.bind_eq_some_iff.1 h
  have hfirst := hvalue _ _ _ hitem
  dsimp only at h
  split at h
  · obtain ⟨rfl, -⟩ := Prod.mk.inj (Option.some.inj h)
    rw [allFinite, hfirst]
    rfl
  · obtain ⟨⟨items, _⟩, hok, h⟩ := Option.map_eq_some_iff.1 h
    obtain ⟨rfl, -⟩ := Prod.mk.inj h
    rw [allFinite, hfirst, hitems _ _ _ hok]
    rfl
  · cases h

theorem takes_members {fuel : Nat} (hvalue : Takes (takeValue fuel) leavesFinite)
    (hmembers : Takes (takeMembers fuel) valuesFinite) :
    Takes (takeMembers (fuel + 1)) valuesFinite := by
  intro text members rest h
  rw [takeMembers] at h
  split at h
  · obtain ⟨⟨key, _⟩, -, h⟩ := Option.bind_eq_some_iff.1 h
    dsimp only at h
    split at h
    · obtain ⟨⟨value, _⟩, hok, h⟩ := Option.bind_eq_some_iff.1 h
      have hfirst := hvalue _ _ _ hok
      dsimp only at h
      split at h
      · obtain ⟨rfl, -⟩ := Prod.mk.inj (Option.some.inj h)
        rw [valuesFinite, hfirst]
        rfl
      · obtain ⟨⟨members, _⟩, hok, h⟩ := Option.map_eq_some_iff.1 h
        obtain ⟨rfl, -⟩ := Prod.mk.inj h
        rw [valuesFinite, hfirst, hmembers _ _ _ hok]
        rfl
      · cases h
    · cases h
  · cases h

theorem takes_finite (fuel : Nat) :
    Takes (takeValue fuel) leavesFinite ∧ Takes (takeItems fuel) allFinite ∧
      Takes (takeMembers fuel) valuesFinite := by
  -- The scanners call each other with less fuel, so one induction carries all three.
  induction fuel with
  | zero => exact ⟨nofun, nofun, nofun⟩
  | succ fuel ih =>
    obtain ⟨hvalue, hitems, hmembers⟩ := ih
    exact ⟨takes_value hitems hmembers, takes_items hvalue hitems, takes_members hvalue hmembers⟩

mutual

theorem isFinite_of_read : ∀ {t : Tree} {room : Nat} {outline : Outline} {j : Json},
    t.leavesFinite → t.read room outline = some j → j.isFinite
  | leaf value, _, _, j, ht, h => by
    rw [read] at h
    rw [leavesFinite, h] at ht
    exact ht
  | array items, room, outline, j, ht, h => by
    cases room with
    | zero => cases h
    | succ room =>
      obtain ⟨js, hjs, rfl⟩ := Option.map_eq_some_iff.1 h
      exact itemsFinite_of_readItems ht hjs
  | object members, room, outline, j, ht, h => by
    cases room with
    | zero => cases h
    | succ room =>
      obtain ⟨ms, hms, rfl⟩ := Option.map_eq_some_iff.1 h
      exact isFinite_collect outline (membersFinite_of_readMembers ht hms)

theorem itemsFinite_of_readItems : ∀ {ts : List Tree} {room index : Nat} {outline : Outline}
    {js : List Json}, allFinite ts → readItems room outline index ts = some js → itemsFinite js
  | [], _, _, _, js, _, h => by
    obtain rfl := Option.some.inj h
    rfl
  | t :: ts, room, index, outline, js, ht, h => by
    rw [allFinite, Bool.and_eq_true] at ht
    obtain ⟨j, hj, h⟩ := Option.bind_eq_some_iff.1 h
    obtain ⟨rest, hrest, h⟩ := Option.bind_eq_some_iff.1 h
    obtain rfl := Option.some.inj h
    rw [itemsFinite, isFinite_of_read ht.1 hj, itemsFinite_of_readItems ht.2 hrest]
    rfl

theorem membersFinite_of_readMembers : ∀ {ms : List (Option String × Tree)} {room : Nat}
    {outline : Outline} {members : List (String × Json)},
    valuesFinite ms → readMembers room outline ms = some members → membersFinite members
  | [], _, _, members, _, h => by
    obtain rfl := Option.some.inj h
    rfl
  | (none, _) :: _, _, _, _, _, h => by cases h
  | (some key, t) :: ms, room, outline, members, ht, h => by
    rw [valuesFinite, Bool.and_eq_true] at ht
    rw [readMembers] at h
    split at h
    · obtain ⟨j, hj, h⟩ := Option.bind_eq_some_iff.1 h
      obtain ⟨rest, hrest, h⟩ := Option.bind_eq_some_iff.1 h
      obtain rfl := Option.some.inj h
      rw [membersFinite, isFinite_of_read ht.1 hj, membersFinite_of_readMembers ht.2 hrest]
      rfl
    · exact membersFinite_of_readMembers ht.2 h

end

end Tree

theorem isFinite_of_readAs? {outline : Outline} {text : String} {j : Json}
    (h : readAs? outline text = some j) : j.isFinite := by
  obtain ⟨tree, htree, h⟩ := Option.bind_eq_some_iff.1 h
  refine Tree.isFinite_of_read ?_ h
  rw [Tree.ofText?] at htree
  split at htree
  · next found rest htake =>
    split at htree
    · obtain rfl := Option.some.inj htree
      exact (Tree.takes_finite _).1 _ _ _ htake
    · cases htree
  · cases htree

end MediaViews.Json
