import MediaViews.Double.Rounding
import MediaViews.Json.Basic
import MediaViews.Text.Hex

/-! The syntax tree of a JSON text. It exists for every text of the grammar, also where a leaf
denotes nothing: a number past every finite one, or a string with half a surrogate pair. Members
keep all their repetitions. -/
namespace MediaViews.Json

inductive Tree where
  | leaf (value : Option Json)
  | array (items : List Tree)
  | object (members : List (Option String × Tree))
  deriving Inhabited

namespace Tree

def skipBlanks : List Char → List Char
  | ' ' :: rest | '\n' :: rest | '\t' :: rest | '\r' :: rest => skipBlanks rest
  | rest => rest

/-- Digits read into a significand of 64 bits: how many went into it, and how many were dropped. -/
structure Digits where
  significand : Nat
  taken : Nat
  dropped : Nat

/-- Reads the digits in front. Once a digit does not fit, it and those after it are dropped. -/
def takeDigits (d : Digits) : List Char → Digits × List Char
  | c :: rest =>
    let next := 10 * d.significand + (c.toNat - 48)
    if !c.isDigit then (d, c :: rest)
    else if d.dropped = 0 && next < Nat.pow 2 64 then takeDigits ⟨next, d.taken + 1, 0⟩ rest
    else takeDigits { d with dropped := d.dropped + 1 } rest
  | [] => (d, [])

def takeRun (significand : Nat) (text : List Char) : Option (Digits × List Char) :=
  let (d, rest) := takeDigits ⟨significand, 0, 0⟩ text
  if d.taken + d.dropped = 0 then none else some (d, rest)

def takeWhole : List Char → Option (Digits × List Char)
  | '0' :: rest => some (⟨0, 1, 0⟩, rest)
  | text => takeRun 0 text

def takeFraction (significand : Nat) : List Char → Option (Option Digits × List Char)
  | '.' :: rest => (takeRun significand rest).map fun (d, rest) => (some d, rest)
  | rest => some (none, rest)

def takeSignedPower : List Char → Option (Int × List Char)
  | '-' :: rest => (takeRun 0 rest).map fun (d, rest) => (-d.significand, rest)
  | '+' :: rest | rest => (takeRun 0 rest).map fun (d, rest) => (d.significand, rest)

/-- The power of ten. One with dropped digits is past every limit as it is. -/
def takePower : List Char → Option (Option Int × List Char)
  | 'e' :: rest | 'E' :: rest => (takeSignedPower rest).map fun (power, rest) => (some power, rest)
  | rest => some (none, rest)

def floatLeaf (negative : Bool) (significand : Nat) (power : Int) : Option Json :=
  let value := Double.ofScaled negative significand power
  if value.isFinite then some (.float value) else none

/-- A plain run of digits is a whole number when it fits 64 bits, signed or not; else, like every
number with a fraction or an exponent, it is a floating-point number. Minus zero is one too. -/
def numberLeaf (negative : Bool) (whole : Digits) (fraction : Option Digits) (power : Option Int) :
    Option Json :=
  let n := whole.significand
  match fraction, power with
  | none, none =>
    if whole.dropped = 0 && !negative then some (.int n)
    else if whole.dropped = 0 && 0 < n && n ≤ Nat.pow 2 63 then some (.int (-n))
    else floatLeaf negative n whole.dropped
  | none, some power => floatLeaf negative n (whole.dropped + power)
  | some d, power =>
    floatLeaf negative d.significand ((whole.dropped : Int) - d.taken + power.getD 0)

def takeNumber (negative : Bool) (text : List Char) : Option (Tree × List Char) := do
  let (whole, rest) ← takeWhole text
  let (fraction, rest) ← takeFraction whole.significand rest
  let (power, rest) ← takePower rest
  return (.leaf (numberLeaf negative whole fraction power), rest)

/-- What a string has spelled so far, last character first, and a high surrogate that waits for its
low one. -/
structure Spelling where
  reversed : Option (List Char)
  waiting : Option Nat

namespace Spelling

def start : Spelling := ⟨some [], none⟩

def push (s : Spelling) (c : Char) : Spelling :=
  match s.waiting with
  | none => ⟨s.reversed.map (c :: ·), none⟩
  | some _ => ⟨none, none⟩

def pushUnit (s : Spelling) (unit : Nat) : Spelling :=
  match s.waiting with
  | none =>
    if 0xd800 ≤ unit && unit ≤ 0xdbff then ⟨s.reversed, some unit⟩
    else if 0xdc00 ≤ unit && unit ≤ 0xdfff then ⟨none, none⟩
    else s.push (Char.ofNat unit)
  | some high =>
    if 0xdc00 ≤ unit && unit ≤ 0xdfff then
      ⟨s.reversed.map (Char.ofNat (0x10000 + (high - 0xd800) * 0x400 + (unit - 0xdc00)) :: ·), none⟩
    else ⟨none, none⟩

def finish (s : Spelling) : Option String :=
  match s.waiting with
  | none => s.reversed.map fun cs => String.ofList cs.reverse
  | some _ => none

end Spelling

def escaped? : Char → Option Char
  | '"' => some '"'
  | '\\' => some '\\'
  | '/' => some '/'
  | 'b' => some '\x08'
  | 'f' => some '\x0c'
  | 'n' => some '\n'
  | 'r' => some '\r'
  | 't' => some '\t'
  | _ => none

def unit? (a b c d : Char) : Option Nat := do
  let a ← Text.hexValue? a.toNat
  let b ← Text.hexValue? b.toNat
  let c ← Text.hexValue? c.toNat
  let d ← Text.hexValue? d.toNat
  return ((a * 16 + b) * 16 + c) * 16 + d

def takeString (s : Spelling) : List Char → Option (Option String × List Char)
  | '"' :: rest => some (s.finish, rest)
  | '\\' :: 'u' :: a :: b :: c :: d :: rest =>
    match unit? a b c d with
    | some unit => takeString (s.pushUnit unit) rest
    | none => none
  | '\\' :: c :: rest =>
    match escaped? c with
    | some c => takeString (s.push c) rest
    | none => none
  | c :: rest => if c.toNat < 0x20 then none else takeString (s.push c) rest
  | [] => none

mutual

def takeValue : Nat → List Char → Option (Tree × List Char)
  | 0, _ => none
  | fuel + 1, text =>
    match skipBlanks text with
    | 'n' :: 'u' :: 'l' :: 'l' :: rest => some (.leaf (some .null), rest)
    | 't' :: 'r' :: 'u' :: 'e' :: rest => some (.leaf (some (.bool true)), rest)
    | 'f' :: 'a' :: 'l' :: 's' :: 'e' :: rest => some (.leaf (some (.bool false)), rest)
    | '"' :: rest => (takeString .start rest).map fun (s, rest) => (.leaf (s.map .str), rest)
    | '[' :: rest =>
      match skipBlanks rest with
      | ']' :: rest => some (.array [], rest)
      | rest => (takeItems fuel rest).map fun (items, rest) => (.array items, rest)
    | '\x7b' :: rest =>
      match skipBlanks rest with
      | '\x7d' :: rest => some (.object [], rest)
      | rest => (takeMembers fuel rest).map fun (members, rest) => (.object members, rest)
    | '-' :: rest => takeNumber true rest
    | rest => takeNumber false rest

def takeItems : Nat → List Char → Option (List Tree × List Char)
  | 0, _ => none
  | fuel + 1, text => do
    let (item, rest) ← takeValue fuel text
    match skipBlanks rest with
    | ']' :: rest => some ([item], rest)
    | ',' :: rest => (takeItems fuel rest).map fun (items, rest) => (item :: items, rest)
    | _ => none

def takeMembers : Nat → List Char → Option (List (Option String × Tree) × List Char)
  | 0, _ => none
  | fuel + 1, text =>
    match skipBlanks text with
    | '"' :: rest => do
      let (key, rest) ← takeString .start rest
      match skipBlanks rest with
      | ':' :: rest => do
        let (value, rest) ← takeValue fuel rest
        match skipBlanks rest with
        | '\x7d' :: rest => some ([(key, value)], rest)
        | ',' :: rest =>
          (takeMembers fuel rest).map fun (members, rest) => ((key, value) :: members, rest)
        | _ => none
      | _ => none
    | _ => none

end

/-- The tree of a whole text. Two units of fuel for each character are enough, since every step in
that does not consume a character is followed by one that does. -/
def ofText? (text : String) : Option Tree :=
  let chars := text.toList
  match takeValue (2 * chars.length + 2) chars with
  | some (tree, rest) => if (skipBlanks rest).isEmpty then some tree else none
  | none => none

end Tree
end MediaViews.Json
