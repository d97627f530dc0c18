import MediaViews.Double.Shortest
import MediaViews.Json.Basic
import MediaViews.Text.Hex

/-! JSON text without blanks. Each writer puts its text in front of a given rest. -/
namespace MediaViews.Json

/-- Numbers from 1e-5 up to 1e16 are written without an exponent, and whole ones keep `.0`. What is
not finite has no number text. -/
def numberLayout : DecimalLayout where
  positional place := -5 < place && place ≤ 16
  keepsPoint := true
  nan := "null"
  infinity := "null"

def escapeChar (c : Char) : List Char :=
  match c with
  | '"' => ['\\', '"']
  | '\\' => ['\\', '\\']
  | '\x08' => ['\\', 'b']
  | '\x0c' => ['\\', 'f']
  | '\n' => ['\\', 'n']
  | '\r' => ['\\', 'r']
  | '\t' => ['\\', 't']
  | c =>
    if c.toNat < 0x20 then
      ['\\', 'u', '0', '0', Text.hexDigit (c.toNat / 16), Text.hexDigit (c.toNat % 16)]
    else [c]

def writeString (text : String) (rest : List Char) : List Char :=
  '"' :: text.toList.flatMap escapeChar ++ '"' :: rest

def intText (n : Int) : List Char :=
  if n < 0 then '-' :: Nat.toDigits 10 n.natAbs else Nat.toDigits 10 n.natAbs

mutual

def write : Json → List Char → List Char
  | .null, rest => 'n' :: 'u' :: 'l' :: 'l' :: rest
  | .bool true, rest => 't' :: 'r' :: 'u' :: 'e' :: rest
  | .bool false, rest => 'f' :: 'a' :: 'l' :: 's' :: 'e' :: rest
  | .int n, rest => intText n ++ rest
  | .float x, rest =>
    if x.isFinite then numberLayout.write x ++ rest else 'n' :: 'u' :: 'l' :: 'l' :: rest
  | .str s, rest => writeString s rest
  | .arr [], rest => '[' :: ']' :: rest
  | .arr (x :: xs), rest => '[' :: write x (writeItems xs (']' :: rest))
  | .obj [], rest => '\x7b' :: '\x7d' :: rest
  | .obj ((k, x) :: ms), rest =>
    '\x7b' :: writeString k (':' :: write x (writeMembers ms ('\x7d' :: rest)))

def writeItems : List Json → List Char → List Char
  | [], rest => rest
  | x :: xs, rest => ',' :: write x (writeItems xs rest)

def writeMembers : List (String × Json) → List Char → List Char
  | [], rest => rest
  | (k, x) :: ms, rest => ',' :: writeString k (':' :: write x (writeMembers ms rest))

end

def render (j : Json) : String := String.ofList (write j [])

end MediaViews.Json
