import MediaViews.Json.Decode
import MediaViews.Text.Hex
import MediaViews.Text.Quoted

/-! Document identifiers: twelve bytes, written as 24 hexadecimal digits. -/
namespace MediaViews

structure ObjectId where
  bytes : List UInt8
  length_bytes : bytes.length = 12
  deriving DecidableEq

inductive ObjectIdFault where
  | length (bytes : Nat)
  | digit (byte : UInt8) (position : Nat)
  deriving DecidableEq

structure ObjectIdError where
  value : String
  fault : ObjectIdFault
  deriving DecidableEq

namespace ObjectIdFault

def quoteByte (byte : UInt8) : String := Text.quoted '\'' [Char.ofNat byte.toNat]

def reason : ObjectIdFault → String
  | length bytes => "expected 24 hex characters, found " ++ toString bytes
  | digit byte position =>
    "Invalid character " ++ quoteByte byte ++ " at position " ++ toString position

end ObjectIdFault

def ObjectIdError.message (e : ObjectIdError) : String :=
  "Invalid ObjectId '" ++ e.value ++ "': " ++ e.fault.reason

namespace ObjectId

def utf8Bytes (text : String) : List UInt8 := text.toList.flatMap String.utf8EncodeChar

def decodePairs (position : Nat) : List UInt8 → Except ObjectIdFault (List UInt8)
  | high :: low :: rest =>
    match Text.hexValue? high.toNat with
    | none => .error (.digit high position)
    | some h =>
      match Text.hexValue? low.toNat with
      | none => .error (.digit low (position + 1))
      | some l =>
        match decodePairs (position + 2) rest with
        | .error fault => .error fault
        | .ok bytes => .ok (UInt8.ofNat (16 * h + l) :: bytes)
  | _ => .ok []

theorem length_of_decodePairs : ∀ {text bytes : List UInt8} {position : Nat},
    decodePairs position text = .ok bytes → bytes.length = text.length / 2
  | [], _, _, h => by
    simp only [decodePairs, Except.ok.injEq] at h
    simp [← h]
  | [_], _, _, h => by
    simp only [decodePairs, Except.ok.injEq] at h
    simp [← h]
  | _ :: _ :: rest, bytes, position, h => by
    simp only [decodePairs] at h
    split at h
    · cases h
    · split at h
      · cases h
      · split at h
        · cases h
        · next hrest =>
          cases h
          simp only [List.length_cons, length_of_decodePairs hrest]
          omega

def parse (value : String) : Except ObjectIdError ObjectId :=
  let text := utf8Bytes value
  if hlength : text.length = 24 then
    match h : decodePairs 0 text with
    | .ok bytes => .ok ⟨bytes, by rw [length_of_decodePairs h, hlength]⟩
    | .error fault => .error ⟨value, fault⟩
  else .error ⟨value, .length text.length⟩

def parseAll (values : List String) : Except ObjectIdError (List ObjectId) :=
  values.mapM parse

def toHex (id : ObjectId) : String := String.ofList (id.bytes.flatMap Text.hexPair)

instance : LT ObjectId := ⟨fun a b => a.bytes < b.bytes⟩

instance (a b : ObjectId) : Decidable (a < b) := inferInstanceAs (Decidable (a.bytes < b.bytes))

def toJson (id : ObjectId) : Json := .str id.toHex

def toExtendedJson (id : ObjectId) : Json := .obj [("$oid", .str id.toHex)]

def ofJson? (j : Json) : Option ObjectId := do
  let text ← j.string?
  (parse text).toOption

end ObjectId
end MediaViews
