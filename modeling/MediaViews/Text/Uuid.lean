import MediaViews.Text.Hex

/-! Universally unique identifiers of version 4, made of sixteen random bytes. -/
namespace MediaViews.Text

def markUuid (bytes : List UInt8) : List UInt8 :=
  let marked := bytes.modify 6 fun b => b &&& 0x0f ||| 0x40
  marked.modify 8 fun b => b &&& 0x3f ||| 0x80

def uuidText (bytes : List UInt8) : String :=
  let group (start length : Nat) : List Char :=
    (((markUuid bytes).drop start).take length).flatMap hexPair
  String.ofList
    (List.intercalate ['-'] [group 0 4, group 4 2, group 6 2, group 8 2, group 10 6])

end MediaViews.Text
