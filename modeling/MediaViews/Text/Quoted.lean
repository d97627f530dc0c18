/-! Text in quotes, as errors show it. -/
namespace MediaViews.Text

/-- Control characters are written by number, and those of Latin-1 that cannot be seen. Every
character past Latin-1 is taken for one that can. -/
def escapeQuoted (quote c : Char) : List Char :=
  match c with
  | '\x00' => ['\\', '0']
  | '\t' => ['\\', 't']
  | '\n' => ['\\', 'n']
  | '\r' => ['\\', 'r']
  | '\\' => ['\\', '\\']
  | c =>
    let code := c.toNat
    if c = quote then ['\\', c]
    else if code < 0x20 || (0x7f ≤ code && code ≤ 0xa0) || code == 0xad then
      ['\\', 'u', '\x7b'] ++ Nat.toDigits 16 code ++ ['\x7d']
    else [c]

def quoted (quote : Char) (text : List Char) : String :=
  String.ofList (quote :: text.flatMap (escapeQuoted quote) ++ [quote])

end MediaViews.Text
