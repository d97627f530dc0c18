import MediaViews.View.Compiler

/-! Replies to requests that come as text, and the errors that they can carry. -/
namespace MediaViews

inductive RequestFault where
  | empty
  | malformed
  | undecodable (fault : Json.Fault)
  deriving DecidableEq

inductive CommandError where
  | config (fault : ConfigFault)
  | input (cause : String)
  | request (fault : RequestFault)
  | view (error : ViewError)
  deriving DecidableEq

namespace CommandError

def ofView : ViewError → CommandError
  | .config fault => .config fault
  | e => .view e

/-- Errors of compilation keep their own codes. -/
def code : CommandError → String
  | config _ => "AERO_CLI_CONFIG_ERROR"
  | input _ => "AERO_CLI_IO_ERROR"
  | request _ => "AERO_CLI_INVALID_REQUEST"
  | view e => e.code

/-- What is wrong with a text that is no JSON is left to the reader, so one text stands for all that
it says. -/
def message : CommandError → String
  | config fault => "Configuration error: " ++ fault.reason
  | input cause => "I/O error: " ++ cause
  | request .empty => "Invalid request: empty input"
  | request .malformed => "Invalid request: not JSON"
  | request (.undecodable fault) => "Invalid request: " ++ fault.reason
  | view e => e.message

end CommandError

def envelope : Except CommandError Json → Json
  | .ok data => .obj [("status", .str "ok"), ("data", data)]
  | .error e =>
    .obj [("status", .str "error"), ("code", .str e.code), ("message", .str e.message)]

structure Reply where
  outcome : Except CommandError Json
  log : BuildStamp → List LogRecord

namespace Reply

def failure (e : CommandError) : Reply := ⟨.error e, fun _ => []⟩

def ofRequest (c : Compiler) (r : ViewRequest) : Reply :=
  let built := c.build r
  let outcome :=
    match built.outcome with
    | .ok compiled => .ok compiled.toJson
    | .error e => .error (.ofView e)
  ⟨outcome, Compiler.buildLog r built⟩

def ofJson (c : Compiler) (j : Json) : Reply :=
  match ViewRequest.decode j with
  | .ok r => ofRequest c r
  | .error fault => failure (.request (.undecodable fault))

def ofText (c : Compiler) (text : String) : Reply :=
  match Json.parse? text with
  | some j => ofJson c j
  | none => failure (.request .malformed)

end Reply

def Compiler.reply (c : Compiler) (text : Except CommandError String) : Reply :=
  match text with
  | .error e => .failure e
  | .ok text => if Text.isBlank text then .failure (.request .empty) else .ofText c text

namespace Lines

def notUtf8 : String := "stream did not contain valid UTF-8"

def decode (bytes : List UInt8) : Except CommandError String :=
  match String.fromUTF8? ⟨bytes.toArray⟩ with
  | some text => .ok text
  | none => .error (.input notUtf8)

/-- The bytes of each line, collected in reverse. A carriage return before the end of a line belongs
to the end; the last line needs no end. -/
def split (reversed : List UInt8) : List UInt8 → List (List UInt8)
  | [] => if reversed.isEmpty then [] else [reversed.reverse]
  | b :: rest =>
    if b = 10 then
      let line := match reversed with
        | 13 :: line => line
        | line => line
      line.reverse :: split [] rest
    else split (b :: reversed) rest

def reply? (c : Compiler) (line : List UInt8) : Option Reply :=
  match decode line with
  | .error e => some (.failure e)
  | .ok text => if Text.isBlank text then none else some (.ofText c text)

end Lines

def Compiler.replies (c : Compiler) (input : List UInt8) : List Reply :=
  (Lines.split [] input).filterMap (Lines.reply? c)

end MediaViews
