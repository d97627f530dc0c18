import MediaViews.Command.Help
import MediaViews.Command.Run
import MediaViews.Text.Uuid

/-! The program: its files, standard streams, clock and random numbers. -/
namespace MediaViews.Main

def fileCause : IO.Error → String
  | .noFileOrDirectory .. => "No such file or directory (os error 2)"
  | .permissionDenied .. => "Permission denied (os error 13)"
  | .inappropriateType .. => "Is a directory (os error 21)"
  | e => toString e

def readText (file : String) : IO (Except String String) := do
  try
    let bytes ← IO.FS.readBinFile file
    return match String.fromUTF8? bytes with
      | some text => .ok text
      | none => .error Lines.notUtf8
  catch e => return .error (fileCause e)

def readInputs (command : Command) : IO Inputs := do
  let contents ← command.files.mapM fun file => do return (file, ← readText file)
  return ⟨fun file => (contents.lookup file).getD (.error "not read"), []⟩

def writeLog (records : List LogRecord) : IO Unit := do
  let stderr ← IO.getStderr
  for record in records do
    stderr.putStr (record.render ++ "\n")
  stderr.flush

def writeResponse (response : Json) : IO Unit := do
  let stdout ← IO.getStdout
  stdout.putStr (response.render ++ "\n")
  stdout.flush

def stampSince (started : Nat) : IO BuildStamp := do
  let bytes ← IO.getRandomBytes 16
  return ⟨Text.uuidText bytes.toList, (← IO.monoMsNow) - started⟩

def writeReply (s : Session) (started : Nat) (reply : Reply) : IO Unit := do
  let response := envelope reply.outcome
  let stamp ← stampSince started
  writeLog (LogRecord.atLeast s.threshold (reply.log stamp))
  writeResponse response

partial def nextLine (input : IO.FS.Stream) (reversed : List UInt8) : IO (List UInt8) := do
  let chunk ← input.read 1
  match chunk.toList with
  | [] => return reversed.reverse
  | b :: _ => if b = 10 then return (b :: reversed).reverse else nextLine input (b :: reversed)

partial def serve (s : Session) (input : IO.FS.Stream) : IO Unit := do
  let line ← nextLine input []
  if line.isEmpty then return
  else
    let started ← IO.monoMsNow
    for reply in s.compiler.replies line do
      writeReply s started reply
    serve s input

partial def readAll (input : IO.FS.Stream) (bytes : ByteArray) : IO (List UInt8) := do
  let chunk ← input.read 65536
  if chunk.isEmpty then return bytes.toList else readAll input (bytes ++ chunk)

def readsStdin : Command → Bool
  | .compile _ none _ => true
  | _ => false

def runLoaded (command : Command) (inputs : Inputs) (s : Session) : IO Bool := do
  let stdin ← IO.getStdin
  match command with
  | .start .. =>
    serve s stdin
    return true
  | _ =>
    let bytes ← if readsStdin command then readAll stdin .empty else pure []
    let started ← IO.monoMsNow
    let replies := command.replies { inputs with stdin := bytes } s
    for reply in replies do
      writeReply s started reply
    return replies.all (·.outcome.isOk)

def run (command : Command) : IO UInt32 := do
  let inputs ← readInputs command
  let (log, loaded) := Session.load inputs command.configFile command.datasetFiles
  writeLog log
  match loaded with
  | .error e =>
    writeResponse (envelope (.error e))
    return 1
  | .ok s => return if ← runLoaded command inputs s then 0 else 1

def explain (usage : Usage) : IO UInt32 := do
  if usage.isRequested then
    (← IO.getStdout).putStr usage.text
    return 0
  else
    (← IO.getStderr).putStr usage.text
    return 2

end MediaViews.Main

def main (arguments : List String) : IO UInt32 :=
  match MediaViews.Command.ofArguments arguments with
  | .ok command => MediaViews.Main.run command
  | .error usage => MediaViews.Main.explain usage
