import MediaViews.Command.Arguments
import MediaViews.Command.Reply

/-! Running commands on files and standard input that are given as values. -/
namespace MediaViews

structure Inputs where
  file : String → Except String String
  stdin : List UInt8

structure CommandResult where
  succeeded : Bool
  responses : List Json
  log : List LogRecord

structure Session where
  config : Config
  threshold : Severity
  datasets : List Dataset

namespace Session

def compiler (s : Session) : Compiler := ⟨.ofDatasets s.datasets, s.config⟩

def loadConfig (inputs : Inputs) : Option String → Traced Config
  | none => pure {}
  | some file => do
    let config ← Traced.lift (Config.ofFile (inputs.file file))
    Traced.log (LogEvent.configLoaded.record [("path", file)])
    return config

def loadDataset (inputs : Inputs) (file : String) : Traced Dataset := do
  let dataset ← Traced.lift (Dataset.ofFile file (inputs.file file))
  Traced.log (LogEvent.datasetLoaded.record [("dataset", dataset.name)])
  return dataset

def loadDatasets (inputs : Inputs) (files : List String) : Traced (List Dataset) :=
  files.mapM (loadDataset inputs)

def initialThreshold : Severity := .info

def load (inputs : Inputs) (config : Option String) (datasets : List String) :
    List LogRecord × Except CommandError Session :=
  let configured := loadConfig inputs config
  let early := LogRecord.atLeast initialThreshold configured.records
  match configured.outcome with
  | .error e => (early, .error (.ofView e))
  | .ok config =>
    match config.severity with
    | .error e => (early, .error (.ofView e))
    | .ok threshold =>
      let loaded := loadDatasets inputs datasets
      let log := early ++ LogRecord.atLeast threshold loaded.records
      match loaded.outcome with
      | .error e => (log, .error (.ofView e))
      | .ok datasets => (log, .ok ⟨config, threshold, datasets⟩)

def requestText (inputs : Inputs) : Option String → Except CommandError String
  | none => Lines.decode inputs.stdin
  | some file =>
    match inputs.file file with
    | .ok text => .ok text
    | .error cause => .error (.input ("failed to read " ++ file ++ ": " ++ cause))

def replyLog (stamps : Nat → BuildStamp) (replies : List Reply) : List LogRecord :=
  replies.zipIdx.flatMap fun (reply, index) => reply.log (stamps index)

end Session

namespace Command

def configFile : Command → Option String
  | compile _ _ config | start _ config | check _ config => config

def datasetFiles : Command → List String
  | compile dataset .. | check dataset _ => [dataset]
  | start datasets _ => datasets

def files : Command → List String
  | compile dataset request config => config.toList ++ dataset :: request.toList
  | start datasets config => config.toList ++ datasets
  | check dataset config => config.toList ++ [dataset]

/-- The replies of a command once it is loaded. A compilation has one reply and fails with it; the
replies to many requests stand for themselves. -/
def replies (command : Command) (inputs : Inputs) (s : Session) : List Reply :=
  match command with
  | compile _ request _ => [s.compiler.reply (Session.requestText inputs request)]
  | start .. => s.compiler.replies inputs.stdin
  | check .. => s.datasets.map fun d => ⟨.ok d.summary, fun _ => []⟩

def failsWithReply : Command → Bool
  | compile .. | check .. => true
  | start .. => false

def run (command : Command) (inputs : Inputs) (stamps : Nat → BuildStamp) : CommandResult :=
  match Session.load inputs command.configFile command.datasetFiles with
  | (log, .error e) => ⟨false, [envelope (.error e)], log⟩
  | (log, .ok s) =>
    let replies := command.replies inputs s
    let failed := command.failsWithReply && replies.any fun r => !r.outcome.isOk
    let written := LogRecord.atLeast s.threshold (Session.replyLog stamps replies)
    ⟨!failed, replies.map fun r => envelope r.outcome, log ++ written⟩

end Command
end MediaViews
