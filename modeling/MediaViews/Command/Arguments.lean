/-! Command lines: a command and its options. -/
namespace MediaViews

inductive Command where
  | compile (dataset : String) (request config : Option String)
  | start (datasets : List String) (config : Option String)
  | check (dataset : String) (config : Option String)
  deriving DecidableEq

inductive Usage where
  | help
  | helpForNothing
  | version
  | unknownCommand
  | unknownArgument
  | missingArgument
  | missingValue
  | repeatedOption
  | valueForFlag
  deriving DecidableEq

namespace Command

inductive Token where
  | terminator
  | long (name : String) (value : Option String)
  | short (flag : Char)
  | plain (text : String)
  deriving DecidableEq

/-- Of several short flags in one argument only the first one counts. -/
def Token.ofArgument (argument : String) : Token :=
  match argument.toList with
  | ['-', '-'] => .terminator
  | '-' :: '-' :: rest =>
    match rest.dropWhile (· != '=') with
    | _ :: value => .long (String.ofList (rest.takeWhile (· != '='))) (some (String.ofList value))
    | [] => .long (String.ofList rest) none
  | '-' :: flag :: _ => .short flag
  | _ => .plain argument

/-- The options that a command knows, each with whether it may be given more than once. All of them
take a value. -/
abbrev Options := List (String × Bool)

structure Reading where
  values : List (String × String)
  pending : Option (String × Option String)

namespace Reading

def start : Reading := ⟨[], none⟩

def add (options : Options) (r : Reading) (name value : String) : Except Usage Reading :=
  if options.lookup name = some false && (r.values.lookup name).isSome then
    .error .repeatedOption
  else if value.isEmpty then .error .missingValue
  else .ok ⟨r.values ++ [(name, value)], none⟩

def settle (options : Options) (r : Reading) : Except Usage Reading :=
  match r.pending with
  | none => .ok r
  | some (_, none) => .error .missingValue
  | some (name, some value) => r.add options name value

def take (options : Options) (r : Reading) (token : Token) : Except Usage Reading := do
  match token with
  | .long "help" none | .short 'h' =>
    let _ ← r.settle options
    throw .help
  | .long "help" (some _) => throw .valueForFlag
  | .long name value =>
    if (options.lookup name).isNone then throw .unknownArgument
    else
      let settled ← r.settle options
      match value with
      | some value => settled.add options name value
      | none => return { settled with pending := some (name, none) }
  | .plain text =>
    match r.pending with
    | some (name, none) => return { r with pending := some (name, some text) }
    | _ => throw .unknownArgument
  | .short _ | .terminator => throw .unknownArgument

def takeAll (options : Options) (r : Reading) : List String → Except Usage (List (String × String))
  | [] => do return (← r.settle options).values
  | argument :: rest =>
    match Token.ofArgument argument, rest with
    | .terminator, [] => do return (← r.settle options).values
    | token, rest => do takeAll options (← r.take options token) rest

end Reading

def readOptions (options : Options) (arguments : List String) :
    Except Usage (List (String × String)) :=
  Reading.start.takeAll options arguments

def required (values : List (String × String)) (name : String) : Except Usage String :=
  match values.lookup name with
  | some value => .ok value
  | none => .error .missingArgument

def ofName? (name : String) : Option (List String → Except Usage Command) :=
  match name with
  | "compile" => some fun arguments => do
    let values ←
      readOptions [("dataset", false), ("request", false), ("config", false)] arguments
    return .compile (← required values "dataset") (values.lookup "request") (values.lookup "config")
  | "start" => some fun arguments => do
    let values ← readOptions [("dataset", true), ("config", false)] arguments
    let _ ← required values "dataset"
    let datasets := (values.filter (·.1 == "dataset")).map (·.2)
    return .start datasets (values.lookup "config")
  | "check" => some fun arguments => do
    let values ← readOptions [("dataset", false), ("config", false)] arguments
    return .check (← required values "dataset") (values.lookup "config")
  | _ => none

def isName (name : String) : Bool := name == "help" || (ofName? name).isSome

def helpOn : List String → Usage
  | [] => .help
  | [name] => if isName name then .help else .unknownCommand
  | _ => .unknownCommand

def ofArguments : List String → Except Usage Command
  | [] => .error .helpForNothing
  | argument :: rest =>
    match Token.ofArgument argument with
    | .plain "help" => .error (helpOn rest)
    | .plain name =>
      match ofName? name with
      | some command => command rest
      | none => .error .unknownCommand
    | .terminator =>
      match rest with
      | [] => .error .helpForNothing
      | name :: _ => .error (if isName name then .unknownArgument else .unknownCommand)
    | .long "help" none | .short 'h' => .error .help
    | .long "version" none | .short 'V' => .error .version
    | .long "help" (some _) | .long "version" (some _) => .error .valueForFlag
    | .long .. | .short _ => .error .unknownArgument

end Command
end MediaViews
