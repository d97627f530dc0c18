import MediaViews.Command.Arguments

/-! What is printed for a command line that tells no command to run. -/
namespace MediaViews

def programName : String := "media-views"

def programVersion : String := "0.1.0"

def helpText : String :=
  "Compiles filter requests into view stages\n\n" ++
  "Usage: " ++ programName ++ " <COMMAND>\n\n" ++
  "Commands:\n" ++
  "  compile --dataset <FILE> [--request <FILE>] [--config <FILE>]\n" ++
  "      Compile one view request, read from standard input if no file is given\n" ++
  "  start --dataset <FILE>... [--config <FILE>]\n" ++
  "      Compile requests given one a line until the input ends\n" ++
  "  check --dataset <FILE> [--config <FILE>]\n" ++
  "      Validate a dataset description and print a summary of it\n" ++
  "  help\n" ++
  "      Print this text\n"

namespace Usage

def isRequested : Usage → Bool
  | help | version => true
  | _ => false

def text : Usage → String
  | help | helpForNothing => helpText
  | version => programName ++ " " ++ programVersion ++ "\n"
  | unknownCommand => "error: unknown command\n\n" ++ helpText
  | unknownArgument => "error: unexpected argument\n\n" ++ helpText
  | missingArgument => "error: --dataset is required\n\n" ++ helpText
  | missingValue => "error: an option needs a value\n\n" ++ helpText
  | repeatedOption => "error: an option is given more than once\n\n" ++ helpText
  | valueForFlag => "error: a flag takes no value\n\n" ++ helpText

end Usage
end MediaViews
