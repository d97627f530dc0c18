/-! Severities of log records, lowest first. -/
namespace MediaViews

inductive Severity where
  | trace | info | warn | error | fatal
  deriving DecidableEq, Inhabited

namespace Severity

def all : List Severity := [trace, info, warn, error, fatal]

def rank : Severity → Nat
  | trace => 0
  | info => 1
  | warn => 2
  | error => 3
  | fatal => 4

instance : LE Severity := ⟨fun a b => a.rank ≤ b.rank⟩

instance (a b : Severity) : Decidable (a ≤ b) := inferInstanceAs (Decidable (a.rank ≤ b.rank))

def name : Severity → String
  | trace => "TRACE"
  | info => "INFO"
  | warn => "WARN"
  | error => "ERROR"
  | fatal => "FATAL"

def ofName? (text : String) : Option Severity :=
  all.find? fun s => s.name.toList.map Char.toLower == text.toList.map Char.toLower

def unknownMessage (text : String) : String := "unknown log level '" ++ text ++ "'"

end Severity
end MediaViews
