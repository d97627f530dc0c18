import MediaViews.Json.Decode

/-! Filters: what a client asks of the values at one path. -/
namespace MediaViews

inductive Sentinel where
  | nan | inf | negInf | missing
  deriving DecidableEq

structure Filter where
  /-- Accepted strings or identifiers; `none` stands for missing or null. -/
  values : Option (List (Option String)) := none
  /-- Both bounds are included; bounds of dates are milliseconds. -/
  range : Option (Double × Double) := none
  includeTrue : Option Bool := none
  includeFalse : Option Bool := none
  nan : Option Bool := none
  inf : Option Bool := none
  negInf : Option Bool := none
  missing : Option Bool := none
  exclude : Bool := false
  /-- Keeps whole documents with a match instead of pruning what does not match. -/
  isMatching : Bool := false
  search : Option String := none
  deriving DecidableEq, Inhabited

abbrev Filters := SortedMap Filter

namespace Sentinel

def all : List Sentinel := [nan, inf, negInf, missing]

def name : Sentinel → String
  | nan => "nan"
  | inf => "inf"
  | negInf => "ninf"
  | missing => "none"

end Sentinel

namespace Filter

def ofValues (values : List String) : Filter := { values := some (values.map some) }

def flag? (f : Filter) : Sentinel → Option Bool
  | .nan => f.nan
  | .inf => f.inf
  | .negInf => f.negInf
  | .missing => f.missing

def withFlag (f : Filter) (s : Sentinel) (value : Bool) : Filter :=
  match s with
  | .nan => { f with nan := some value }
  | .inf => { f with inf := some value }
  | .negInf => { f with negInf := some value }
  | .missing => { f with missing := some value }

def withMissingValue (f : Filter) : Filter :=
  { f with values := some (f.values.getD [] ++ [none]) }

def excluding (f : Filter) : Filter := { f with exclude := true }

def including (f : Filter) : Filter := { f with exclude := false }

def hasFlags (f : Filter) : Bool := Sentinel.all.any fun s => (f.flag? s).isSome

def setSentinels (f : Filter) : List Sentinel :=
  Sentinel.all.filter fun s => f.flag? s == some true

def unsetSentinels (f : Filter) : List Sentinel :=
  Sentinel.all.filter fun s => f.flag? s != some true

def presentValues (f : Filter) : List String := (f.values.getD []).filterMap id

def wantsMissing (f : Filter) : Bool :=
  f.missing == some true || (f.values.getD []).contains none

end Filter
end MediaViews
