import MediaViews.Log.Record

/-! The events of loading and compiling that are logged by name. -/
namespace MediaViews

inductive LogEvent where
  | configLoaded
  | datasetLoaded
  | savedViewLoaded
  | groupFilterResolved
  | filterStagesCompiled
  deriving DecidableEq

namespace LogEvent

def all : List LogEvent :=
  [configLoaded, datasetLoaded, savedViewLoaded, groupFilterResolved, filterStagesCompiled]

def name : LogEvent → String
  | configLoaded => "CONFIG_LOADED"
  | datasetLoaded => "DATASET_LOADED"
  | savedViewLoaded => "SAVED_VIEW_LOADED"
  | groupFilterResolved => "GROUP_FILTER_RESOLVED"
  | filterStagesCompiled => "FILTER_STAGES_COMPILED"

def isDetail : LogEvent → Bool
  | groupFilterResolved | filterStagesCompiled => true
  | _ => false

def record (event : LogEvent) (fields : LogFields) : LogRecord :=
  ⟨if event.isDetail then .trace else .info, event.name, fields⟩

end LogEvent
end MediaViews
