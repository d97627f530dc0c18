import MediaViews.Filter.Error
import MediaViews.Log.Severity
import MediaViews.Stage.Wire

/-! What can be wrong with a dataset, a configuration or a request for a view. -/
namespace MediaViews

inductive DatasetFault where
  | unreadable (file cause : String)
  | malformed
  | emptyName
  | slicesNeeded
  | slicesWithoutGroup
  | unknownDefaultSlice (slice : String)
  deriving DecidableEq

inductive ConfigFault where
  | unreadable (cause : String)
  | malformed
  | unknownLevel (text : String)
  deriving DecidableEq

inductive ViewError where
  | datasetNotFound (name : String)
  | savedViewNotFound (dataset view : String)
  | notGrouped (dataset : String)
  | invalidDataset (fault : DatasetFault)
  | config (fault : ConfigFault)
  | filter (error : FilterError)
  | stage (error : StageError)
  deriving DecidableEq

/-- What the reader says of a text that is no description is left out: one text stands for all of
it. -/
def DatasetFault.reason : DatasetFault → String
  | unreadable file cause => "failed to read " ++ file ++ ": " ++ cause
  | malformed => "invalid JSON: not a dataset description"
  | emptyName => "name must not be empty"
  | slicesNeeded => "grouped datasets need group_media_types"
  | slicesWithoutGroup => "group_media_types given without group_field"
  | unknownDefaultSlice slice => "default_group_slice '" ++ slice ++ "' is not a slice"

/-- What the reader says of a text that is no configuration is left out: one text stands for all of
it. -/
def ConfigFault.reason : ConfigFault → String
  | unreadable cause => "Failed to read config: " ++ cause
  | malformed => "Invalid config JSON: not a configuration"
  | unknownLevel text => Severity.unknownMessage text

namespace ViewError

def ofObjectId (e : ObjectIdError) : ViewError := .stage (.invalidId e)

def code : ViewError → String
  | datasetNotFound _ => "AERO_VIEW_DATASET_NOT_FOUND"
  | savedViewNotFound .. => "AERO_VIEW_SAVED_VIEW_NOT_FOUND"
  | notGrouped _ => "AERO_VIEW_NOT_GROUPED"
  | invalidDataset _ => "AERO_VIEW_INVALID_DATASET"
  | config _ => "AERO_VIEW_CONFIG_ERROR"
  | filter e => e.code
  | stage e => e.code

def message : ViewError → String
  | datasetNotFound name => "Dataset '" ++ name ++ "' not found"
  | savedViewNotFound dataset view =>
    "Saved view '" ++ view ++ "' not found on dataset '" ++ dataset ++ "'"
  | notGrouped dataset => "Dataset '" ++ dataset ++ "' is not a grouped dataset"
  | invalidDataset fault => "Invalid dataset description: " ++ fault.reason
  | config fault => "Configuration error: " ++ fault.reason
  | filter e => e.message
  | stage e => e.message

def isClientError : ViewError → Bool
  | config _ => false
  | _ => true

end ViewError
end MediaViews
