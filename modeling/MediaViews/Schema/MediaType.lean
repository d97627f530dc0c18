import MediaViews.Json.Decode

/-! Media types of datasets and of group slices. -/
namespace MediaViews

inductive MediaType where
  | image | video | pointCloud | threeD | group
  deriving DecidableEq, Inhabited

namespace MediaType

def all : List MediaType := [image, video, pointCloud, threeD, group]

def name : MediaType → String
  | image => "image"
  | video => "video"
  | pointCloud => "point_cloud"
  | threeD => "three_d"
  | group => "group"

def named : List (String × MediaType) := all.map fun m => (m.name, m)

def setOf (types : List MediaType) : List MediaType := all.filter types.contains

def toJson (m : MediaType) : Json := .str m.name

def ofJson? : Json → Option MediaType := Json.choice? Json.isNull named

end MediaType
end MediaViews
