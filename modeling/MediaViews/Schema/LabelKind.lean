import MediaViews.Json.Decode

/-! Kinds of annotations. Some are lists of another kind, kept under an attribute of their own. -/
namespace MediaViews

inductive LabelKind where
  | classification | classifications
  | detection | detections
  | polyline | polylines
  | keypoint | keypoints
  | temporalDetection | temporalDetections
  | segmentation
  | heatmap
  | regression
  deriving DecidableEq, Inhabited

namespace LabelKind

def all : List LabelKind :=
  [classification, classifications, detection, detections, polyline, polylines, keypoint, keypoints,
    temporalDetection, temporalDetections, segmentation, heatmap, regression]

def name : LabelKind → String
  | classification => "classification"
  | classifications => "classifications"
  | detection => "detection"
  | detections => "detections"
  | polyline => "polyline"
  | polylines => "polylines"
  | keypoint => "keypoint"
  | keypoints => "keypoints"
  | temporalDetection => "temporal_detection"
  | temporalDetections => "temporal_detections"
  | segmentation => "segmentation"
  | heatmap => "heatmap"
  | regression => "regression"

def named : List (String × LabelKind) := all.map fun k => (k.name, k)

def elements? : LabelKind → Option (String × LabelKind)
  | classifications => some ("classifications", classification)
  | detections => some ("detections", detection)
  | polylines => some ("polylines", polyline)
  | keypoints => some ("keypoints", keypoint)
  | temporalDetections => some ("detections", temporalDetection)
  | _ => none

def listAttribute? (kind : LabelKind) : Option String := kind.elements?.map (·.1)

def elementKind? (kind : LabelKind) : Option LabelKind := kind.elements?.map (·.2)

def isList (kind : LabelKind) : Bool := kind.elements?.isSome

def isKeypoints : LabelKind → Bool
  | keypoint | keypoints => true
  | _ => false

def toJson (kind : LabelKind) : Json := .str kind.name

def ofJson? : Json → Option LabelKind := Json.choice? Json.isNull named

end LabelKind
end MediaViews
