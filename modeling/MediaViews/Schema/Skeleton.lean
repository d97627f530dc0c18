import MediaViews.Json.Decode

/-! Keypoint skeletons: the names of a label's points by position, and how they are connected. -/
namespace MediaViews

structure Skeleton where
  labels : List String
  edges : List (List UInt64)
  deriving DecidableEq, Inhabited

namespace Skeleton

def complement (s : Skeleton) (values : List String) : List String :=
  s.labels.filter fun label => !values.contains label

def toJson (s : Skeleton) : Json :=
  .obj [("labels", .ofStrings s.labels),
    ("edges", .arr (s.edges.map fun edge => .arr (edge.map fun i => .int i.toNat)))]

def ofJson? (j : Json) : Option Skeleton := do
  let field ← j.record? ["labels", "edges"]
  let labels ← field "labels" >>= Json.list? Json.string?
  let edges ← Json.withDefault [] (Json.list? (Json.list? Json.count?)) (field "edges")
  return ⟨labels, edges⟩

end Skeleton

structure Skeletons where
  byField : SortedMap Skeleton
  fallback : Option Skeleton
  deriving DecidableEq, Inhabited

namespace Skeletons

def empty : Skeletons := ⟨∅, none⟩

def get? (s : Skeletons) (field : String) : Option Skeleton :=
  (s.byField.get? field).or s.fallback

def toJson (s : Skeletons) : Json :=
  .obj [("skeletons", .obj (s.byField.entries.map fun e => (e.1, e.2.toJson))),
    ("default_skeleton", .ofOption Skeleton.toJson s.fallback)]

def ofJson? (j : Json) : Option Skeletons := do
  let field ← j.record? ["skeletons", "default_skeleton"]
  let byField ← Json.withDefault ∅ (Json.map? Skeleton.ofJson?) (field "skeletons")
  let fallback ← Json.optional Skeleton.ofJson? (field "default_skeleton")
  return ⟨byField, fallback⟩

end Skeletons
end MediaViews
