import MediaViews.Dataset.Basic

/-! Views: a dataset and the stages that its documents go through. -/
namespace MediaViews

structure View where
  dataset : Dataset
  stages : List Stage
  slice : Option String
  deriving DecidableEq

namespace View

def ofDataset (dataset : Dataset) : View := ⟨dataset, [], dataset.defaultSlice⟩

def ofJsonStages (dataset : Dataset) (stages : List Json) : Except StageError View := do
  return { ofDataset dataset with stages := ← stages.mapM Stage.ofJson }

def base (v : View) : View := { v with stages := [] }

def append (v : View) (stages : List Stage) : View := { v with stages := v.stages ++ stages }

def prepend (v : View) (stages : List Stage) : View := { v with stages := stages ++ v.stages }

/-- The same stages and slice on a dataset of the same name, where free values in stages are
compared without regard to the order of members. -/
def same (a b : View) : Bool :=
  a.dataset.name == b.dataset.name && a.slice == b.slice &&
    Json.same (.arr (a.stages.map Stage.toJson)) (.arr (b.stages.map Stage.toJson))

end View
end MediaViews
