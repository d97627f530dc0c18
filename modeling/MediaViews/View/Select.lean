import MediaViews.View.Basic

/-! Selection of single documents or groups within a view. -/
namespace MediaViews.View

def groupField (v : View) : Except ViewError String :=
  match v.dataset.groupField with
  | some field => .ok field
  | none => .error (.notGrouped v.dataset.name)

def selection (v : View) (ids : List String) (groups : Bool) : Except ViewError Stage := do
  if groups then
    let field ← v.groupField
    (Stage.selectByIds (field ++ "._id") ids).mapError .ofObjectId
  else (Stage.selectIds ids false).mapError .ofObjectId

/-- To select first is cheaper, but it would change what a stage does that drops or reorders
documents. -/
def select (v : View) (ids : List String) (groups : Bool) : Except ViewError View := do
  let stage ← v.selection ids groups
  return if v.stages.any (·.reordersOrSelects) then v.append [stage] else v.prepend [stage]

end MediaViews.View
