import MediaViews.Proofs.Executor.Basic

/-! What tests can tell of a value. They compare it with constants, and no constant is an embedded
document, so what an embedded document holds is not told. -/
namespace MediaViews

namespace Value

mutual

/-- The value with everything left out that embedded documents in it hold. -/
def face : Value → Value
  | .arr items => .arr (faces items)
  | .obj _ => .obj []
  | v => v

def faces : List Value → List Value
  | [] => []
  | v :: vs => face v :: faces vs

end

theorem faces_eq_map (vs : List Value) : faces vs = vs.map face := by
  induction vs with
  | nil => rfl
  | cons v vs ih => rw [faces, ih, List.map_cons]

@[simp] theorem isNull_face (v : Value) : v.face.isNull = v.isNull := by
  cases v <;> rfl

@[simp] theorem isNan_face (v : Value) : v.face.isNan = v.isNan := by
  cases v <;> rfl

@[simp] theorem rank_face (v : Value) : v.face.rank = v.rank := by
  cases v <;> rfl

@[simp] theorem string?_face (v : Value) : v.face.string? = v.string? := by
  cases v <;> rfl

theorem items_face (v : Value) : v.face.items = v.items.map face := by
  cases v <;> first | rfl | exact faces_eq_map _

theorem elementAt_face (v : Value) (index : Int) :
    v.face.elementAt index = (v.elementAt index).face := by
  rw [elementAt, elementAt, items_face, List.getElem?_map]
  split
  · rfl
  · cases v.items[index.toNat]? <;> rfl

mutual

theorem compare_face : ∀ (v : Value) (l : Literal),
    v.face.compare (ofLiteral l) = v.compare (ofLiteral l)
  -- No constant is an embedded document, so one is told from it by its type.
  | .arr items, l => by
    cases l with
    | array ls => exact compareItems_faces items ls
    | _ => rfl
  | .obj fields, l => by
    cases l <;> rfl
  | .null, _ | .bool _, _ | .int _, _ | .float _, _ | .str _, _ | .objectId _, _ | .instant _, _ => rfl

theorem compareItems_faces : ∀ (vs : List Value) (ls : List Literal),
    compareItems (faces vs) (ofLiterals ls) = compareItems vs (ofLiterals ls)
  | [], _ => rfl
  | _ :: _, [] => rfl
  | v :: vs, l :: ls => by
    rw [faces, ofLiterals, compareItems, compareItems, compare_face v l, compareItems_faces vs ls]

end

@[simp] theorem same_face (v : Value) (l : Literal) :
    v.face.same (ofLiteral l) = v.same (ofLiteral l) := by
  rw [same, same, compare_face]

def SeesFace (test : Value → Bool) : Prop := ∀ v, test v.face = test v

theorem SeesFace.any {test : Value → Bool} (h : SeesFace test) {vs ws : List Value}
    (hfaces : vs.map face = ws.map face) : vs.any test = ws.any test := by
  have hany : ∀ us : List Value, us.any test = (us.map face).any test := by
    intro us
    rw [List.any_map]
    exact congrArg _ (funext fun v => (h v).symm)
  rw [hany vs, hany ws, hfaces]

end Value

namespace Executor

open Value

variable (ex : Executor)

theorem finds_face (options pattern : String) : SeesFace (ex.finds options pattern) := by
  intro v
  rw [finds, finds, string?_face]

variable {met met' : List Value}

theorem equalsAny_congr (h : met.map face = met'.map face) (l : Literal) :
    equalsAny met (ofLiteral l) = equalsAny met' (ofLiteral l) := by
  have hempty : met.isEmpty = met'.isEmpty := by
    rw [← List.isEmpty_map (f := face), h, List.isEmpty_map]
  rw [equalsAny, equalsAny, hempty, SeesFace.any isNull_face h,
    SeesFace.any (fun v => same_face v l) h]

theorem comparesAny_congr (h : met.map face = met'.map face) (op : Comparison) (l : Literal) :
    comparesAny met op (ofLiteral l) = comparesAny met' op (ofLiteral l) := by
  refine SeesFace.any (fun v => ?_) h
  rw [rank_face, isNan_face, compare_face]

theorem passes_congr (h : met.map face = met'.map face) (test : FieldTest) :
    ex.passes met test = ex.passes met' test := by
  cases test with
  | compare op value =>
    cases op <;> simp only [passes, equalsAny_congr h, comparesAny_congr h]
  | isIn values => simp only [passes, equalsAny_congr h]
  | notIn values => simp only [passes, equalsAny_congr h]
  | search pattern => exact SeesFace.any (ex.finds_face "i" pattern) h

end Executor
end MediaViews
