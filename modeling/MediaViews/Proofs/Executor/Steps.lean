import MediaViews.Proofs.Executor.Pruning

/-! Stages that look at documents one by one, and when the removal of a field makes no difference to
which documents they keep. -/
namespace MediaViews

def Stage.isStepwise : Stage → Bool
  | .matching .. | .matchTags .. | .setField .. | .filterLabels .. | .filterKeypoints ..
  | .excludeFields .. => true
  | _ => false

namespace Executor

variable (ex : Executor)

def step (stage : Stage) (d : Document) : Option Document := (ex.apply stage [d]).head?

def steps : List Stage → Document → Option Document
  | [], d => some d
  | stage :: stages, d => (ex.step stage d).bind (steps stages)

theorem filter_eq_filterMap {α : Type} (p : α → Bool) (xs : List α) :
    xs.filter p = xs.filterMap fun x => ([x].filter p).head? := by
  conv_lhs => rw [← List.filterMap_eq_filter]
  congr 1
  funext x
  cases hp : p x <;> simp [Option.guard, hp]

theorem keepPruned_eq_filterMap (onlyMatches : Bool) (change : Document → Document × Nat)
    (docs : List Document) :
    keepPruned onlyMatches change docs =
      docs.filterMap fun d => (keepPruned onlyMatches change [d]).head? := by
  rw [keepPruned]
  congr 1
  funext d
  simp only [keepPruned, List.filterMap_cons, List.filterMap_nil]
  split <;> simp_all

theorem apply_eq_filterMap {stage : Stage} (h : stage.isStepwise) (docs : List Document) :
    ex.apply stage docs = docs.filterMap (ex.step stage) := by
  cases stage with
  | matching | matchTags => exact filter_eq_filterMap _ docs
  | setField | excludeFields => exact List.filterMap_eq_map.symm ▸ rfl
  | filterLabels | filterKeypoints => exact keepPruned_eq_filterMap _ _ docs
  | _ => cases h

theorem run_eq_filterMap {stages : List Stage} (h : ∀ stage ∈ stages, stage.isStepwise)
    (docs : List Document) : ex.run stages docs = docs.filterMap (ex.steps stages) := by
  induction stages generalizing docs with
  | nil => exact List.filterMap_some.symm
  | cons stage stages ih =>
    obtain ⟨hfirst, hrest⟩ := List.forall_mem_cons.1 h
    rw [run_cons, ex.apply_eq_filterMap hfirst, ih hrest, List.filterMap_filterMap]
    rfl

theorem run_eq_flatMap {stages : List Stage} (h : ∀ stage ∈ stages, stage.isStepwise)
    (docs : List Document) : ex.run stages docs = docs.flatMap fun d => ex.run stages [d] := by
  rw [ex.run_eq_filterMap h]
  induction docs with
  | nil => rfl
  | cons d docs ih =>
    rw [List.flatMap_cons, ← ih, ex.run_eq_filterMap h [d], ← List.filterMap_append,
      List.singleton_append]

theorem steps_append (stages later : List Stage) (d : Document) :
    ex.steps (stages ++ later) d = (ex.steps stages d).bind (ex.steps later) := by
  induction stages generalizing d with
  | nil => rfl
  | cons stage stages ih =>
    rw [List.cons_append, steps, steps, Option.bind_assoc]
    exact congrArg _ (funext ih)

/-- A stage for which a field that is lost makes no difference: it keeps the same documents, and in
what it leaves of them no more is lost. -/
def Ignores (names : List String) (stage : Stage) : Prop :=
  ∀ d d', Document.Loses names d d' →
    Option.Rel (Document.Loses names) (ex.step stage d) (ex.step stage d')

variable {ex} {names : List String}

theorem Ignores.steps {stages : List Stage} (h : ∀ stage ∈ stages, ex.Ignores names stage)
    {d d' : Document} (hlost : Document.Loses names d d') :
    Option.Rel (Document.Loses names) (ex.steps stages d) (ex.steps stages d') := by
  induction stages generalizing d d' with
  | nil => exact .some hlost
  | cons stage stages ih =>
    obtain ⟨hfirst, hrest⟩ := List.forall_mem_cons.1 h
    have hstep := hfirst d d' hlost
    rw [Executor.steps, Executor.steps]
    generalize ex.step stage d = left at hstep
    generalize ex.step stage d' = right at hstep
    cases hstep with
    | none => exact .none
    | some hstep => exact ih hrest hstep

theorem Ignores.of_filter {stage : Stage} {test : Document → Bool}
    (hstage : ∀ docs, ex.apply stage docs = docs.filter test)
    (htest : ∀ d d', Document.Loses names d d' → test d = test d') : ex.Ignores names stage := by
  intro d d' hlost
  rw [step, step, hstage, hstage, List.filter_cons, List.filter_cons, htest d d' hlost]
  split
  · exact .some hlost
  · exact .none

theorem Ignores.matchTags (hnames : ¬names <+: ["tags"]) (tags : List String) (wanted : Bool) :
    ex.Ignores names (.matchTags tags wanted) := by
  refine of_filter (fun _ => rfl) fun d d' hlost => ?_
  have htag : Value.SeesFace fun v => (v.string?).any tags.contains := by
    intro v
    dsimp only
    rw [Value.string?_face]
  rw [Document.hasTag, Document.hasTag, htag.any (hlost.reached_eq hnames)]

theorem Ignores.setField {field : String} {value : Json} {allowMissing : Bool}
    (hfield : ¬names <+: Path.components field)
    (hvalue : ∀ d d', Document.Loses names d d' →
      ex.denote value ⟨d, []⟩ = ex.denote value ⟨d', []⟩ ∨
        ∃ rest, names = Path.components field ++ rest ∧
          Value.Loses rest (ex.denote value ⟨d, []⟩) (ex.denote value ⟨d', []⟩)) :
    ex.Ignores names (.setField field value allowMissing) := by
  intro d d' hlost
  exact .some (Document.loses_assign hlost hfield (hvalue d d' hlost))

theorem keepPruned_loses (onlyMatches : Bool) {change : Document → Document × Nat} {d d' : Document}
    (hlost : Document.Loses names (change d).1 (change d').1) (hcount : (change d).2 = (change d').2) :
    Option.Rel (Document.Loses names) (keepPruned onlyMatches change [d]).head?
      (keepPruned onlyMatches change [d']).head? := by
  simp only [keepPruned, List.filterMap_cons, List.filterMap_nil, hcount]
  cases onlyMatches && (change d').2 == 0
  · exact .some hlost
  · exact .none

theorem Ignores.filterLabels {field : String} {predicate : Json} {onlyMatches : Bool}
    {test : Value → Bool} (htest : ∀ d, ex.admits predicate d = test)
    (hfield : ¬names <+: Path.components field)
    (hprune : ∀ rest, names = Path.components field ++ rest →
      Value.KeepsLoss (Value.pruneLabels test) rest) :
    ex.Ignores names (.filterLabels field predicate onlyMatches) := by
  intro d d' hlost
  obtain ⟨hkept, hcount⟩ := Value.KeepsLoss.changeInLevel hfield hprune _ _ hlost
  refine keepPruned_loses onlyMatches ?_ ?_
  · rw [Executor.filterLabels, Executor.filterLabels, htest, htest]
    exact Document.loses_ofValue hkept
  · rw [Executor.filterLabels, Executor.filterLabels, htest, htest]
    exact hcount

theorem Ignores.filterKeypoints {field : String} {predicate : Option Json}
    {labels : Option (List String)} {onlyMatches : Bool} {test : Value → Bool}
    (htest : ∀ d element, (predicate.all fun p => ex.admits p d element) = test element)
    (hfield : ¬names <+: Path.components field)
    (hprune : ∀ rest, names = Path.components field ++ rest →
      ∀ named : Nat → Bool, Value.KeepsLoss
        (Value.prunePoints fun index point => named index && test (.obj point)) rest) :
    ex.Ignores names (.filterKeypoints field predicate labels onlyMatches) := by
  intro d d' hlost
  obtain ⟨hkept, hcount⟩ := Value.KeepsLoss.changeAt hfield (fun rest hrest => hprune rest hrest
    fun index => labels.all fun names => ((ex.skeleton field)[index]?).any names.contains) _ _ hlost
  refine keepPruned_loses onlyMatches ?_ ?_
  · simp only [Executor.filterKeypoints, htest]
    exact Document.loses_ofValue hkept
  · simp only [Executor.filterKeypoints, htest]
    exact hcount

end Executor
end MediaViews
