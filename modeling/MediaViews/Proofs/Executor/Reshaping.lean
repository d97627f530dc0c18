import MediaViews.Proofs.Executor.Stages

/-! Stages that neither reorder nor select: each of them drops the documents of other slices, if it
asks for slices, and changes the others where they stand. -/
namespace MediaViews

namespace Executor

variable (ex : Executor)

def reshape (stage : Stage) (d : Document) : Document :=
  match stage with
  | .setField field expr _ => ex.setField field expr d
  | .filterLabels field predicate _ => (ex.filterLabels field predicate d).1
  | .filterKeypoints field predicate labels _ => (ex.filterKeypoints field predicate labels d).1
  | .selectFields names => d.project names
  | .excludeFields names => d.remove names
  | _ => d

def admitsSlice (stage : Stage) (d : Document) : Bool :=
  match stage with
  | .selectGroupSlices slices _ _ => ex.inSlices slices d
  | _ => true

def reshapeAll (stages : List Stage) (d : Document) : Document :=
  stages.foldl (fun d stage => ex.reshape stage d) d

theorem keepPruned_false (change : Document → Document × Nat) (docs : List Document) :
    keepPruned false change docs = docs.map fun d => (change d).1 := by
  rw [keepPruned, ← List.filterMap_eq_map]
  rfl

theorem filter_admitsSlice {stage : Stage} (h : stage.selectsGroupSlices = false)
    (docs : List Document) : docs.filter (ex.admitsSlice stage) = docs := by
  rw [List.filter_eq_self]
  intro d _
  cases stage with
  | selectGroupSlices slices allowMixed forceMixed => cases h
  | _ => rfl

theorem apply_eq_map_reshape {stage : Stage} (h : stage.reordersOrSelects = false)
    (docs : List Document) :
    ex.apply stage docs = (docs.filter (ex.admitsSlice stage)).map (ex.reshape stage) := by
  cases stage with
  | setField | selectFields | excludeFields => rw [ex.filter_admitsSlice rfl]; rfl
  | filterLabels field predicate onlyMatches =>
    obtain rfl : onlyMatches = false := h
    rw [ex.filter_admitsSlice rfl, apply, keepPruned_false]
    rfl
  | filterKeypoints field predicate labels onlyMatches =>
    obtain rfl : onlyMatches = false := h
    rw [ex.filter_admitsSlice rfl, apply, keepPruned_false]
    rfl
  | selectGroupSlices slices => exact (List.map_id _).symm
  | _ => cases h

theorem run_eq_map_reshapeAll {stages : List Stage}
    (hplace : ∀ stage ∈ stages, stage.reordersOrSelects = false)
    (hslices : ∀ stage ∈ stages, stage.selectsGroupSlices = false) (docs : List Document) :
    ex.run stages docs = docs.map (ex.reshapeAll stages) := by
  induction stages generalizing docs with
  | nil => exact (List.map_id docs).symm
  | cons stage stages ih =>
    obtain ⟨hfirst, hplace⟩ := List.forall_mem_cons.1 hplace
    obtain ⟨hfree, hslices⟩ := List.forall_mem_cons.1 hslices
    rw [run_cons, ex.apply_eq_map_reshape hfirst, ex.filter_admitsSlice hfree,
      ih hplace hslices, List.map_map]
    rfl

end Executor

/-- What runs the stages of a view: each stage that neither reorders nor selects as the executor
does, and every other stage in any way. -/
structure Engine (ex : Executor) where
  act : Stage → List Document → List Document
  act_eq_apply : ∀ stage, stage.reordersOrSelects = false → act stage = ex.apply stage

namespace Engine

variable {ex : Executor} (engine : Engine ex) {α : Type}

def run (stages : List Stage) (docs : List Document) : List Document :=
  stages.foldl (fun docs stage => engine.act stage docs) docs

def ofExecutor (ex : Executor) : Engine ex := ⟨ex.apply, fun _ _ => rfl⟩

def Keeps (read : Document → α) : List Stage → List Document → Prop
  | [], _ => True
  | stage :: stages, docs =>
    (∀ d ∈ docs, read (ex.reshape stage d) = read d) ∧ Keeps read stages (engine.act stage docs)

theorem run_append (stages later : List Stage) (docs : List Document) :
    engine.run (stages ++ later) docs = engine.run later (engine.run stages docs) :=
  List.foldl_append

theorem act_filter {stage : Stage} (h : stage.reordersOrSelects = false) {test : Document → Bool}
    {docs : List Document} (hkeeps : ∀ d ∈ docs, test (ex.reshape stage d) = test d) :
    engine.act stage (docs.filter test) = (engine.act stage docs).filter test := by
  have htest : ∀ d ∈ docs.filter (ex.admitsSlice stage), test (ex.reshape stage d) = test d :=
    fun d hd => hkeeps d (List.mem_of_mem_filter hd)
  rw [engine.act_eq_apply stage h, ex.apply_eq_map_reshape h, ex.apply_eq_map_reshape h,
    List.filter_map, List.filter_comm]
  exact congrArg _ (List.filter_congr fun d hd => (htest d hd).symm)

theorem run_filter {stages : List Stage}
    (hplace : ∀ stage ∈ stages, stage.reordersOrSelects = false) {read : Document → α}
    (test : α → Bool) {docs : List Document} (hkeeps : engine.Keeps read stages docs) :
    engine.run stages (docs.filter fun d => test (read d)) =
      (engine.run stages docs).filter fun d => test (read d) := by
  induction stages generalizing docs with
  | nil => rfl
  | cons stage stages ih =>
    obtain ⟨hfirst, hplace⟩ := List.forall_mem_cons.1 hplace
    obtain ⟨hstage, hkeeps⟩ := hkeeps
    have hact : engine.act stage (docs.filter fun d => test (read d)) =
        (engine.act stage docs).filter fun d => test (read d) :=
      engine.act_filter hfirst fun d hd => congrArg test (hstage d hd)
    calc engine.run stages (engine.act stage (docs.filter fun d => test (read d)))
        = engine.run stages ((engine.act stage docs).filter fun d => test (read d)) := by rw [hact]
      _ = _ := ih hplace hkeeps

end Engine
end MediaViews
