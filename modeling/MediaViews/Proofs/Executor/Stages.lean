import MediaViews.LabelTags.Counts
import MediaViews.Proofs.Executor.Written

/-! What stages make of a list of documents, one stage after the other. -/
namespace MediaViews

namespace Value

/-- Changes the value at a path through embedded documents, if there is one. The change also counts
what it keeps. -/
def changeAt (change : Value → Value × Nat) : List String → Value → Value × Nat
  | [], v => change v
  | name :: names, v =>
    match v with
    | .obj fields =>
      match fields.lookup name with
      | some inner =>
        let changed := changeAt change names inner
        (.obj (Document.set name changed.1 fields), changed.2)
      | none => (v, 0)
    | _ => (v, 0)

def changeInLevel (change : Value → Value × Nat) : List String → Value → Value × Nat
  | [], v => change v
  | [name], v => changeAt change [name] v
  | name :: names, v =>
    if name = LabelTags.framesField then
      match v with
      | .obj fields =>
        match fields.lookup name with
        | some (.arr frames) =>
          let changed := frames.map (changeInLevel change names)
          (.obj (Document.set name (.arr (changed.map (·.1))) fields), (changed.map (·.2)).sum)
        | _ => (v, 0)
      | _ => (v, 0)
    else changeAt change (name :: names) v

def labelLists : List String := ["detections", "classifications", "polylines", "keypoints"]

def pruneLabels (test : Value → Bool) (v : Value) : Value × Nat :=
  match v with
  | .null => (v, 0)
  | .obj fields =>
    match labelLists.find? fun name => (fields.lookup name).any isList with
    | some name =>
      let kept := ((fields.lookup name).getD .null).items.filter test
      (.obj (Document.set name (.arr kept) fields), kept.length)
    | none => if test v then (v, 1) else (.null, 0)
  | _ => if test v then (v, 1) else (.null, 0)

def pointOf (label : Document) (count index : Nat) : Document :=
  label.filterMap fun field =>
    if field.2.isList && field.2.items.length == count then
      some (field.1, (field.2.items[index]?).getD .null)
    else none

def prunePointsOf (test : Nat → Document → Bool) (v : Value) : Value × Nat :=
  match v with
  | .obj fields =>
    match fields.lookup "points" with
    | some (.arr points) =>
      let keeps (index : Nat) := test index (pointOf fields points.length index)
      let kept := points.zipIdx.map fun p => if keeps p.2 then p.1 else .null
      (.obj (Document.set "points" (.arr kept) fields),
        if (List.range points.length).any keeps then 1 else 0)
    | _ => (v, 0)
  | _ => (v, 0)

def prunePoints (test : Nat → Document → Bool) (v : Value) : Value × Nat :=
  match v with
  | .obj fields =>
    match fields.lookup "keypoints" with
    | some (.arr labels) =>
      let pruned := labels.map (prunePointsOf test)
      (.obj (Document.set "keypoints" (.arr (pruned.map (·.1))) fields), (pruned.map (·.2)).sum)
    | _ => prunePointsOf test v
  | _ => (v, 0)

def dropField (name : String) (v : Value) : Value × Nat :=
  match v with
  | .obj fields => (.obj (Document.without name fields), 0)
  | _ => (v, 0)

def removeAt : List String → Value → Value
  | [], v => v
  | [name], v => (dropField name v).1
  | name :: names, v =>
    if name = LabelTags.framesField then
      match v with
      | .obj fields =>
        match fields.lookup name with
        | some (.arr frames) =>
          .obj (Document.set name (.arr (frames.map (removeAt names))) fields)
        | _ => v
      | _ => v
    else (changeAt (dropField (names.getLastD name)) (name :: names).dropLast v).1

end Value

namespace Document

def ofValue (v : Value) : Document :=
  match v with
  | .obj fields => fields
  | _ => []

def id? (d : Document) : Option String :=
  match d.lookup "_id" with
  | some (.objectId id) => some id.toHex
  | _ => none

def hasTag (tags : List String) (d : Document) : Bool :=
  ((Value.obj d).reached ["tags"]).any fun v => (v.string?).any tags.contains

def project (names : List String) (d : Document) : Document :=
  names.foldl
    (fun projected name =>
      let path := Path.components name
      match (Value.obj d).at? path with
      | some v => projected.assign path v
      | none => projected)
    [("_id", (d.lookup "_id").getD .null)]

def remove (names : List String) (d : Document) : Document :=
  names.foldl (fun d name => ofValue ((Value.obj d).removeAt (Path.components name))) d

end Document

namespace Executor

variable (ex : Executor)

/-- Whether an element satisfies a written predicate. The document is the one before any pruning. -/
def admits (predicate : Json) (d : Document) (element : Value) : Bool :=
  (ex.denote predicate (Scope.ofThis d element)).isTrue

def pruned (change : Value → Value × Nat) (path : String) (d : Document) : Document × Nat :=
  let changed := (Value.obj d).changeInLevel change (Path.components path)
  (.ofValue changed.1, changed.2)

def filterLabels (field : String) (predicate : Json) (d : Document) : Document × Nat :=
  pruned (Value.pruneLabels (ex.admits predicate d)) field d

def filterKeypoints (field : String) (predicate : Option Json) (labels : Option (List String))
    (d : Document) : Document × Nat :=
  let test (index : Nat) (point : Document) :=
    labels.all (fun names => ((ex.skeleton field)[index]?).any names.contains) &&
      predicate.all fun p => ex.admits p d (.obj point)
  let changed := (Value.obj d).changeAt (Value.prunePoints test) (Path.components field)
  (.ofValue changed.1, changed.2)

def keepPruned (onlyMatches : Bool) (change : Document → Document × Nat)
    (docs : List Document) : List Document :=
  docs.filterMap fun d =>
    let changed := change d
    if onlyMatches && changed.2 == 0 then none else some changed.1

def setField (field : String) (expr : Json) (d : Document) : Document :=
  d.assign (Path.components field) (ex.denote expr ⟨d, []⟩)

def slice? (d : Document) : Option String :=
  ((Value.obj d).at? (Path.components (ex.groupField ++ ".name"))).bind Value.string?

def inSlices (slices : Option (List String)) (d : Document) : Bool :=
  slices.all fun names => (ex.slice? d).any names.contains

def apply (stage : Stage) (docs : List Document) : List Document :=
  match stage with
  | .matching condition => docs.filter (ex.satisfies condition)
  | .matchTags tags wanted => docs.filter fun d => d.hasTag tags == wanted
  | .setField field expr _ => docs.map (ex.setField field expr)
  | .filterLabels field predicate onlyMatches =>
    keepPruned onlyMatches (ex.filterLabels field predicate) docs
  | .filterKeypoints field predicate labels onlyMatches =>
    keepPruned onlyMatches (ex.filterKeypoints field predicate labels) docs
  | .selectFields names => docs.map (Document.project names)
  | .excludeFields names => docs.map (Document.remove names)
  | .select ids false => docs.filter fun d => d.id?.any ids.contains
  | .selectBy field values false =>
    docs.filter fun d =>
      ((Value.obj d).reached (Path.components field)).any fun v =>
        values.any fun j => v.same (.ofJson j)
  | .exclude ids => docs.filter fun d => !d.id?.any ids.contains
  | .selectGroupSlices slices _ _ => docs.filter (ex.inSlices slices)
  | .limit count => docs.take count.toNat
  | .skip count => docs.drop count.toNat
  | .select _ true | .selectBy _ _ true | .groupBy .. | .sortBy .. | .sortBySimilarity ..
  | .take .. | .shuffle .. | .pipeline .. => ex.rearrange stage docs

def run (stages : List Stage) (docs : List Document) : List Document :=
  stages.foldl (fun docs stage => ex.apply stage docs) docs

theorem run_cons (stage : Stage) (stages : List Stage) (docs : List Document) :
    ex.run (stage :: stages) docs = ex.run stages (ex.apply stage docs) := rfl

theorem run_append (stages later : List Stage) (docs : List Document) :
    ex.run (stages ++ later) docs = ex.run later (ex.run stages docs) :=
  List.foldl_append

end Executor
end MediaViews
