import MediaViews.Proofs.Executor.Steps
import MediaViews.Proofs.Filter.Asking
import MediaViews.Proofs.Filter.Judging
import MediaViews.Proofs.Filter.Parts

/-! The footprints of filters: the paths of a document at which their stages look. A field that is
removed elsewhere is not missed. -/
namespace MediaViews

namespace Json

mutual

def askedPaths : Json → List String
  | .obj members => membersPaths members
  | _ => []

def membersPaths : List (String × Json) → List String
  | [] => []
  | (key, condition) :: members =>
    (if key = "$expr" then []
      else if Query.connectives.contains key then eachPaths condition
      else [key]) ++ membersPaths members

def eachPaths : Json → List String
  | .arr conditions => itemsPaths conditions
  | _ => []

def itemsPaths : List Json → List String
  | [] => []
  | j :: js => askedPaths j ++ itemsPaths js

end

end Json

namespace Query

variable {paths : List String}

mutual

theorem mem_of_mem_askedPaths : ∀ {q : Query}, q.asksOnly paths → ∀ path ∈ q.toJson.askedPaths,
    path ∈ paths
  | .all qs, h, path, hpath => by
    have hitems : path ∈ Json.itemsPaths (listJson qs) := by
      simpa [toJson, Json.askedPaths, Json.membersPaths, connectives, Json.eachPaths] using hpath
    have hlist : asksOnlyList paths qs := h
    exact mem_of_mem_itemsPaths hlist path hitems
  | .any qs, h, path, hpath => by
    have hitems : path ∈ Json.itemsPaths (listJson qs) := by
      simpa [toJson, Json.askedPaths, Json.membersPaths, connectives, Json.eachPaths] using hpath
    have hlist : asksOnlyList paths qs := h
    exact mem_of_mem_itemsPaths hlist path hitems
  | .neither qs, h, path, hpath => by
    have hitems : path ∈ Json.itemsPaths (listJson qs) := by
      simpa [toJson, Json.askedPaths, Json.membersPaths, connectives, Json.eachPaths] using hpath
    have hlist : asksOnlyList paths qs := h
    exact mem_of_mem_itemsPaths hlist path hitems
  | .field key test, h, path, hpath => by
    have hkey : key ∈ paths := by simpa [asksOnly] using h
    have hnone : Json.eachPaths test.toJson = [] := by cases test <;> rfl
    rw [toJson, Json.askedPaths, Json.membersPaths, Json.membersPaths, List.append_nil] at hpath
    split at hpath
    · cases hpath
    · split at hpath
      · rw [hnone] at hpath
        cases hpath
      · rwa [List.mem_singleton.1 hpath]
  | .expr e, _, path, hpath => by
    simp [toJson, Json.askedPaths, Json.membersPaths] at hpath

theorem mem_of_mem_itemsPaths : ∀ {qs : List Query}, asksOnlyList paths qs →
    ∀ path ∈ Json.itemsPaths (listJson qs), path ∈ paths
  | [], _, _, hpath => absurd hpath List.not_mem_nil
  | q :: qs, h, path, hpath => by
    simp only [asksOnlyList, Bool.and_eq_true] at h
    rw [listJson, Json.itemsPaths, List.mem_append] at hpath
    rcases hpath with hpath | hpath
    · exact mem_of_mem_askedPaths h.1 path hpath
    · exact mem_of_mem_itemsPaths h.2 path hpath

end

end Query

namespace Stage

def reads : Stage → List String
  | matching condition => condition.askedPaths
  | matchTags .. => ["tags"]
  | setField field .. | filterLabels field .. | filterKeypoints field .. => [field]
  | _ => []

end Stage

def Value.labelPaths (field name : List String) : List (List String) :=
  (field ++ name) :: labelLists.map fun list => field ++ list :: name

namespace Executor

variable (ex : Executor)

structure Within (footprint : List (List String)) (stage : Stage) : Prop where
  stepwise : stage.isStepwise
  reads : ∀ path ∈ stage.reads, ∃ names ∈ footprint, Path.components path <+: names
  ignores : ∀ names, (∀ path ∈ footprint, ¬names <+: path) → ex.Ignores names stage

variable {ex} {footprint : List (List String)}

theorem Within.mono {larger : List (List String)} {stage : Stage} (h : ex.Within footprint stage)
    (hlarger : ∀ names ∈ footprint, names ∈ larger) : ex.Within larger stage where
  stepwise := h.stepwise
  reads path hpath := by
    obtain ⟨names, hnames, hfront⟩ := h.reads path hpath
    exact ⟨names, hlarger names hnames, hfront⟩
  ignores names hspared := h.ignores names fun path hpath => hspared path (hlarger path hpath)

theorem Within.matchQuery {q : Query} (paths : List String) (hq : q.asksOnly paths)
    (hpaths : ∀ path ∈ paths, path ≠ "$expr" ∧ Path.components path ∈ footprint) :
    ex.Within footprint (.matchQuery q) where
  stepwise := rfl
  reads path hpath :=
    ⟨_, (hpaths path (Query.mem_of_mem_askedPaths hq path hpath)).2, List.prefix_refl _⟩
  ignores names hspared := by
    refine Ignores.of_filter (fun _ => rfl) fun d d' hlost => ?_
    refine ex.satisfies_congr (fun path hpath => ⟨(hpaths path hpath).1, ?_⟩) hq
    exact hlost.reached_eq (hspared _ (hpaths path hpath).2)

theorem Within.matchTags (tags : List String) (wanted : Bool) :
    ex.Within [["tags"]] (.matchTags tags wanted) where
  stepwise := rfl
  reads path hpath := by
    obtain rfl := List.mem_singleton.1 hpath
    exact ⟨["tags"], List.mem_singleton_self _, by decide⟩
  ignores names hspared :=
    Ignores.matchTags (hspared ["tags"] (List.mem_singleton_self _)) tags wanted

/-- What a predicate on an attribute admits does not depend on the document, nor on what is lost at a
path that does not begin the attribute's. -/
theorem exists_admits {predicate : Expr} {name : String} (hread : predicate.readable)
    (hjudges : ex.Judges predicate (.thisField name)) :
    ∃ test : Value → Bool, (∀ d, ex.admits predicate.toJson d = test) ∧
      ∀ names, ¬names <+: Path.components name → Value.IgnoresLoss test names := by
  obtain ⟨test, hface, heval⟩ := hjudges
  refine ⟨fun v => test (v.valueAt (Path.components name)), fun d => ?_, fun names hnames v w h => ?_⟩
  · funext v
    rw [admits, denote_toJson ex hread, heval]
    rfl
  · dsimp only
    rw [← hface, h.face_valueAt hnames, hface]

/-! Of a path that stands beside the removed one, and of what is removed below a field. -/

theorem not_prefix_of_append {names path rest : List String} (h : ¬names <+: path ++ rest) :
    ¬names <+: path := fun hbegins => h (hbegins.trans (List.prefix_append path rest))

theorem not_prefix_rest {names path more rest : List String} (hnames : names = path ++ more)
    (h : ¬names <+: path ++ rest) : ¬more <+: rest := by
  subst hnames
  rwa [List.prefix_append_right_inj] at h

section Labels

variable {field : String} {name : List String} {names rest : List String}

theorem spared_label
    (hspared : ∀ path ∈ Value.labelPaths (Path.components field) name, ¬names <+: path) :
    ¬names <+: Path.components field ++ name := hspared _ List.mem_cons_self

theorem spared_element
    (hspared : ∀ path ∈ Value.labelPaths (Path.components field) name, ¬names <+: path)
    {list : String} (hlist : list ∈ Value.labelLists) :
    ¬names <+: Path.components field ++ list :: name :=
  hspared _ (List.mem_cons_of_mem _ (List.mem_map.2 ⟨list, hlist, rfl⟩))

end Labels

theorem Within.filterLabelsBy {field name : String} {predicate : Expr} (onlyMatches : Bool)
    (hread : predicate.readable) (hjudges : ex.Judges predicate (.thisField name)) :
    ex.Within (Value.labelPaths (Path.components field) (Path.components name))
      (.filterLabelsBy field predicate onlyMatches) where
  stepwise := rfl
  reads path hpath := by
    obtain rfl := List.mem_singleton.1 hpath
    exact ⟨_, List.mem_cons_self, List.prefix_append _ _⟩
  ignores names hspared := by
    obtain ⟨test, hadmits, hignores⟩ := exists_admits hread hjudges
    refine Ignores.filterLabels hadmits (not_prefix_of_append (spared_label hspared))
      fun rest hrest => ?_
    have helement : ∀ list ∈ Value.labelLists, ¬rest <+: list :: Path.components name :=
      fun list hlist => not_prefix_rest hrest (spared_element hspared hlist)
    refine Value.keepsLoss_pruneLabels (hignores rest (not_prefix_rest hrest (spared_label hspared)))
      (fun list hlist h => helement list hlist (h ▸ List.prefix_append [list] _))
      fun list hlist more hmore => hignores more fun hfront => ?_
    exact helement list hlist (hmore ▸ List.cons_prefix_cons.2 ⟨rfl, hfront⟩)

theorem Within.filterKeypoints {field : String} {predicate : Option Json}
    {labels : Option (List String)} {onlyMatches : Bool} {name : List String} (test : Value → Bool)
    (htest : ∀ d element, (predicate.all fun p => ex.admits p d element) = test element)
    (hignores : ∀ names, ¬names <+: name → Value.IgnoresLoss test names) :
    ex.Within (Value.labelPaths (Path.components field) name ++
        Value.labelPaths (Path.components field) [Filter.pointsAttribute])
      (.filterKeypoints field predicate labels onlyMatches) where
  stepwise := rfl
  reads path hpath := by
    obtain rfl := List.mem_singleton.1 hpath
    exact ⟨_, List.mem_append_left _ List.mem_cons_self, List.prefix_append _ _⟩
  ignores names hspared := by
    obtain ⟨hname, hpoints⟩ := List.forall_mem_append.1 hspared
    have hkeypoints : "keypoints" ∈ Value.labelLists := by decide
    -- The points are looked at beside the attribute that the predicate is about.
    refine Ignores.filterKeypoints htest (not_prefix_of_append (spared_label hname))
      fun rest hrest named => ?_
    have hlist : ¬rest <+: ["keypoints", Filter.pointsAttribute] :=
      not_prefix_rest hrest (spared_element hpoints hkeypoints)
    have hpoint : ∀ {names : List String}, ¬names <+: name → ∀ index d d',
        Document.Loses names d d' →
          (named index && test (.obj d)) = (named index && test (.obj d')) :=
      fun hnames index d d' hlost => congrArg _ (hignores _ hnames _ _ hlost)
    refine Value.keepsLoss_prunePoints (fun h => hlist (h ▸ by decide))
      (fun h => not_prefix_rest hrest (spared_label hpoints) (h ▸ List.prefix_refl _))
      (hpoint (not_prefix_rest hrest (spared_label hname))) fun more hmore => ?_
    subst hmore
    refine ⟨fun h => hlist (h ▸ List.prefix_refl _), hpoint fun hfront => ?_⟩
    exact not_prefix_rest hrest (spared_element hname hkeypoints)
      (List.cons_prefix_cons.2 ⟨rfl, hfront⟩)

theorem exists_reference (ex : Executor) (path : String) :
    ∃ e : Expr, e.readable ∧ e.toJson = (Expr.field path).toJson ∧
      ((∀ d, ex.eval e ⟨d, []⟩ = (Value.obj d).valueAt (Path.components path)) ∨
        ∀ d, ex.eval e ⟨d, []⟩ = .null) := by
  cases hdollar : Expr.beginsWithDollar path with
  | false => exact ⟨.field path, by simp [Expr.field, Expr.readable, hdollar], rfl, .inl fun d => rfl⟩
  | true =>
    obtain ⟨e, hread, hjson, hnull⟩ := LabelTags.exists_var_of_beginsWithDollar ex hdollar
    exact ⟨e, hread, hjson, .inr hnull⟩

def filtered (test : Value → Bool) (v : Value) : Value :=
  match v.orEmpty with
  | .arr items => .arr (items.filter test)
  | _ => .null

theorem loses_filtered {names : List String} {test : Value → Bool} {v w : Value}
    (h : Value.Loses names v w) (htest : Value.IgnoresLoss test names) :
    Value.Loses names (filtered test v) (filtered test w) := by
  rcases h.shape with rfl | ⟨d, d', rfl, rfl⟩ | ⟨vs, ws, rfl, rfl⟩
  · exact .nothing
  · exact .nothing
  · exact .of_forall₂ (Value.Loses.filter htest h.forall₂)

theorem denote_filter {list predicate : Expr} {path : String} {test : Value → Bool}
    (hlist : list.readable) (hjson : list.toJson = (Expr.field path).toJson)
    (hread : predicate.readable) (htest : ∀ d, ex.admits predicate.toJson d = test) (d : Document) :
    ex.denote (Expr.filter (Expr.field path).orEmpty predicate).toJson ⟨d, []⟩ =
      filtered test (ex.eval list ⟨d, []⟩) := by
  have hsame : (Expr.filter (Expr.field path).orEmpty predicate).toJson =
      (Expr.filter list.orEmpty predicate).toJson := by
    simp only [Expr.toJson, Expr.orEmpty, hjson]
  have hreadable : (Expr.filter list.orEmpty predicate).readable := by
    simp [Expr.readable, Expr.orEmpty, Expr.emptyArray, hlist, hread]
  have hitem : ∀ item, (ex.eval predicate (Scope.bind ⟨d, []⟩ "this" item)).isTrue = test item := by
    intro item
    rw [← htest d, admits, denote_toJson ex hread]
    rfl
  rw [hsame, denote_toJson ex hreadable, eval, LabelTags.eval_orEmpty, ← funext hitem]
  rfl

theorem Within.setFiltered {field name : String} {predicate : Expr} (hread : predicate.readable)
    (hjudges : ex.Judges predicate (.thisField name)) :
    ex.Within [Path.components field ++ Path.components name]
      (.set field (.filter (Expr.field field).orEmpty predicate)) where
  stepwise := rfl
  reads path hpath := by
    obtain rfl := List.mem_singleton.1 hpath
    exact ⟨_, List.mem_singleton_self _, List.prefix_append _ _⟩
  ignores names hspared := by
    have hname := hspared _ (List.mem_singleton_self _)
    have hfield := not_prefix_of_append hname
    obtain ⟨test, htest, hignores⟩ := exists_admits hread hjudges
    obtain ⟨list, hlist, hjson, hvalue⟩ := exists_reference ex field
    have hdenote := denote_filter hlist hjson hread htest
    refine Ignores.setField hfield fun d d' hlost => ?_
    rw [hdenote, hdenote]
    -- A path that no reference can be written to is filtered to an empty list in every document.
    rcases hvalue with hvalue | hnull
    · rw [hvalue, hvalue]
      rcases hlost.valueAt hfield with heq | ⟨rest, hrest, hrests⟩
      · exact .inl (by rw [heq])
      · exact .inr ⟨rest, hrest, loses_filtered hrests (hignores rest (not_prefix_rest hrest hname))⟩
    · exact .inl (by rw [hnull, hnull])

end Executor
namespace FilterTarget

/-- Where the stages of a filter look: at its own path, at an attribute of what a list holds, or at
an attribute of the labels of a field and, to prune points, at their points. -/
def footprint (c : Catalog) (t : FilterTarget) : List (List String) :=
  let owner := Path.components t.ownerPath
  let name := Path.components t.field.storageName
  if t.matchesDocuments then [Path.components (c.storagePath t.path)]
  else if t.prunesList then [owner ++ name]
  else Value.labelPaths owner name ++ Value.labelPaths owner [Filter.pointsAttribute]

variable {ex : Executor} {ctx : FilterContext} {t : FilterTarget} {part : FilterPart}

theorem footprint_of_matchesDocuments (h : t.matchesDocuments) (c : Catalog) :
    t.footprint c = [Path.components (c.storagePath t.path)] := if_pos h

theorem elementPredicate_spec (ex : Executor) {predicate : Expr} (h : t.elementPredicate = .ok predicate) :
    predicate.readable ∧ ex.Judges predicate (.thisField t.field.storageName) := by
  have hthis : (Expr.thisField t.field.storageName).readable := by
    simp [Expr.thisField, Expr.varField, Expr.readable]
  exact ⟨Filter.readable_predicate hthis h, Filter.judges_predicate ex _ h⟩

theorem within_listStage {stage : Stage} (hprunes : t.prunesList)
    (hlist : ctx.catalog.storagePath t.ownerPath = t.ownerPath)
    (h : t.listStage ctx.catalog = .ok stage) : ex.Within (t.footprint ctx.catalog) stage := by
  have hfootprint : t.footprint ctx.catalog =
      [Path.components t.ownerPath ++ Path.components t.field.storageName] := by
    rcases t.role_cases with ⟨-, hrole, -⟩ | ⟨hmatch, hrole, -⟩ | ⟨-, hrole, -⟩
    · simp [hprunes] at hrole
    · simp [footprint, hmatch, hrole]
    · simp [hprunes] at hrole
  obtain ⟨predicate, hpredicate, rfl⟩ := exists_of_listStage_eq_ok h
  obtain ⟨hread, hjudges⟩ := elementPredicate_spec ex hpredicate
  rw [hfootprint, hlist]
  exact .setFiltered hread hjudges

theorem within_keypointStage {stage : Stage} {labelPath : String} {field : Field} {f : Filter}
    {skeletons : Skeletons}
    (h : Filter.keypointStage labelPath field f skeletons = .ok stage) :
    ex.Within (Value.labelPaths (Path.components labelPath) (Path.components field.storageName) ++
      Value.labelPaths (Path.components labelPath) [Filter.pointsAttribute]) stage := by
  rcases keypointStage_cases h with ⟨names, rfl⟩ | ⟨kind, predicate, hpredicate, rfl⟩
  · exact .filterKeypoints (fun _ => true) (fun _ _ => rfl) fun _ _ _ _ _ => rfl
  · have hthis : (Expr.thisField field.storageName).readable := by
      simp [Expr.thisField, Expr.varField, Expr.readable]
    obtain ⟨hread, hjudges⟩ := Filter.pointPredicate_spec ex _ hthis hpredicate
    obtain ⟨test, htest, hignores⟩ := Executor.exists_admits hread hjudges
    exact .filterKeypoints test (fun d element => congrFun (htest d) element) hignores

theorem within_labelStage {stage : Stage} (hprunes : t.prunesLabels)
    (h : t.labelStage ctx = .ok stage) : ex.Within (t.footprint ctx.catalog) stage := by
  have hfootprint : t.footprint ctx.catalog =
      Value.labelPaths (Path.components t.ownerPath) (Path.components t.field.storageName) ++
        Value.labelPaths (Path.components t.ownerPath) [Filter.pointsAttribute] := by
    rcases t.role_cases with ⟨-, -, hrole⟩ | ⟨-, -, hrole⟩ | ⟨hmatch, hlist, -⟩
    · simp [hprunes] at hrole
    · simp [hprunes] at hrole
    · simp [footprint, hmatch, hlist]
  rw [hfootprint]
  rcases labelStage_cases h with ⟨-, h⟩ | ⟨-, predicate, hpredicate, rfl⟩
  · exact within_keypointStage h
  · obtain ⟨hread, hjudges⟩ := elementPredicate_spec ex hpredicate
    exact (Executor.Within.filterLabelsBy _ hread hjudges).mono fun names hnames =>
      List.mem_append_left _ hnames

end FilterTarget
end MediaViews
