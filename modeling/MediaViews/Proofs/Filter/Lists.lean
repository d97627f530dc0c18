import MediaViews.Proofs.Executor.Assigning
import MediaViews.Proofs.Executor.Reshaping
import MediaViews.Proofs.Filter.Acceptance
import MediaViews.Proofs.Filter.Footprint
import MediaViews.Proofs.Filter.Naming

/-! Filters on embedded lists. Each of them is a stage that reads a list and writes it again, so of
several stages on one list each filters what the ones before it left. -/
namespace MediaViews

open Value (at? Apart)

theorem FieldKind.isList_of_isEmbeddedList {kind : FieldKind} (h : kind.isEmbeddedList) :
    kind.isList := by
  cases kind with
  | list element => rfl
  | _ => cases h

namespace Catalog

/-- The path of a list that is stored under it, is not nested below another list, and can be referred
to in an expression. -/
structure IsPlainList (c : Catalog) (path : String) : Prop where
  stored : c.storagePath path = path
  outermost : ∀ field ∈ c.all, field.kind.isList →
    Path.components field.path <+: Path.components path → field.path = path
  referable : Expr.beginsWithDollar path = false

def DeclaresList (c : Catalog) (path : String) : Prop :=
  ∃ list ∈ c.all, list.path = path ∧ list.kind.isList

theorem IsPlainList.eq_or_apart {c : Catalog} {path other : String} (hplain : c.IsPlainList path)
    (hother : c.IsPlainList other) (hlist : c.DeclaresList path) (hotherList : c.DeclaresList other) :
    path = other ∨ Apart (Path.components path) (Path.components other) := by
  obtain ⟨list, hmem, rfl, hkind⟩ := hlist
  obtain ⟨otherList, hotherMem, rfl, hotherKind⟩ := hotherList
  by_cases heq : list.path = otherList.path
  · exact .inl heq
  · refine .inr ⟨fun hbegins => heq ?_, fun hbegins => heq ?_⟩
    · exact hother.outermost list hmem hkind hbegins
    · exact (hplain.outermost otherList hotherMem hotherKind hbegins).symm

end Catalog

namespace FilterTarget

variable (ex : Executor) {c : Catalog} {t : FilterTarget} {predicate : Expr} {stage : Stage}

def admitsElement (t : FilterTarget) (element : Value) : Bool :=
  match t.elementPredicate with
  | .ok predicate => (ex.eval predicate (.ofThis [] element)).isTrue
  | .error _ => false

theorem admits_elementPredicate (h : t.elementPredicate = .ok predicate) (d : Document) :
    ex.admits predicate.toJson d = t.admitsElement ex := by
  obtain ⟨hread, hjudges⟩ := elementPredicate_spec ex h
  obtain ⟨test, hadmits, -⟩ := Executor.exists_admits hread hjudges
  have hempty : ex.admits predicate.toJson [] = t.admitsElement ex := by
    funext element
    rw [Executor.admits, Executor.denote_toJson ex hread, admitsElement, h]
  rw [hadmits d, ← hadmits [], hempty]

theorem eval_elementPredicate (h : t.elementPredicate = .ok predicate) (d : Document)
    (element : Value) :
    (ex.eval predicate (.ofThis d element)).isTrue = t.admitsElement ex element := by
  obtain ⟨hread, -⟩ := elementPredicate_spec ex h
  rw [← admits_elementPredicate ex h d, Executor.admits, Executor.denote_toJson ex hread]

theorem exists_listStage_iff (c : Catalog) (t : FilterTarget) :
    (∃ stage, t.listStage c = .ok stage) ↔ t.filter.Suits t.field.kind.leaf := by
  rw [← Filter.exists_predicate_iff t.path (.thisField t.field.storageName) t.filter false]
  constructor
  · rintro ⟨stage, h⟩
    obtain ⟨predicate, hpredicate, -⟩ := exists_of_listStage_eq_ok h
    exact ⟨predicate, hpredicate⟩
  · rintro ⟨predicate, hpredicate⟩
    have h : t.elementPredicate = .ok predicate := hpredicate
    exact ⟨_, by rw [listStage, h]; rfl⟩

theorem reshape_listStage (hplain : c.IsPlainList t.ownerPath) (h : t.listStage c = .ok stage)
    {d : Document} (hd : (Value.obj d).leadsToList (Path.components t.ownerPath)) :
    ex.reshape stage d = d.filterAt (Path.components t.ownerPath) (t.admitsElement ex) := by
  obtain ⟨predicate, hpredicate, rfl⟩ := exists_of_listStage_eq_ok h
  obtain ⟨hread, -⟩ := elementPredicate_spec ex hpredicate
  have hlist : (Expr.field t.ownerPath).readable := by
    simp [Expr.field, Expr.readable, hplain.referable]
  have hdenote := Executor.denote_filter hlist rfl hread
    (admits_elementPredicate ex hpredicate) d
  have hvalue : ex.eval (.field t.ownerPath) ⟨d, []⟩ =
      (at? (Path.components t.ownerPath) (.obj d)).getD .null :=
    Value.valueAt_of_not_crossesList (Value.crossesList_of_leadsToList hd)
  have hfiltered : Executor.filtered (t.admitsElement ex) (ex.eval (.field t.ownerPath) ⟨d, []⟩) =
      .arr ((d.itemsAt (Path.components t.ownerPath)).filter (t.admitsElement ex)) := by
    rw [Document.itemsAt, ← hvalue]
    rcases Value.null_or_list_of_leadsToList hd with hnull | ⟨items, hitems⟩
    · rw [show ex.eval (.field t.ownerPath) ⟨d, []⟩ = .null from hnull]
      rfl
    · rw [show ex.eval (.field t.ownerPath) ⟨d, []⟩ = .arr items from hitems]
      rfl
  rw [hplain.stored, Stage.set, Executor.reshape, Executor.setField, hdenote, hfiltered]
  rfl

def listStep (t : FilterTarget) : List String × (Value → Bool) :=
  (Path.components t.ownerPath, t.admitsElement ex)

theorem reshapeAll_listStages {targets : List FilterTarget} {stages : List Stage}
    (hstages : List.Forall₂ (fun t stage => t.listStage c = .ok stage) targets stages)
    (hplain : ∀ t ∈ targets, c.IsPlainList t.ownerPath)
    (hapart : ∀ t ∈ targets, ∀ u ∈ targets, t.ownerPath = u.ownerPath ∨
      Apart (Path.components t.ownerPath) (Path.components u.ownerPath))
    {d : Document}
    (hd : ∀ t ∈ targets, (Value.obj d).leadsToList (Path.components t.ownerPath)) :
    ex.reshapeAll stages d = d.filterEach (targets.map (·.listStep ex)) := by
  induction hstages generalizing d with
  | nil => rfl
  | @cons t stage targets stages hstage hrest ih =>
    obtain ⟨hfirst, hplain⟩ := List.forall_mem_cons.1 hplain
    obtain ⟨hdfirst, hd⟩ := List.forall_mem_cons.1 hd
    have hnext := reshape_listStage ex hfirst hstage hdfirst
    refine ih hplain (fun u hu w hw => hapart u (List.mem_cons_of_mem _ hu) w
      (List.mem_cons_of_mem _ hw)) (d := ex.reshape stage d) ?_ |>.trans ?_
    · intro u hu
      rw [hnext]
      rcases hapart t List.mem_cons_self u (List.mem_cons_of_mem _ hu) with heq | hapart
      · rw [← heq]
        exact Document.leadsToList_assign_self (Path.components_ne_nil _) _ d
      · exact Document.leadsToList_assign_of_apart hapart _ (hd u hu)
    · rw [hnext]
      rfl

/-- Every list is left with the items that satisfy the predicates of all its filters, in their order,
and nothing is changed beside the lists. -/
structure ConjoinsLists (targets : List FilterTarget) (d d' : Document) : Prop where
  lists : ∀ t ∈ targets, t.prunesList →
    at? (Path.components t.ownerPath) (.obj d') = some (.arr
      ((d.itemsAt (Path.components t.ownerPath)).filter fun element =>
        (targets.filter (·.prunesList)).all fun u =>
          u.ownerPath != t.ownerPath || u.admitsElement ex element))
  others : ∀ path, (∀ t ∈ targets, t.prunesList → Apart (Path.components t.ownerPath) path) →
    at? path (.obj d') = at? path (.obj d)

theorem conjoinsLists_filterEach {targets : List FilterTarget}
    (hapart : ∀ t ∈ targets.filter (·.prunesList), ∀ u ∈ targets.filter (·.prunesList),
      t.ownerPath = u.ownerPath ∨ Apart (Path.components t.ownerPath) (Path.components u.ownerPath))
    (d : Document) :
    ConjoinsLists ex targets d
      (d.filterEach ((targets.filter (·.prunesList)).map (·.listStep ex))) where
  lists t ht hprunes := by
    have hmem : t ∈ targets.filter (·.prunesList) := List.mem_filter.2 ⟨ht, hprunes⟩
    have hsteps : ∀ step ∈ (targets.filter (·.prunesList)).map (·.listStep ex),
        step.1 = Path.components t.ownerPath ∨ Apart step.1 (Path.components t.ownerPath) := by
      intro step hstep
      obtain ⟨u, hu, rfl⟩ := List.mem_map.1 hstep
      exact (hapart u hu t hmem).imp_left (congrArg Path.components)
    have hpath (u : FilterTarget) : (Path.components u.ownerPath != Path.components t.ownerPath) =
        (u.ownerPath != t.ownerPath) := by
      rw [Bool.eq_iff_iff, bne_iff_ne, bne_iff_ne]
      exact not_congr ⟨Path.eq_of_components_eq, congrArg Path.components⟩
    rw [Document.at?_filterEach_self hsteps ⟨_, List.mem_map_of_mem hmem, rfl⟩
      (Path.components_ne_nil _)]
    simp only [List.all_map, Function.comp_def, listStep, hpath]
  others path hother := by
    refine Document.at?_filterEach_of_apart (fun step hstep => ?_) d
    obtain ⟨t, ht, rfl⟩ := List.mem_map.1 hstep
    obtain ⟨ht, hprunes⟩ := List.mem_filter.1 ht
    exact hother t ht hprunes

end FilterTarget

namespace FilterContext

open FilterTarget (ofFilters isReserved ConjoinsLists)

variable {ctx : FilterContext} {filters : Filters} {targets : List FilterTarget}
  {stages : List Stage}

theorem declaresList_of_prunesList (htargets : ofFilters ctx.catalog filters = .ok targets)
    {t : FilterTarget} (ht : t ∈ targets) (hprunes : t.prunesList) :
    ctx.catalog.DeclaresList t.ownerPath := by
  obtain ⟨field, -, htarget⟩ :=
    FilterTarget.eq_ofField_of_ofEntry (FilterTarget.ofEntry_of_mem_ofFilters htargets ht)
  have howner : t.owner = ctx.catalog.ownerAt t.path t.ownerPath := by
    rw [htarget]
    rfl
  have hembedded : t.owner = .embeddedList := by
    rw [FilterTarget.prunesList, Bool.and_eq_true, beq_iff_eq] at hprunes
    exact hprunes.1
  obtain ⟨list, hmem, hpath, hkind⟩ :=
    Catalog.exists_list_of_ownerAt (howner.symm.trans hembedded)
  exact ⟨list, hmem, hpath, FieldKind.isList_of_isEmbeddedList hkind⟩

theorem eq_or_apart_of_prunesList (htargets : ofFilters ctx.catalog filters = .ok targets)
    (hplain : ∀ t ∈ targets, t.prunesList → ctx.catalog.IsPlainList t.ownerPath)
    {t u : FilterTarget} (ht : t ∈ targets.filter (·.prunesList))
    (hu : u ∈ targets.filter (·.prunesList)) : t.ownerPath = u.ownerPath ∨
      Apart (Path.components t.ownerPath) (Path.components u.ownerPath) := by
  obtain ⟨ht, hprunes⟩ := List.mem_filter.1 ht
  obtain ⟨hu, hotherPrunes⟩ := List.mem_filter.1 hu
  exact (hplain t ht hprunes).eq_or_apart (hplain u hu hotherPrunes)
    (declaresList_of_prunesList htargets ht hprunes)
    (declaresList_of_prunesList htargets hu hotherPrunes)

theorem run_listStages_eq_map (h : ctx.listStages filters = .ok stages) (ex : Executor)
    (docs : List Document) : ex.run stages docs = docs.map (ex.reshapeAll stages) := by
  obtain ⟨targets, htargets, -⟩ := Outcome.exists_of_bind_eq_ok h
  rw [listStages_of_targets htargets] at h
  have hset : ∀ stage ∈ stages, ∃ path value, stage = .set path value := by
    intro stage hstage
    obtain ⟨t, -, hstage⟩ := Outcome.exists_of_mem_of_mapM_eq_ok h hstage
    obtain ⟨predicate, -, rfl⟩ := FilterTarget.exists_of_listStage_eq_ok hstage
    exact ⟨_, _, rfl⟩
  refine ex.run_eq_map_reshapeAll (fun stage hstage => ?_) (fun stage hstage => ?_) docs
  · obtain ⟨path, value, rfl⟩ := hset stage hstage
    rfl
  · obtain ⟨path, value, rfl⟩ := hset stage hstage
    rfl

/-- The stages of filters on lists are built exactly of filters that suit their attributes. They keep
every document, and leave each list with the items that satisfy the predicates of all filters on it. -/
theorem listStages_conjoin (htargets : ofFilters ctx.catalog filters = .ok targets)
    (hplain : ∀ t ∈ targets, t.prunesList → ctx.catalog.IsPlainList t.ownerPath) :
    (∀ e ∈ filters.entries, isReserved e.1 = false → ∃ t ∈ targets, t.entry = e) ∧
    ((∃ stages, ctx.listStages filters = .ok stages) ↔
      ∀ t ∈ targets, t.prunesList → t.filter.Suits t.field.kind.leaf) ∧
    ∀ stages, ctx.listStages filters = .ok stages → ∀ (ex : Executor),
      (∀ t ∈ targets, t.prunesList → ∃ predicate, t.elementPredicate = .ok predicate ∧
        ∀ d element, (ex.eval predicate (.ofThis d element)).isTrue = t.admitsElement ex element) ∧
      ∀ docs : List Document,
        (∀ d ∈ docs, ∀ t ∈ targets, t.prunesList →
          (Value.obj d).leadsToList (Path.components t.ownerPath)) →
        List.Forall₂ (ConjoinsLists ex targets) docs (ex.run stages docs) := by
  refine ⟨fun e he hreserved => ?_, ?_, fun stages hstages ex => ⟨?_, fun docs hdocs => ?_⟩⟩
  · have hentry : e ∈ targets.map (·.entry) := by
      rw [FilterTarget.map_entry_of_ofFilters htargets]
      exact List.mem_filter.2 ⟨he, by rw [hreserved]; rfl⟩
    exact List.mem_map.1 hentry
  · rw [listStages_of_targets htargets, Outcome.exists_mapM_eq_ok_iff]
    simp only [FilterTarget.exists_listStage_iff, List.mem_filter, and_imp]
  · intro t ht hprunes
    rw [listStages_of_targets htargets] at hstages
    obtain ⟨stage, hstage⟩ := Outcome.exists_mapM_eq_ok_iff.1 ⟨stages, hstages⟩ t
      (List.mem_filter.2 ⟨ht, hprunes⟩)
    obtain ⟨predicate, hpredicate, -⟩ := FilterTarget.exists_of_listStage_eq_ok hstage
    exact ⟨predicate, hpredicate, FilterTarget.eval_elementPredicate ex hpredicate⟩
  · have hrun := run_listStages_eq_map hstages ex docs
    rw [listStages_of_targets htargets] at hstages
    -- Of two lists none is below the other, so filtering one leaves the other as it is.
    have hapart : ∀ t ∈ targets.filter (·.prunesList), ∀ u ∈ targets.filter (·.prunesList),
        t.ownerPath = u.ownerPath ∨
          Apart (Path.components t.ownerPath) (Path.components u.ownerPath) :=
      fun t ht u hu => eq_or_apart_of_prunesList htargets hplain ht hu
    rw [hrun, List.forall₂_map_right_iff, List.forall₂_same]
    intro d hd
    have hreshape := FilterTarget.reshapeAll_listStages ex (Outcome.forall₂_of_mapM_eq_ok hstages)
      (fun t ht => hplain t (List.mem_filter.1 ht).1 (List.mem_filter.1 ht).2) hapart
      fun t ht => hdocs d hd t (List.mem_filter.1 ht).1 (List.mem_filter.1 ht).2
    rw [hreshape]
    exact FilterTarget.conjoinsLists_filterEach ex hapart d

def annotated : FilterContext where
  catalog := Catalog.empty.insertAll
    [.ofPath "crops" (.list .embedded), .ofPath "crops.name" .string, .ofPath "crops.score" .float,
      .ofPath "marks" (.list .embedded), .ofPath "marks.name" .string]
  skeletons := .empty
  excludeDropsEmpty := false

def annotatedFilters : Filters :=
  .ofList [("crops.score", { range := some (.ofInt 0, .ofInt 1) }),
    ("marks.name", (Filter.ofValues ["old"]).excluding),
    ("crops.name", .ofValues ["left", "right"])]

def annotatedTargets : List FilterTarget :=
  ((ofFilters annotated.catalog annotatedFilters).toOption).getD []

def crop (name : String) (score : Int) : Value := .obj [("name", .str name), ("score", .int score)]

def cropped : Document :=
  [("name", .str "left"), ("crops", .arr [crop "left" 2, crop "right" 1, crop "top" 1])]

theorem listStages_conjoin_crops :
    ∃ stages d', annotated.listStages annotatedFilters = .ok stages ∧
      (default : Executor).run stages [cropped] = [d'] ∧
      at? ["name"] (.obj d') = some (.str "left") ∧
      at? ["crops"] (.obj d') = some (.arr [crop "right" 1]) ∧
      at? ["marks"] (.obj d') = some (.arr []) := by
  have htargets : ofFilters annotated.catalog annotatedFilters = .ok annotatedTargets := rfl
  have hplain : ∀ t ∈ annotatedTargets, annotated.catalog.IsPlainList t.ownerPath := by
    have hstored : ∀ t ∈ annotatedTargets,
        annotated.catalog.storagePath t.ownerPath = t.ownerPath := by decide +kernel
    have houtermost : ∀ t ∈ annotatedTargets, ∀ field ∈ annotated.catalog.all, field.kind.isList →
        Path.components field.path <+: Path.components t.ownerPath →
        field.path = t.ownerPath := by decide +kernel
    have hreferable : ∀ t ∈ annotatedTargets, Expr.beginsWithDollar t.ownerPath = false := by
      decide +kernel
    exact fun t ht => ⟨hstored t ht, houtermost t ht, hreferable t ht⟩
  obtain ⟨stages, hstages⟩ : ∃ stages, annotated.listStages annotatedFilters = .ok stages := ⟨_, rfl⟩
  obtain ⟨-, -, hrun⟩ := listStages_conjoin htargets fun t ht _ => hplain t ht
  have hleads : ∀ t ∈ annotatedTargets,
      (Value.obj cropped).leadsToList (Path.components t.ownerPath) := by decide +kernel
  have hconjoins := (hrun stages hstages default).2 [cropped] fun d hd t ht _ =>
    List.mem_singleton.1 hd ▸ hleads t ht
  obtain ⟨d', rest, hconjoined, hrest, hd'⟩ := List.forall₂_cons_left_iff.1 hconjoins
  rw [List.forall₂_nil_left_iff.1 hrest] at hd'
  have hcrops : ∃ t ∈ annotatedTargets, t.prunesList ∧ t.ownerPath = "crops" ∧
      Path.components t.ownerPath = ["crops"] := by decide +kernel
  have hmarks : ∃ t ∈ annotatedTargets, t.prunesList ∧ t.ownerPath = "marks" ∧
      Path.components t.ownerPath = ["marks"] := by decide +kernel
  have hname : ∀ t ∈ annotatedTargets, t.prunesList →
      Apart (Path.components t.ownerPath) ["name"] := by decide +kernel
  refine ⟨stages, d', hstages, hd', hconjoined.others ["name"] hname, ?_, ?_⟩
  · obtain ⟨t, ht, hprunes, hpath, hcomponents⟩ := hcrops
    rw [← hcomponents, hconjoined.lists t ht hprunes, hpath]
    rfl
  · obtain ⟨t, ht, hprunes, hpath, hcomponents⟩ := hmarks
    rw [← hcomponents, hconjoined.lists t ht hprunes, hpath]
    rfl

def noted (path : String) : FilterContext where
  catalog := Catalog.empty.insertAll
    [.ofPath path (.list .embedded), .ofPath (path ++ ".author") .string]
  skeletons := .empty
  excludeDropsEmpty := false

def note (author : String) : Value := .obj [("author", .str author)]

def NotesByAnn (path : String) (d d' : Document) : Prop :=
  (noted path).catalog.storagePath path = path ∧
  ∃ stages, (noted path).listStages (.ofList [(path ++ ".author", .ofValues ["ann"])]) = .ok stages ∧
    (default : Executor).run stages [d] = [d']

/-- The predicate tells the authors apart. But a list whose path is reserved is left as it is, one
whose path is read as a variable is emptied, and what stands in the way of a list is lost. -/
theorem listStages_differ_at_markers :
    (∀ path ∈ ["_notes", "$notes", "box.notes"], ∃ predicate,
      Filter.predicate (path ++ ".author") (.thisField "author") (.ofValues ["ann"]) false .string =
        .ok predicate ∧
      ∀ author ∈ ["ann", "bob"], ((default : Executor).eval predicate
        (.ofThis [] (note author))).isTrue = (author == "ann")) ∧
    NotesByAnn "_notes" [("_notes", .arr [note "ann", note "bob"])]
      [("_notes", .arr [note "ann", note "bob"])] ∧
    NotesByAnn "$notes" [("$notes", .arr [note "ann", note "bob"])] [("$notes", .arr [])] ∧
    NotesByAnn "box.notes" [("box", .str "full")] [("box", .obj [("notes", .arr [])])] := by
  refine ⟨fun path hpath => ⟨_, rfl, ?_⟩, ⟨by decide +kernel, _, rfl, rfl⟩,
    ⟨by decide +kernel, _, rfl, rfl⟩, by decide +kernel, _, rfl, ?_⟩
  · decide +kernel
  · rfl

end FilterContext
end MediaViews
