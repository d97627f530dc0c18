import MediaViews.Proofs.Filter.Footprint
import MediaViews.Proofs.LabelTags.Filtering
import MediaViews.Proofs.View.Contribution

/-! Paginated views leave out dictionary fields before they filter. This changes what the filters
keep where one of them looks at such a field or below it, and nowhere else. -/
namespace MediaViews

open Outcome (exists_of_bind_eq_ok)

/-! What each filter looks at. -/

variable {ex : Executor}

namespace LabelTags

def footprint (sources : List TagSource) : List (List String) :=
  sources.flatMap fun s =>
    Path.components s.tagsPath :: Value.labelPaths (Path.components s.path) ["tags"]

theorem within_filterStages {sources : List TagSource} {f : Filter} {stages : List Stage}
    (h : filterStages sources f = .ok stages) :
    ∀ stage ∈ stages, ex.Within (footprint sources) stage := by
  have hpaths : ∀ path ∈ sources.map (·.tagsPath),
      path ≠ "$expr" ∧ Path.components path ∈ footprint sources := by
    intro path hpath
    obtain ⟨s, hs, rfl⟩ := List.mem_map.1 hpath
    have hexpr : "$expr" ∈ Query.connectives := by decide
    exact ⟨fun heq => tagsPath_not_mem_connectives s (heq ▸ hexpr),
      List.mem_flatMap.2 ⟨s, hs, List.mem_cons_self⟩⟩
  intro stage hstage
  rcases filterStages_cases h stage hstage with ⟨q, rfl, hasks⟩ | ⟨s, hs, predicate, hpredicate, rfl⟩
  · exact .matchQuery _ hasks hpaths
  · have htags : Path.components "tags" = ["tags"] := by decide
    have hthis : (Expr.thisField "tags").readable := by decide
    have hpruned : ex.Within (Value.labelPaths (Path.components s.path) (Path.components "tags"))
        (.filterLabelsBy s.path predicate false) :=
      .filterLabelsBy false (Filter.readable_predicate hthis hpredicate)
        (Filter.judges_predicate ex _ hpredicate)
    rw [htags] at hpruned
    exact hpruned.mono fun names hnames =>
      List.mem_flatMap.2 ⟨s, hs, List.mem_cons_of_mem _ hnames⟩

end LabelTags

namespace FilterTarget

variable {ctx : FilterContext} {t : FilterTarget} {part : FilterPart}

theorem within_part (hlist : t.prunesList → ctx.catalog.storagePath t.ownerPath = t.ownerPath)
    (h : t.part ctx = .ok part) :
    ∀ stage ∈ part.lists ++ part.labels, ex.Within (t.footprint ctx.catalog) stage := by
  obtain ⟨conditions, -, h⟩ := exists_of_bind_eq_ok h
  obtain ⟨lists, hlists, h⟩ := exists_of_bind_eq_ok h
  obtain ⟨labels, hlabels, h⟩ := exists_of_bind_eq_ok h
  obtain rfl := Except.ok.inj h
  intro stage hstage
  rcases List.mem_append.1 hstage with hstage | hstage
  · obtain ⟨hprunes, hstage⟩ := Outcome.of_mem_only hlists hstage
    exact within_listStage hprunes (hlist hprunes) hstage
  · obtain ⟨hprunes, hstage⟩ := Outcome.of_mem_only hlabels hstage
    exact within_labelStage hprunes hstage

theorem asksOnly_part {paths : List String}
    (hpath : t.matchesDocuments → ctx.catalog.storagePath t.path ∈ paths)
    (h : t.part ctx = .ok part) : ∀ q ∈ part.conditions, q.asksOnly paths := by
  obtain ⟨conditions, hconditions, h⟩ := exists_of_bind_eq_ok h
  obtain ⟨lists, -, h⟩ := exists_of_bind_eq_ok h
  obtain ⟨labels, -, h⟩ := exists_of_bind_eq_ok h
  obtain rfl := Except.ok.inj h
  intro q hq
  obtain ⟨hmatches, hq⟩ := Outcome.of_mem_only hconditions hq
  exact Filter.asksOnly_condition (hpath hmatches) hq

end FilterTarget
namespace Compiler

def footprint (c : Catalog) (path : String) (f : Filter) : List (List String) :=
  if path = FilterTarget.tagsPath then [["tags"]]
  else if path = LabelTags.field then LabelTags.footprint (TagSource.ofCatalog c)
  else
    match FilterTarget.ofEntry c path f with
    | .ok (some t) => t.footprint c
    | _ => []

theorem footprint_of_target {c : Catalog} {path : String} {f : Filter} {t : FilterTarget}
    (h : FilterTarget.ofEntry c path f = .ok (some t)) : footprint c path f = t.footprint c := by
  have hplain : FilterTarget.isReserved path = false := by
    rcases FilterTarget.ofEntry_cases h with ⟨-, hnone⟩ | ⟨hplain, -⟩
    · cases hnone
    · exact hplain
  have hother : ∀ other, FilterTarget.isReserved other → path ≠ other := by
    rintro other hother rfl
    rw [hplain] at hother
    cases hother
  rw [footprint, if_neg (hother _ (by decide)), if_neg (hother _ (by decide)), h]

def ListsUnderOwnPaths (c : Catalog) : Prop :=
  ∀ field ∈ c.all, field.kind.isEmbeddedList → c.storagePath field.path = field.path

theorem storagePath_ownerPath {c : Catalog} (hlists : ListsUnderOwnPaths c) {path : String}
    {f : Filter} {t : FilterTarget} (h : FilterTarget.ofEntry c path f = .ok (some t))
    (hprunes : t.prunesList) : c.storagePath t.ownerPath = t.ownerPath := by
  rcases FilterTarget.ofEntry_cases h with ⟨-, hnone⟩ | ⟨-, field, -, htarget⟩
  · cases hnone
  · obtain rfl := Option.some.inj htarget
    rw [FilterTarget.prunesList, Bool.and_eq_true, beq_iff_eq] at hprunes
    obtain ⟨list, hmem, hpath, hkind⟩ := Catalog.exists_list_of_ownerAt hprunes.1
    show c.storagePath (c.ownerPath path) = c.ownerPath path
    rw [← hpath]
    exact hlists list hmem hkind

theorem footprint_of_matchesDocuments {c : Catalog} {path : String} {f : Filter} {t : FilterTarget}
    (h : FilterTarget.ofEntry c path f = .ok (some t)) (hmatches : t.matchesDocuments) :
    footprint c path f = [Path.components (c.storagePath path)] := by
  rw [footprint_of_target h, FilterTarget.footprint_of_matchesDocuments hmatches]
  rcases FilterTarget.ofEntry_cases h with ⟨-, hnone⟩ | ⟨-, field, -, htarget⟩
  · cases hnone
  · obtain rfl := Option.some.inj htarget
    rfl

variable {config : Config} {d : Dataset} {path : String} {f : Filter} {contributed : Contribution}

theorem within_contribution (hlists : ListsUnderOwnPaths d.catalog)
    (h : contribution config d path f = .ok contributed) :
    ∀ stage ∈ contributed.tags ++ contributed.labelTags ++
      (contributed.part.lists ++ contributed.part.labels),
      ex.Within (footprint d.catalog path f) stage := by
  obtain ⟨tags, htags, h⟩ := exists_of_bind_eq_ok h
  obtain ⟨labelTags, hlabelTags, h⟩ := exists_of_bind_eq_ok h
  obtain ⟨part, hpart, h⟩ := exists_of_bind_eq_ok h
  obtain rfl := Except.ok.inj h
  intro stage hstage
  rw [List.mem_append, List.mem_append] at hstage
  rcases hstage with (hstage | hstage) | hstage
  · rw [route] at htags
    split at htags
    · next hpath =>
      obtain rfl := Except.ok.inj htags
      rw [footprint, if_pos hpath, List.mem_singleton.1 hstage]
      exact .matchTags _ _
    · obtain rfl := Except.ok.inj htags
      cases hstage
  · rw [route] at hlabelTags
    split at hlabelTags
    · next hpath =>
      rw [footprint, if_neg (hpath ▸ by decide), if_pos hpath]
      exact LabelTags.within_filterStages hlabelTags stage hstage
    · obtain rfl := Except.ok.inj hlabelTags
      cases hstage
  · obtain ⟨target, htarget, hpart⟩ := exists_of_bind_eq_ok hpart
    cases target with
    | none =>
      obtain rfl := Except.ok.inj hpart
      cases hstage
    | some t =>
      have hfootprint : footprint d.catalog path f = t.footprint d.catalog :=
        footprint_of_target htarget
      have hpart : t.part (filterContext config d) = .ok part := hpart
      have howner : t.prunesList →
          (filterContext config d).catalog.storagePath t.ownerPath = t.ownerPath :=
        storagePath_ownerPath hlists htarget
      rw [hfootprint]
      exact FilterTarget.within_part howner hpart stage hstage

theorem asksOnly_contribution {paths : List String}
    (hpaths : footprint d.catalog path f = [Path.components (d.catalog.storagePath path)] →
      d.catalog.storagePath path ∈ paths)
    (h : contribution config d path f = .ok contributed) :
    ∀ q ∈ contributed.part.conditions, q.asksOnly paths := by
  obtain ⟨tags, -, h⟩ := exists_of_bind_eq_ok h
  obtain ⟨labelTags, -, h⟩ := exists_of_bind_eq_ok h
  obtain ⟨part, hpart, h⟩ := exists_of_bind_eq_ok h
  obtain rfl := Except.ok.inj h
  obtain ⟨target, htarget, hpart⟩ := exists_of_bind_eq_ok hpart
  cases target with
  | none =>
    obtain rfl := Except.ok.inj hpart
    exact nofun
  | some t =>
    refine FilterTarget.asksOnly_part (fun hmatches => ?_) hpart
    have hsame : t.path = path := by
      rcases FilterTarget.ofEntry_cases htarget with ⟨-, hnone⟩ | ⟨-, field, -, htarget⟩
      · cases hnone
      · obtain rfl := Option.some.inj htarget
        rfl
    show d.catalog.storagePath t.path ∈ paths
    rw [hsame]
    exact hpaths (footprint_of_matchesDocuments htarget hmatches)

def footprints (c : Catalog) (filters : Filters) : List (List String) :=
  filters.entries.flatMap fun e => footprint c e.1 e.2

theorem within_filterStages {filters : Filters} {stages : List Stage}
    (hlists : ListsUnderOwnPaths d.catalog)
    (hexpr : ∀ e ∈ filters.entries, d.catalog.storagePath e.1 ≠ "$expr")
    (h : filterStages config d filters = .ok stages) :
    ∀ stage ∈ stages, ex.Within (footprints d.catalog filters) stage := by
  obtain ⟨cs, hcs, rfl⟩ := exists_contributions_of_filterStages_eq_ok h
  have hown : ∀ c ∈ cs, ∀ stage ∈ c.tags ++ c.labelTags ++ (c.part.lists ++ c.part.labels),
      ex.Within (footprints d.catalog filters) stage := by
    intro c hc stage hstage
    obtain ⟨e, he, hcontribution⟩ := Outcome.exists_of_mem_of_forall₂ hcs hc
    exact (within_contribution hlists hcontribution stage hstage).mono fun names hnames =>
      List.mem_flatMap.2 ⟨e, he, hnames⟩
  -- One match takes the conditions of all filters together.
  let paths := (filters.entries.map fun e => d.catalog.storagePath e.1).filter fun path =>
    (footprints d.catalog filters).contains (Path.components path)
  have hpaths : ∀ path ∈ paths,
      path ≠ "$expr" ∧ Path.components path ∈ footprints d.catalog filters := by
    intro path hpath
    obtain ⟨hmem, hfootprint⟩ := List.mem_filter.1 hpath
    obtain ⟨e, he, rfl⟩ := List.mem_map.1 hmem
    exact ⟨hexpr e he, by simpa using hfootprint⟩
  have hasks : ∀ q ∈ (cs.map (·.part)).flatMap (·.conditions), q.asksOnly paths := by
    intro q hq
    obtain ⟨part, hpart, hq⟩ := List.mem_flatMap.1 hq
    obtain ⟨c, hc, rfl⟩ := List.mem_map.1 hpart
    obtain ⟨e, he, hcontribution⟩ := Outcome.exists_of_mem_of_forall₂ hcs hc
    refine asksOnly_contribution (fun hfootprint => ?_) hcontribution q hq
    refine List.mem_filter.2 ⟨List.mem_map.2 ⟨e, he, rfl⟩, ?_⟩
    have hmem : Path.components (d.catalog.storagePath e.1) ∈ footprints d.catalog filters :=
      List.mem_flatMap.2 ⟨e, he, hfootprint ▸ List.mem_singleton_self _⟩
    simpa using hmem
  intro stage hstage
  simp only [Contribution.assemble, FilterPart.assemble, List.mem_append, List.mem_flatMap,
    List.mem_map] at hstage
  rcases hstage with (⟨c, hc, hstage⟩ | ⟨c, hc, hstage⟩) |
    (hmatched | ⟨_, ⟨c, hc, rfl⟩, hstage⟩) | ⟨_, ⟨c, hc, rfl⟩, hstage⟩
  · exact hown c hc stage (by simp [hstage])
  · exact hown c hc stage (by simp [hstage])
  · rw [FilterPart.matched] at hmatched
    split at hmatched
    · cases hmatched
    · rw [List.mem_singleton.1 hmatched]
      exact .matchQuery paths (Query.asksOnly_allOf hasks) hpaths
  · exact hown c hc stage (by simp [hstage])
  · exact hown c hc stage (by simp [hstage])

end Compiler

/-! Removing what no stage looks at. -/

namespace Executor

theorem isSome_steps_remove {footprint : List (List String)} {stages : List Stage}
    (hstages : ∀ stage ∈ stages, ex.Within footprint stage) {dicts : List String}
    (hspared : ∀ dict ∈ dicts, ∀ names ∈ footprint, ¬Path.components dict <+: names) (d : Document) :
    (ex.steps stages (d.remove dicts)).isSome = (ex.steps stages d).isSome := by
  -- One dictionary is removed after the other, and the filters miss none of them.
  induction dicts generalizing d with
  | nil => rfl
  | cons dict dicts ih =>
    obtain ⟨hdict, hspared⟩ := List.forall_mem_cons.1 hspared
    have hlost : Document.Loses (Path.components dict) d (d.remove [dict]) :=
      Document.loses_ofValue (Value.Loses.removeAt (Path.components dict) (.obj d))
    have hsame := Ignores.steps (fun stage hstage => (hstages stage hstage).ignores _ hdict) hlost
    have hcons : d.remove (dict :: dicts) = (d.remove [dict]).remove dicts := rfl
    rw [hcons, ih hspared]
    generalize ex.steps stages d = left at hsame ⊢
    generalize ex.steps stages (d.remove [dict]) = right at hsame ⊢
    cases hsame <;> rfl

theorem isSome_steps_of_set {stages : List Stage}
    (h : ∀ stage ∈ stages, ∃ field e, stage = .set field e) (d : Document) :
    (ex.steps stages d).isSome := by
  induction stages generalizing d with
  | nil => rfl
  | cons stage stages ih =>
    obtain ⟨⟨field, e, rfl⟩, hrest⟩ := List.forall_mem_cons.1 h
    exact ih hrest _

variable (ex) in
/-- Both lists of stages take the documents that the earlier stages leave one by one, and each of them
is kept by both or by neither. -/
def KeepSame (earlier left right : List Stage) : Prop :=
  ∃ f g : Document → Option Document,
    (∀ docs, ex.run left docs = (ex.run earlier docs).filterMap f) ∧
    (∀ docs, ex.run right docs = (ex.run earlier docs).filterMap g) ∧
    ∀ d, (f d).isSome = (g d).isSome

end Executor

def Stage.excluded : Stage → List String
  | excludeFields names => names
  | _ => []

theorem LabelTags.exists_set_of_mem_countStages {sources : List TagSource} {stage : Stage}
    (h : stage ∈ countStages sources) : ∃ e, stage = .set field e := by
  rw [countStages, gatherStages, List.mem_append, List.mem_cons, List.mem_map,
    List.mem_singleton] at h
  rcases h with (rfl | ⟨s, -, rfl⟩) | rfl <;> exact ⟨_, rfl⟩

theorem Traced.outcome_bind {α β : Type} {x : Traced α} {a : α} (h : x.outcome = .ok a)
    (f : α → Traced β) : (x >>= f).outcome = (f a).outcome := by
  change (bind x f).outcome = _
  unfold bind
  rw [h]

namespace Compiler

variable (config : Config) (v : View) (e : Extension)

def projected : List String := (projection config v e).flatMap Stage.excluded

theorem projection_cases :
    (projection config v e = [] ∧ projected config v e = []) ∨
      projection config v e = [.excludeFields (projected config v e)] := by
  rw [projected, projection]
  split
  · split
    · exact .inl ⟨rfl, rfl⟩
    · exact .inr (by simp [Stage.excluded])
  · exact .inl ⟨rfl, rfl⟩

theorem steps_projection (d : Document) :
    ex.steps (projection config v e) d = some (d.remove (projected config v e)) := by
  rcases projection_cases config v e with ⟨hnone, hnames⟩ | hsome
  · rw [hnone, hnames]
    rfl
  · rw [hsome]
    rfl

theorem exists_set_labelTags_of_mem_countStages {stage : Stage}
    (h : stage ∈ countStages config v e) : ∃ expr, stage = .set LabelTags.field expr := by
  rw [countStages] at h
  split at h
  · exact LabelTags.exists_set_of_mem_countStages h
  · cases h

theorem exists_set_of_mem_countStages {stage : Stage} (h : stage ∈ countStages config v e) :
    ∃ field expr, stage = .set field expr :=
  ⟨_, exists_set_labelTags_of_mem_countStages config v e h⟩

variable {config v e}

theorem exists_stages_of_extend {filters : Filters} {paged : View}
    (hfilters : e.filters = some filters) (h : (extend config v e).outcome = .ok paged) :
    ∃ extended filtered plain, extendedStages (e.extendedStages.getD []) = .ok extended ∧
      filterStages config v.dataset filters = .ok filtered ∧
      (extend config v { e with paginated := false }).outcome = .ok plain ∧
      plain.stages = v.stages ++ extended ++ filtered ∧
      paged.stages =
        v.stages ++ extended ++ (projection config v e ++ filtered ++ countStages config v e) := by
  obtain ⟨extended, hextended, h⟩ := Traced.exists_of_outcome_bind_eq_ok h
  obtain ⟨filtered, hfiltered, h⟩ := Traced.exists_of_outcome_bind_eq_ok h
  obtain rfl := Except.ok.inj h
  have hstages : filterStages config v.dataset filters = .ok filtered :=
    tracedFilterStages_eq_ok (hfilters ▸ hfiltered)
  refine ⟨extended, filtered, v.append (extended ++ [] ++ filtered ++ []),
    Outcome.exists_of_mapError_eq_ok hextended, hstages, ?_, ?_, ?_⟩
  · rw [extend, Traced.outcome_bind hextended, Traced.outcome_bind hfiltered]
    rfl
  · simp [View.append]
  · simp [View.append]

/-- Let no dictionary that a paginated view leaves out begin a path that the filters look at. Then it
begins no path that their stages read, and pagination does not change which documents they keep. -/
theorem extend_keepSame {filters : Filters} {paged : View} (hfilters : e.filters = some filters)
    (hlists : ListsUnderOwnPaths v.dataset.catalog)
    (hexpr : ∀ entry ∈ filters.entries, v.dataset.catalog.storagePath entry.1 ≠ "$expr")
    (hspared : ∀ dict ∈ projected config v e, ∀ names ∈ footprints v.dataset.catalog filters,
      ¬Path.components dict <+: names)
    (h : (extend config v e).outcome = .ok paged) :
    ∃ extended filtered plain, extendedStages (e.extendedStages.getD []) = .ok extended ∧
      filterStages config v.dataset filters = .ok filtered ∧
      (extend config v { e with paginated := false }).outcome = .ok plain ∧
      plain.stages = v.stages ++ extended ++ filtered ∧
      paged.stages =
        v.stages ++ extended ++ (projection config v e ++ filtered ++ countStages config v e) ∧
      (∀ dict ∈ projected config v e, ∀ stage ∈ filtered, ∀ path ∈ stage.reads,
        ¬Path.components dict <+: Path.components path) ∧
      ∀ ex : Executor, ex.KeepSame (v.stages ++ extended) plain.stages paged.stages := by
  obtain ⟨extended, filtered, plain, hextended, hfiltered, hplain, hstages, hpaged⟩ :=
    exists_stages_of_extend hfilters h
  have hwithin : ∀ ex : Executor, ∀ stage ∈ filtered,
      ex.Within (footprints v.dataset.catalog filters) stage :=
    fun ex => within_filterStages hlists hexpr hfiltered
  refine ⟨extended, filtered, plain, hextended, hfiltered, hplain, hstages, hpaged, ?_, fun ex => ?_⟩
  · intro dict hdict stage hstage path hpath hbegins
    obtain ⟨names, hnames, hread⟩ := (hwithin default stage hstage).reads path hpath
    exact hspared dict hdict names hnames (hbegins.trans hread)
  · -- Behind the earlier stages both views take the documents one by one.
    have hcounts : ∀ stage ∈ countStages config v e, stage.isStepwise := by
      intro stage hstage
      obtain ⟨field, expr, rfl⟩ := exists_set_of_mem_countStages config v e hstage
      rfl
    have hprojection : ∀ stage ∈ projection config v e, stage.isStepwise := by
      intro stage hstage
      rcases projection_cases config v e with ⟨hnone, -⟩ | hsome
      · rw [hnone] at hstage
        cases hstage
      · rw [hsome, List.mem_singleton] at hstage
        rw [hstage]
        rfl
    have hfilters : ∀ stage ∈ filtered, stage.isStepwise :=
      fun stage hstage => (hwithin ex stage hstage).stepwise
    have hall : ∀ stage ∈ projection config v e ++ filtered ++ countStages config v e,
        stage.isStepwise :=
      List.forall_mem_append.2 ⟨List.forall_mem_append.2 ⟨hprojection, hfilters⟩, hcounts⟩
    refine ⟨ex.steps filtered, ex.steps (projection config v e ++ filtered ++ countStages config v e),
      fun docs => ?_, fun docs => ?_, fun d => ?_⟩
    · rw [hstages, ex.run_append, ex.run_eq_filterMap hfilters]
    · rw [hpaged, ex.run_append, ex.run_eq_filterMap hall]
    · -- The counts only set fields, so it is the filters alone that drop a document.
      have hkept := ex.isSome_steps_remove (hwithin ex) hspared d
      have hcounted : ∀ d, (ex.steps (countStages config v e) d).isSome :=
        ex.isSome_steps_of_set fun stage hstage => exists_set_of_mem_countStages config v e hstage
      rw [ex.steps_append, ex.steps_append, steps_projection, Option.bind_some, ← hkept]
      cases ex.steps filtered (d.remove (projected config v e)) with
      | none => rfl
      | some left => exact (hcounted left).symm

def measured : View :=
  .ofDataset (.plain "measured" .image
    ((Catalog.empty.insertAll
      [.ofPath "metadata" .dict, .ofPath "metadata.type" .string]).insertLabel "gt" .detections []))

def cats : Filters :=
  .ofList [("gt.detections.label", .ofValues ["cat"]), ("tags", .ofValues ["kept"])]

def pagedCats : Extension where
  filters := some cats
  paginated := true

theorem extend_keepSame_pagedCats :
    ∃ extended filtered plain paged, pagedCats.filters = some cats ∧
      (extend {} measured pagedCats).outcome = .ok paged ∧
      extendedStages (pagedCats.extendedStages.getD []) = .ok extended ∧
      filterStages {} measured.dataset cats = .ok filtered ∧
      (extend {} measured { pagedCats with paginated := false }).outcome = .ok plain ∧
      plain.stages = measured.stages ++ extended ++ filtered ∧
      paged.stages = measured.stages ++ extended ++
        (projection {} measured pagedCats ++ filtered ++ countStages {} measured pagedCats) ∧
      (∀ dict ∈ projected {} measured pagedCats, ∀ stage ∈ filtered, ∀ path ∈ stage.reads,
        ¬Path.components dict <+: Path.components path) ∧
      ∀ ex : Executor, ex.KeepSame (measured.stages ++ extended) plain.stages paged.stages := by
  obtain ⟨paged, hpaged⟩ : ∃ paged, (extend {} measured pagedCats).outcome = .ok paged := ⟨_, rfl⟩
  have hlists : ListsUnderOwnPaths measured.dataset.catalog := by
    unfold ListsUnderOwnPaths
    decide +kernel
  have hexpr : ∀ entry ∈ cats.entries,
      measured.dataset.catalog.storagePath entry.1 ≠ "$expr" := by decide +kernel
  have hspared : ∀ dict ∈ projected {} measured pagedCats,
      ∀ names ∈ footprints measured.dataset.catalog cats, ¬Path.components dict <+: names := by
    decide +kernel
  obtain ⟨extended, filtered, plain, hextended, hfiltered, hplain, hplainStages, hpagedStages,
      hdisjoint, hsame⟩ :=
    extend_keepSame (v := measured) (e := pagedCats) rfl hlists hexpr hspared hpaged
  exact ⟨extended, filtered, plain, paged, rfl, hpaged, hextended, hfiltered, hplain, hplainStages,
    hpagedStages, hdisjoint, hsame⟩

def pagedPictures : Extension where
  filters := some (.ofList [("metadata.type", .ofValues ["png"])])
  paginated := true

def pictureQuery : Query := .field "metadata.type" (.isIn [.str "png"])

def picture : Document := [("metadata", .obj [("type", .str "png")])]

/-- A filter below a dictionary matches what the view has left out before, so that pagination drops
a document that the filter keeps. -/
theorem extend_of_filter_below_dict :
    ∃ plain paged,
      (extend { countLabelTags := false } measured
        { pagedPictures with paginated := false }).outcome = .ok plain ∧
      (extend { countLabelTags := false } measured pagedPictures).outcome = .ok paged ∧
      plain.stages = [.matchQuery pictureQuery] ∧
      paged.stages = [.excludeFields ["metadata"], .matchQuery pictureQuery] ∧
      "metadata.type" ∈ (Stage.matchQuery pictureQuery).reads ∧
      Path.components "metadata" <+: Path.components "metadata.type" ∧
      (default : Executor).run plain.stages [picture] = [picture] ∧
      (default : Executor).run paged.stages [picture] = [] := by
  have hkept : (default : Executor).satisfies pictureQuery.toJson picture = true := by
    decide +kernel
  have hdropped : (default : Executor).satisfies pictureQuery.toJson
      (picture.remove ["metadata"]) = false := by
    decide +kernel
  refine ⟨measured.append [.matchQuery pictureQuery],
    measured.append [.excludeFields ["metadata"], .matchQuery pictureQuery], rfl, rfl, rfl, rfl,
    by decide +kernel, by decide +kernel, ?_, ?_⟩
  · have hstages : (measured.append [.matchQuery pictureQuery]).stages =
        [.matchQuery pictureQuery] := rfl
    rw [hstages, Executor.run_cons]
    simp [Executor.run, Executor.apply, Stage.matchQuery, hkept]
  · have hstages : (measured.append [.excludeFields ["metadata"], .matchQuery pictureQuery]).stages =
        [.excludeFields ["metadata"], .matchQuery pictureQuery] := rfl
    rw [hstages, Executor.run_cons, Executor.run_cons]
    simp [Executor.run, Executor.apply, Stage.matchQuery, hdropped]

end Compiler
end MediaViews
