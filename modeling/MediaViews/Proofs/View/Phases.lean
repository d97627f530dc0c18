import MediaViews.Proofs.Filter.Routing
import MediaViews.Proofs.View.Pagination

/-! The phases of an extension. The executor runs stages in sequence, so what a stage sees is told by
the phase that it is in. -/
namespace MediaViews

namespace Stage

def AreAll (classNames : List String) (stages : List Stage) : Prop :=
  ∀ stage ∈ stages, stage.className ∈ classNames

def IsAtMostOne (className : String) (stages : List Stage) : Prop :=
  stages.length ≤ 1 ∧ AreAll [className] stages

abbrev AreDecoded (entries : List (String × Json)) (stages : List Stage) : Prop :=
  List.Forall₂ (fun entry stage => ofQualified entry.1 entry.2 = .ok stage) entries stages

theorem isAtMostOne_nil (className : String) : IsAtMostOne className [] := ⟨Nat.zero_le 1, nofun⟩

theorem isAtMostOne_singleton (stage : Stage) : IsAtMostOne stage.className [stage] := by
  refine ⟨le_rfl, fun other hother => ?_⟩
  rw [List.mem_singleton.1 hother]
  exact List.mem_singleton_self _

theorem IsAtMostOne.ite {className : String} {stages others : List Stage} (asked : Bool)
    (h : IsAtMostOne className stages) (hothers : IsAtMostOne className others) :
    IsAtMostOne className (if asked then stages else others) := by
  cases asked with
  | false => exact hothers
  | true => exact h

end Stage

open Stage (AreAll IsAtMostOne isAtMostOne_nil isAtMostOne_singleton)

structure FilterPhases where
  tags : List Stage
  labelTagMatch : List Stage
  labelTagPrunings : List Stage
  documentMatch : List Stage
  lists : List Stage
  labels : List Stage

namespace FilterPhases

def stages (p : FilterPhases) : List Stage :=
  p.tags ++ (p.labelTagMatch ++ p.labelTagPrunings) ++ (p.documentMatch ++ p.lists ++ p.labels)

structure Serve (filters : Filters) (p : FilterPhases) : Prop where
  tags : IsAtMostOne "MatchTags" p.tags
  tags_iff : p.tags ≠ [] ↔ filters.contains FilterTarget.tagsPath
  labelTagMatch : IsAtMostOne "Match" p.labelTagMatch
  labelTagPrunings : AreAll ["FilterLabels"] p.labelTagPrunings
  labelTags_of : p.labelTagMatch ++ p.labelTagPrunings ≠ [] → filters.contains LabelTags.field
  documentMatch : IsAtMostOne "Match" p.documentMatch
  lists : AreAll ["SetField"] p.lists
  labels : AreAll ["FilterLabels", "FilterKeypoints"] p.labels
  others_of : p.documentMatch ++ p.lists ++ p.labels ≠ [] →
    ∃ path ∈ filters.keys, FilterTarget.isReserved path = false

end FilterPhases

structure Phases where
  extended : List Stage
  projection : List Stage
  filters : FilterPhases
  counts : List Stage

namespace Phases

def stages (p : Phases) : List Stage := p.extended ++ p.projection ++ p.filters.stages ++ p.counts

structure Serve (config : Config) (v : View) (e : Extension) (p : Phases) : Prop where
  extended : Stage.AreDecoded (e.extendedStages.getD []) p.extended
  projection : IsAtMostOne "ExcludeFields" p.projection
  projection_of : p.projection ≠ [] → e.paginated ∧ config.projectDicts
  filters : p.filters.Serve (e.filters.getD ∅)
  counts : ∀ stage ∈ p.counts, ∃ expr, stage = .set LabelTags.field expr
  length_counts : p.counts.length =
    if e.paginated ∧ config.countLabelTags then v.dataset.catalog.labelFields.length + 2 else 0

end Phases

theorem TagSource.length_ofCatalog (c : Catalog) : (ofCatalog c).length = c.labelFields.length := by
  have hlevel : (fun s : TagSource => s.level == .frame) = fun s => !(s.level == .sample) := by
    funext s
    cases s.level <;> rfl
  rw [ofCatalog, hlevel, List.length_append, ← List.length_eq_length_filter_add, List.length_map]

namespace LabelTags

theorem length_countStages (sources : List TagSource) :
    (countStages sources).length = sources.length + 2 := by
  simp [countStages, gatherStages]

theorem exists_phases_of_filterStages_eq_ok {sources : List TagSource} {f : Filter}
    {stages : List Stage} (h : filterStages sources f = .ok stages) :
    ∃ matched pruned, stages = matched ++ pruned ∧ IsAtMostOne "Match" matched ∧
      AreAll ["FilterLabels"] pruned := by
  have hmatch (q : Query) : IsAtMostOne "Match" [.matchQuery q] := isAtMostOne_singleton _
  rw [filterStages] at h
  split at h
  · cases h
  · split at h
    · obtain rfl := Except.ok.inj h
      exact ⟨_, [], (List.append_nil _).symm, .ite _ (isAtMostOne_nil _) (hmatch _), List.forall_mem_nil _⟩
    · have hmatched : IsAtMostOne "Match"
          (if !f.exclude || f.isMatching then
            [Stage.matchQuery (narrowing sources f.presentValues f.exclude)]
          else []) := .ite _ (hmatch _) (isAtMostOne_nil _)
      dsimp only at h
      split at h
      · obtain rfl := Except.ok.inj h
        exact ⟨_, [], (List.append_nil _).symm, hmatched, List.forall_mem_nil _⟩
      · obtain ⟨predicate, -, h⟩ := Outcome.exists_of_bind_eq_ok h
        obtain rfl := Except.ok.inj h
        refine ⟨_, _, rfl, hmatched, fun stage hstage => ?_⟩
        obtain ⟨s, -, rfl⟩ := List.mem_map.1 hstage
        exact List.mem_singleton_self _

end LabelTags

theorem FilterPart.isAtMostOne_matched (conditions : List Query) :
    IsAtMostOne "Match" (matched conditions) :=
  .ite conditions.isEmpty (isAtMostOne_nil _) (isAtMostOne_singleton _)

namespace Compiler

theorem isAtMostOne_tagStages (filters : Filters) : IsAtMostOne "MatchTags" (tagStages filters) := by
  rw [tagStages]
  cases filters.get? FilterTarget.tagsPath with
  | none => exact isAtMostOne_nil _
  | some f => exact isAtMostOne_singleton _

theorem tagStages_ne_nil_iff (filters : Filters) :
    tagStages filters ≠ [] ↔ filters.contains FilterTarget.tagsPath := by
  rw [tagStages, SortedMap.contains]
  cases filters.get? FilterTarget.tagsPath <;> simp

theorem exists_phases_of_labelTagStages_eq_ok {c : Catalog} {filters : Filters}
    {stages : List Stage} (h : labelTagStages c filters = .ok stages) :
    ∃ matched pruned, stages = matched ++ pruned ∧ IsAtMostOne "Match" matched ∧
      AreAll ["FilterLabels"] pruned ∧ (stages ≠ [] → filters.contains LabelTags.field) := by
  rw [labelTagStages] at h
  rw [SortedMap.contains]
  cases hfilter : filters.get? LabelTags.field with
  | none =>
    rw [hfilter] at h
    obtain rfl := Except.ok.inj h
    exact ⟨[], [], rfl, isAtMostOne_nil _, nofun, fun hne => absurd rfl hne⟩
  | some f =>
    rw [hfilter] at h
    obtain ⟨matched, pruned, hstages, hmatched, hpruned⟩ :=
      LabelTags.exists_phases_of_filterStages_eq_ok h
    exact ⟨matched, pruned, hstages, hmatched, hpruned, fun _ => rfl⟩

end Compiler

namespace FilterContext

theorem exists_phases_of_stages_eq_ok {ctx : FilterContext} {filters : Filters}
    {stages : List Stage} (h : ctx.stages filters = .ok stages) :
    ∃ matched lists labels, stages = matched ++ lists ++ labels ∧ IsAtMostOne "Match" matched ∧
      AreAll ["SetField"] lists ∧ AreAll ["FilterLabels", "FilterKeypoints"] labels ∧
      (stages ≠ [] → ∃ path ∈ filters.keys, FilterTarget.isReserved path = false) := by
  obtain ⟨targets, conditions, lists, labels, htargets, hconditions, hlists, hlabels, rfl⟩ :=
    exists_groups_of_stages_eq_ok h
  refine ⟨FilterPart.matched conditions, lists, labels, rfl, FilterPart.isAtMostOne_matched _,
    fun stage hstage => ?_, fun stage hstage => ?_, fun hne => ?_⟩
  · obtain ⟨t, -, hstage⟩ := Outcome.exists_of_mem_of_mapM_eq_ok hlists hstage
    exact List.mem_singleton.2 (FilterTarget.className_listStage hstage)
  · obtain ⟨t, -, hstage⟩ := Outcome.exists_of_mem_of_mapM_eq_ok hlabels hstage
    simpa using FilterTarget.className_labelStage hstage
  · cases targets with
    | nil =>
      obtain rfl := Except.ok.inj hconditions
      obtain rfl := Except.ok.inj hlists
      obtain rfl := Except.ok.inj hlabels
      exact absurd rfl hne
    | cons t targets =>
      exact ⟨t.path, (mem_path_iff htargets t.path).1 List.mem_cons_self⟩

end FilterContext

namespace Compiler

theorem exists_phases_of_filterStages_eq_ok {config : Config} {d : Dataset} {filters : Filters}
    {stages : List Stage} (h : filterStages config d filters = .ok stages) :
    ∃ p : FilterPhases, p.Serve filters ∧ stages = p.stages := by
  obtain ⟨labelTags, hlabelTags, h⟩ := Outcome.exists_of_bind_eq_ok h
  obtain ⟨others, hothers, h⟩ := Outcome.exists_of_bind_eq_ok h
  obtain rfl := Except.ok.inj h
  obtain ⟨tagMatch, tagPrunings, rfl, htagMatch, htagPrunings, hlabelTagsOf⟩ :=
    exists_phases_of_labelTagStages_eq_ok hlabelTags
  obtain ⟨documentMatch, lists, labels, rfl, hmatch, hlists, hlabels, hothersOf⟩ :=
    FilterContext.exists_phases_of_stages_eq_ok hothers
  exact ⟨⟨tagStages filters, tagMatch, tagPrunings, documentMatch, lists, labels⟩,
    ⟨isAtMostOne_tagStages filters, tagStages_ne_nil_iff filters, htagMatch, htagPrunings,
      hlabelTagsOf, hmatch, hlists, hlabels, hothersOf⟩, rfl⟩

theorem filterStages_of_tracedFilterStages {config : Config} {d : Dataset}
    {filters : Option Filters} {stages : List Stage}
    (h : (tracedFilterStages config d filters).outcome = .ok stages) :
    filterStages config d (filters.getD ∅) = .ok stages := by
  cases filters with
  | none =>
    obtain rfl := Except.ok.inj h
    rfl
  | some filters => exact tracedFilterStages_eq_ok h

variable (config : Config) (v : View) (e : Extension)

theorem isAtMostOne_projection : IsAtMostOne "ExcludeFields" (projection config v e) := by
  rcases projection_cases config v e with ⟨hnone, -⟩ | hsome
  · rw [hnone]
    exact isAtMostOne_nil _
  · rw [hsome]
    exact isAtMostOne_singleton _

theorem paginated_of_projection_ne_nil (h : projection config v e ≠ []) :
    e.paginated ∧ config.projectDicts := by
  by_contra hoff
  rw [projection, if_neg (by simpa using hoff)] at h
  exact h rfl

theorem length_countStages : (countStages config v e).length =
    if e.paginated ∧ config.countLabelTags then v.dataset.catalog.labelFields.length + 2 else 0 := by
  simp only [countStages, Bool.and_eq_true]
  split
  · rw [LabelTags.length_countStages, TagSource.length_ofCatalog]
  · rfl

variable {config v e}

/-- An extension leaves the dataset, the slice and the stages of the view as they are. What it
appends stands in its phases, one behind the other. -/
theorem extend_appends_phases {v' : View} (h : (extend config v e).outcome = .ok v') :
    v'.dataset = v.dataset ∧ v'.slice = v.slice ∧
      ∃ p : Phases, p.Serve config v e ∧ v'.stages = v.stages ++ p.stages := by
  obtain ⟨extended, hextended, h⟩ := Traced.exists_of_outcome_bind_eq_ok h
  obtain ⟨filtered, hfiltered, h⟩ := Traced.exists_of_outcome_bind_eq_ok h
  obtain rfl := Except.ok.inj h
  obtain ⟨filters, hfilters, rfl⟩ :=
    exists_phases_of_filterStages_eq_ok (filterStages_of_tracedFilterStages hfiltered)
  have hextended : extendedStages (e.extendedStages.getD []) = .ok extended :=
    Outcome.exists_of_mapError_eq_ok hextended
  refine ⟨rfl, rfl, ⟨extended, projection config v e, filters, countStages config v e⟩, ?_, rfl⟩
  exact
    { extended := Outcome.forall₂_of_mapM_eq_ok hextended
      projection := isAtMostOne_projection config v e
      projection_of := paginated_of_projection_ne_nil config v e
      filters := hfilters
      counts := fun stage => exists_set_labelTags_of_mem_countStages config v e
      length_counts := length_countStages config v e }

def crowded : Extension where
  filters := some (.ofList [("_label_tags", .ofValues ["seen"]), ("tags", .ofValues ["kept"]),
    ("metadata.type", .ofValues ["png"]), ("gt.detections.label", .ofValues ["cat"])])
  extendedStages := some [("stages.Limit", .obj [("limit", .int 10)])]
  paginated := true

theorem extend_appends_phases_crowded :
    ∃ v', (extend {} measured crowded).outcome = .ok v' ∧
      v'.stages.map Stage.className =
        ["Limit", "ExcludeFields", "MatchTags", "Match", "FilterLabels", "Match", "FilterLabels",
          "SetField", "SetField", "SetField"] ∧
      v'.dataset = measured.dataset ∧ v'.slice = measured.slice ∧
      ∃ p : Phases, p.Serve {} measured crowded ∧ v'.stages = measured.stages ++ p.stages := by
  obtain ⟨v', h, hnames⟩ : ∃ v', (extend {} measured crowded).outcome = .ok v' ∧
      v'.stages.map Stage.className =
        ["Limit", "ExcludeFields", "MatchTags", "Match", "FilterLabels", "Match", "FilterLabels",
          "SetField", "SetField", "SetField"] := ⟨_, rfl, rfl⟩
  exact ⟨v', h, hnames, extend_appends_phases h⟩

end Compiler
end MediaViews
