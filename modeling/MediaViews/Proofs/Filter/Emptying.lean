import MediaViews.Proofs.Executor.Reshaping
import MediaViews.Proofs.Filter.Naming
import MediaViews.Proofs.Filter.Survival

/-! Which stages of filters on labels drop the documents that they leave empty. Those that prune labels
do if the filter includes or the configuration says so; those that prune points always do. -/
namespace MediaViews

def Stage.onlyMatches? : Stage → Option Bool
  | filterLabels _ _ onlyMatches | filterKeypoints _ _ _ onlyMatches => some onlyMatches
  | _ => none

namespace FilterTarget

variable {ctx : FilterContext} {t : FilterTarget} {stage : Stage}

structure EmptiesBy (ctx : FilterContext) (t : FilterTarget) (stage : Stage) : Prop where
  compiled : t.labelStage ctx = .ok stage
  onlyMatches : stage.onlyMatches? = some (t.prunesPoints || t.dropsEmpty ctx)
  reorders : stage.reordersOrSelects = (t.prunesPoints || t.dropsEmpty ctx)
  slices : stage.selectsGroupSlices = false
  /-- The stage of an excluding filter does what the configuration says, unless that is to keep all
  documents and it prunes points. -/
  asConfigured : t.filter.exclude →
    (stage.onlyMatches? = some ctx.excludeDropsEmpty ↔ (t.prunesPoints → ctx.excludeDropsEmpty))

theorem exists_prunes_of_labelStage (h : t.labelStage ctx = .ok stage) :
    (∃ predicate, stage = .filterLabels t.ownerPath predicate (t.prunesPoints || t.dropsEmpty ctx)) ∨
      ∃ predicate names, stage =
        .filterKeypoints t.ownerPath predicate names (t.prunesPoints || t.dropsEmpty ctx) := by
  rcases labelStage_cases h with ⟨hpoints, h⟩ | ⟨hwhole, predicate, -, rfl⟩
  · rw [hpoints, Bool.true_or]
    right
    rcases keypointStage_cases h with ⟨names, rfl⟩ | ⟨kind, predicate, -, rfl⟩
    · exact ⟨none, some names, rfl⟩
    · exact ⟨some predicate.toJson, none, rfl⟩
  · rw [hwhole, Bool.false_or]
    exact .inl ⟨predicate.toJson, rfl⟩

theorem emptiesBy_of_labelStage (h : t.labelStage ctx = .ok stage) : t.EmptiesBy ctx stage := by
  have hconfigured : t.filter.exclude →
      (some (t.prunesPoints || t.dropsEmpty ctx) = some ctx.excludeDropsEmpty ↔
        (t.prunesPoints → ctx.excludeDropsEmpty)) := by
    intro hexclude
    rw [dropsEmpty, hexclude]
    cases t.prunesPoints <;> cases ctx.excludeDropsEmpty <;> simp
  rcases exists_prunes_of_labelStage h with ⟨predicate, rfl⟩ | ⟨predicate, names, rfl⟩
  · exact ⟨h, rfl, rfl, rfl, hconfigured⟩
  · exact ⟨h, rfl, rfl, rfl, hconfigured⟩

end FilterTarget

namespace FilterContext

open FilterTarget (ofFilters EmptiesBy lenient between)

variable {ctx : FilterContext} {filters : Filters} {stages : List Stage}

/-- Of the stages of excluding filters on labels those that prune labels drop documents as configured,
and those that prune points always. Without the latter, and if the configuration says no, the stages
change every document where it stands. -/
theorem labelStages_drop_emptied (h : ctx.labelStages filters = .ok stages) :
    ∃ targets, ofFilters ctx.catalog filters = .ok targets ∧
      List.Forall₂ (EmptiesBy ctx) (targets.filter (·.prunesLabels)) stages ∧
      (ctx.excludeDropsEmpty = false →
        (∀ t ∈ targets, t.prunesLabels → t.filter.exclude ∧ t.prunesPoints = false) →
          ∀ (ex : Executor) (docs : List Document),
            ex.run stages docs = docs.map (ex.reshapeAll stages)) := by
  obtain ⟨targets, htargets, -⟩ := Outcome.exists_of_bind_eq_ok h
  rw [labelStages_of_targets htargets] at h
  have hempties := (Outcome.forall₂_of_mapM_eq_ok h).imp
    fun t stage => FilterTarget.emptiesBy_of_labelStage
  have htarget {stage : Stage} (hstage : stage ∈ stages) :
      ∃ t ∈ targets, t.prunesLabels ∧ t.EmptiesBy ctx stage := by
    obtain ⟨t, ht, hempties⟩ := Outcome.exists_of_mem_of_forall₂ hempties hstage
    obtain ⟨ht, hprunes⟩ := List.mem_filter.1 ht
    exact ⟨t, ht, hprunes, hempties⟩
  refine ⟨targets, htargets, hempties, fun hconfig hexcluding ex docs => ?_⟩
  refine ex.run_eq_map_reshapeAll (fun stage hstage => ?_) (fun stage hstage => ?_) docs
  · obtain ⟨t, ht, hprunes, hempties⟩ := htarget hstage
    obtain ⟨hexclude, hpoints⟩ := hexcluding t ht hprunes
    rw [hempties.reorders, hpoints, FilterTarget.dropsEmpty, hexclude, hconfig]
    rfl
  · obtain ⟨t, -, -, hempties⟩ := htarget hstage
    exact hempties.slices

def posed : FilterContext :=
  lenient ((Catalog.empty.insertLabel "gt" .detections []).insertLabel "pose" .keypoints [])

def noCatsNorUnsure : Filters :=
  .ofList [("gt.detections.label", (Filter.ofValues ["cat"]).excluding),
    ("pose.keypoints.confidence", (between 0 1).excluding)]

theorem labelStages_drop_emptied_posed :
    ∃ stages targets, posed.labelStages noCatsNorUnsure = .ok stages ∧
      ofFilters posed.catalog noCatsNorUnsure = .ok targets ∧
      List.Forall₂ (EmptiesBy posed) (targets.filter (·.prunesLabels)) stages ∧
      stages.map (·.onlyMatches?) = [some false, some true] := by
  obtain ⟨stages, hstages⟩ : ∃ stages, posed.labelStages noCatsNorUnsure = .ok stages := ⟨_, rfl⟩
  obtain ⟨targets, htargets, hempties, -⟩ := labelStages_drop_emptied hstages
  refine ⟨stages, targets, hstages, htargets, hempties, ?_⟩
  cases hstages
  rfl

/-- No document is to be dropped, and the filter excludes, but it drops the document of which it blanks
every point. -/
theorem run_labelStages_drops_blanked :
    ∃ stages, posed.labelStages (.ofList [("pose.keypoints.confidence", (between 0 1).excluding)]) =
        .ok stages ∧
      posed.excludeDropsEmpty = false ∧ stages.map (·.onlyMatches?) = [some true] ∧
      (default : Executor).run stages [[("pose", .obj [("keypoints", .arr [.obj
        [("points", .arr [.int 3, .int 4]), ("confidence", .arr [.int 0, .int 1])]])])]] = [] := by
  refine ⟨_, rfl, rfl, rfl, ?_⟩
  decide +kernel

end FilterContext
end MediaViews
