import MediaViews.Proofs.Stage.Rereading
import MediaViews.Proofs.View.Narrowing
import MediaViews.Proofs.View.Pagination

/-! Views that are sent back. No compiled view holds a stage that is read back as another one, so the
stages of a view, sent with a request that asks for nothing else, compile to themselves. -/
namespace MediaViews

theorem Expr.toJson_ne_null {e : Expr} (h : ∀ l, e ≠ .literal l) : e.toJson ≠ .null := by
  cases e with
  | ref root path => cases root <;> cases path <;> simp [toJson]
  | literal value => exact absurd rfl (h value)
  | _ => simp [toJson, Json.ofMembers]

namespace Filter

variable {e predicate : Expr} {l : Literal}

theorem and_ne_literal (a b : Expr) : a.and b ≠ .literal l := by
  cases a <;> exact nofun

theorem withinBounds_ne_literal (kind : FieldKind) (min max : Literal) :
    withinBounds e kind min max ≠ .literal l := by
  unfold withinBounds
  split <;> exact and_ne_literal _ _

theorem truthPredicate_ne_literal (f : Filter) : truthPredicate e f ≠ .literal l := by
  unfold truthPredicate
  split
  · exact nofun
  · exact nofun
  · exact nofun
  · exact and_ne_literal _ _

theorem pointPredicate_ne_literal {path : String} {kind : FieldKind} {f : Filter}
    (h : pointPredicate path e kind f = .ok predicate) : predicate ≠ .literal l := by
  have hnumber : ∀ {kind : FieldKind} {range : Double × Double},
      (boundLiterals path kind range).bind (fun bounds =>
        .ok (if f.exclude then .negation (withinBounds e kind bounds.1 bounds.2)
          else withinBounds e kind bounds.1 bounds.2)) = .ok predicate → predicate ≠ .literal l := by
    intro kind range h
    obtain ⟨bounds, -, h⟩ := Outcome.exists_of_bind_eq_ok h
    obtain rfl := Except.ok.inj h
    split
    · exact nofun
    · exact withinBounds_ne_literal kind _ _
  cases kind with
  | bool =>
    obtain rfl := Except.ok.inj h
    exact truthPredicate_ne_literal f
  | float | int =>
    rw [pointPredicate] at h
    cases hrange : f.range with
    | none =>
      rw [hrange] at h
      cases h
    | some range =>
      rw [hrange] at h
      exact hnumber h
  | _ => cases h

end Filter

namespace Stage

def AllReread (stages : List Stage) : Prop := ∀ stage ∈ stages, stage.hasNullPredicate = false

variable {stages more : List Stage}

theorem AllReread.append (h : AllReread stages) (hmore : AllReread more) :
    AllReread (stages ++ more) := List.forall_mem_append.2 ⟨h, hmore⟩

theorem hasNullPredicate_keepPointsWhere {predicate : Expr} (h : ∀ l, predicate ≠ .literal l)
    (field : String) : (keepPointsWhere field predicate).hasNullPredicate = false := by
  have hnull := Expr.toJson_ne_null h
  unfold keepPointsWhere hasNullPredicate
  split
  · next heq => simp_all
  · rfl

end Stage

open Stage (AllReread)

theorem FilterTarget.hasNullPredicate_labelStage {ctx : FilterContext} {t : FilterTarget}
    {stage : Stage} (h : t.labelStage ctx = .ok stage) : stage.hasNullPredicate = false := by
  rcases labelStage_cases h with ⟨-, h⟩ | ⟨-, predicate, -, rfl⟩
  · rcases keypointStage_cases h with ⟨names, rfl⟩ | ⟨kind, predicate, hpredicate, rfl⟩
    · rfl
    · have hliteral : ∀ l, predicate ≠ .literal l := fun l =>
        Filter.pointPredicate_ne_literal hpredicate
      exact Stage.hasNullPredicate_keepPointsWhere hliteral _
  · rfl

theorem FilterContext.allReread_stages {ctx : FilterContext} {filters : Filters}
    {stages : List Stage} (h : ctx.stages filters = .ok stages) : AllReread stages := by
  obtain ⟨targets, conditions, lists, labels, -, -, hlists, hlabels, rfl⟩ :=
    exists_groups_of_stages_eq_ok h
  have hmatched : AllReread (FilterPart.matched conditions) := by
    intro stage hstage
    unfold FilterPart.matched at hstage
    split at hstage
    · cases hstage
    · rw [List.mem_singleton.1 hstage]
      rfl
  have hpruning : AllReread lists := by
    intro stage hstage
    obtain ⟨t, -, hstage⟩ := Outcome.exists_of_mem_of_mapM_eq_ok hlists hstage
    obtain ⟨predicate, -, rfl⟩ := FilterTarget.exists_of_listStage_eq_ok hstage
    rfl
  have hlabeling : AllReread labels := by
    intro stage hstage
    obtain ⟨t, -, hstage⟩ := Outcome.exists_of_mem_of_mapM_eq_ok hlabels hstage
    exact FilterTarget.hasNullPredicate_labelStage hstage
  exact (hmatched.append hpruning).append hlabeling

theorem LabelTags.allReread_filterStages {sources : List TagSource} {f : Filter}
    {stages : List Stage} (h : filterStages sources f = .ok stages) : AllReread stages := by
  intro stage hstage
  rcases filterStages_cases h stage hstage with ⟨q, rfl, -⟩ | ⟨s, -, predicate, -, rfl⟩
  · rfl
  · rfl

namespace Compiler

variable {config : Config} {v : View} {e : Extension} {stages : List Stage}

theorem allReread_extendedStages {entries : List (String × Json)}
    (h : extendedStages entries = .ok stages) : AllReread stages := by
  intro stage hstage
  obtain ⟨entry, -, hentry⟩ := Outcome.exists_of_mem_of_mapM_eq_ok h hstage
  exact Stage.hasNullPredicate_of_ofJson hentry

theorem allReread_projection : AllReread (projection config v e) := by
  intro stage hstage
  rcases projection_cases config v e with ⟨hnone, -⟩ | hsome
  · rw [hnone] at hstage
    cases hstage
  · rw [hsome] at hstage
    rw [List.mem_singleton.1 hstage]
    rfl

theorem allReread_countStages : AllReread (countStages config v e) := by
  intro stage hstage
  obtain ⟨field, expr, rfl⟩ := exists_set_of_mem_countStages config v e hstage
  rfl

theorem allReread_filterStages {d : Dataset} {filters : Filters}
    (h : filterStages config d filters = .ok stages) : AllReread stages := by
  obtain ⟨labelTags, hlabelTags, h⟩ := Outcome.exists_of_bind_eq_ok h
  obtain ⟨others, hothers, h⟩ := Outcome.exists_of_bind_eq_ok h
  obtain rfl := Except.ok.inj h
  have htags : AllReread (tagStages filters) := by
    intro stage hstage
    unfold tagStages at hstage
    split at hstage
    · rw [List.mem_singleton.1 hstage]
      rfl
    · cases hstage
  have hlabels : AllReread labelTags := by
    unfold labelTagStages at hlabelTags
    split at hlabelTags
    · exact LabelTags.allReread_filterStages hlabelTags
    · obtain rfl := Except.ok.inj hlabelTags
      exact List.forall_mem_nil _
  exact (htags.append hlabels).append (FilterContext.allReread_stages hothers)

end Compiler

namespace View

structure IsReread (d : Dataset) (v : View) : Prop where
  dataset : v.dataset = d
  stages : AllReread v.stages

variable {d : Dataset} {v narrowed : View} {ids : List String} {groups : Bool} {field : String}
  {filter : GroupFilter}

theorem IsReread.append (h : IsReread d v) {stages : List Stage} (hstages : AllReread stages) :
    IsReread d (v.append stages) := ⟨h.dataset, h.stages.append hstages⟩

theorem isReread_ofDataset (d : Dataset) : IsReread d (.ofDataset d) :=
  ⟨rfl, List.forall_mem_nil _⟩

theorem isReread_ofJsonStages {stages : List Json} (h : ofJsonStages d stages = .ok v) :
    IsReread d v := by
  obtain ⟨read, hread, h⟩ := Outcome.exists_of_bind_eq_ok h
  obtain rfl := Except.ok.inj h
  refine ⟨rfl, fun stage hstage => ?_⟩
  obtain ⟨j, -, hj⟩ := Outcome.exists_of_mem_of_mapM_eq_ok hread hstage
  exact Stage.hasNullPredicate_of_ofJson hj

theorem hasNullPredicate_selectByIds {stage : Stage} (h : Stage.selectByIds field ids = .ok stage) :
    stage.hasNullPredicate = false := by
  obtain ⟨parsed, -, h⟩ := Outcome.exists_of_bind_eq_ok h
  obtain rfl := Except.ok.inj h
  rfl

theorem hasNullPredicate_selection {stage : Stage} (h : v.selection ids groups = .ok stage) :
    stage.hasNullPredicate = false := by
  rw [selection] at h
  split at h
  · obtain ⟨groupField, -, h⟩ := Outcome.exists_of_bind_eq_ok h
    exact hasNullPredicate_selectByIds (Outcome.exists_of_mapError_eq_ok h)
  · obtain ⟨parsed, -, h⟩ := Outcome.exists_of_bind_eq_ok (Outcome.exists_of_mapError_eq_ok h)
    obtain rfl := Except.ok.inj h
    rfl

theorem dataset_select (h : v.select ids groups = .ok narrowed) : narrowed.dataset = v.dataset := by
  obtain ⟨selection, -, h⟩ := Outcome.exists_of_bind_eq_ok h
  obtain rfl := Except.ok.inj h
  split <;> rfl

theorem IsReread.select (hv : IsReread d v) (h : v.select ids groups = .ok narrowed) :
    IsReread d narrowed := by
  obtain ⟨selection, hselection, hmem⟩ := mem_select h
  refine ⟨(dataset_select h).trans hv.dataset, fun stage hstage => ?_⟩
  rcases (hmem stage).1 hstage with rfl | hold
  · exact hasNullPredicate_selection hselection
  · exact hv.stages stage hold

theorem IsReread.narrow {flattened : Bool} (hv : IsReread d v)
    (h : v.narrow filter = .ok (narrowed, flattened)) : IsReread d narrowed := by
  obtain ⟨field, hfield, -⟩ := Outcome.exists_of_bind_eq_ok h
  rw [narrow_eq (groupField_eq_ok_iff.1 hfield)] at h
  obtain ⟨group, -, h⟩ := Outcome.exists_of_map_eq_ok h
  obtain ⟨rfl, -⟩ := Prod.mk.inj h
  refine ⟨hv.dataset, fun stage hstage => ?_⟩
  obtain hold | rfl | hselection | hmembership := mem_stages_narrowed hstage
  · exact hv.stages stage hold
  · rfl
  · obtain ⟨id, -, rfl⟩ := List.mem_map.1 hselection
    rfl
  · obtain ⟨slices, -, rfl⟩ := List.mem_map.1 hmembership
    rfl

theorem IsReread.resolveGroup {types : Option (List MediaType)} (hv : IsReread d v)
    (h : (v.resolveGroup filter).outcome = .ok (narrowed, types)) : IsReread d narrowed := by
  cases hempty : filter.isEmpty with
  | true =>
    rw [View.resolveGroup, hempty] at h
    obtain ⟨rfl, -⟩ := Prod.mk.inj (Except.ok.inj h)
    exact hv
  | false =>
    rw [outcome_resolveGroup hempty] at h
    obtain ⟨⟨narrow, flattened⟩, hnarrow, h⟩ := Outcome.exists_of_map_eq_ok h
    obtain ⟨rfl, -⟩ := Prod.mk.inj h
    exact hv.narrow hnarrow

end View

namespace Compiler

open View (IsReread)

variable {config : Config} {c : Compiler} {d : Dataset} {v narrowed : View} {e : Extension}
  {r : ViewRequest} {compiled : CompiledView}

theorem isReread_applySampleFilter {filter : Option SampleFilter}
    {types : Option (List MediaType)} (hv : IsReread d v)
    (h : (applySampleFilter v filter).outcome = .ok (narrowed, types)) : IsReread d narrowed := by
  unfold applySampleFilter at h
  split at h
  · obtain ⟨rfl, -⟩ := Prod.mk.inj (Except.ok.inj h)
    exact hv
  · split at h
    · exact hv.resolveGroup h
    · obtain ⟨selected, hselected, h⟩ := Traced.exists_of_outcome_bind_eq_ok h
      obtain ⟨rfl, -⟩ := Prod.mk.inj (Except.ok.inj h)
      exact hv.select hselected
    · obtain ⟨rfl, -⟩ := Prod.mk.inj (Except.ok.inj h)
      exact hv

theorem isReread_extend {extended : View} (hv : IsReread d v)
    (h : (extend config v e).outcome = .ok extended) : IsReread d extended := by
  obtain ⟨stages, hstages, h⟩ := Traced.exists_of_outcome_bind_eq_ok h
  obtain ⟨filtered, hfiltered, h⟩ := Traced.exists_of_outcome_bind_eq_ok h
  obtain rfl := Except.ok.inj h
  have hfilters : AllReread filtered := by
    cases hfilters : e.filters with
    | none =>
      rw [hfilters] at hfiltered
      obtain rfl := Except.ok.inj hfiltered
      exact List.forall_mem_nil _
    | some filters =>
      rw [hfilters] at hfiltered
      exact allReread_filterStages (tracedFilterStages_eq_ok hfiltered)
  have hextended := allReread_extendedStages (Outcome.exists_of_mapError_eq_ok hstages)
  exact hv.append (((hextended.append allReread_projection).append hfilters).append
    allReread_countStages)

theorem isReread_baseView (h : baseView d r = .ok v) : IsReread d v := by
  unfold baseView at h
  split at h
  · exact View.isReread_ofJsonStages h
  · obtain rfl := Except.ok.inj h
    exact View.isReread_ofDataset d

theorem isReread_adHocView (h : (adHocView config d r).outcome = .ok compiled) :
    IsReread d compiled.view := by
  obtain ⟨base, hbase, h⟩ := Traced.exists_of_outcome_bind_eq_ok h
  obtain ⟨⟨narrowed, types⟩, hnarrowed, h⟩ := Traced.exists_of_outcome_bind_eq_ok h
  have hread := isReread_applySampleFilter
    (isReread_baseView (Outcome.exists_of_mapError_eq_ok hbase)) hnarrowed
  dsimp only at h
  split at h
  · obtain ⟨extended, hextended, h⟩ := Traced.exists_of_outcome_bind_eq_ok h
    obtain rfl := Except.ok.inj h
    exact isReread_extend hread hextended
  · obtain rfl := Except.ok.inj h
    exact hread

theorem isReread_savedView {name : String} (h : (savedView d name).outcome = .ok compiled) :
    IsReread d compiled.view := by
  obtain ⟨stages, -, h⟩ := Traced.exists_of_outcome_bind_eq_ok h
  obtain ⟨view, hview, h⟩ := Traced.exists_of_outcome_bind_eq_ok h
  obtain ⟨-, -, h⟩ := Traced.exists_of_outcome_bind_eq_ok h
  obtain rfl := Except.ok.inj h
  exact View.isReread_ofJsonStages (Outcome.exists_of_mapError_eq_ok hview)

theorem exists_isReread_of_compile {stamp : BuildStamp}
    (h : (c.compile stamp r).outcome = .ok compiled) :
    ∃ d, c.library.dataset r.dataset = .ok d ∧ IsReread d compiled.view := by
  obtain ⟨d, hd, h⟩ := Traced.exists_of_outcome_bind_eq_ok h
  refine ⟨d, hd, ?_⟩
  split at h
  · exact isReread_savedView h
  · exact isReread_adHocView h

def resubmission (name : String) (v : View) : ViewRequest where
  dataset := name
  stages := some (v.stages.map Stage.toJson)

def resubmitted (v : View) : View := { View.ofDataset v.dataset with stages := v.stages }

theorem ofJsonStages_toJson (h : IsReread d v) :
    View.ofJsonStages v.dataset (v.stages.map Stage.toJson) = .ok (resubmitted v) := by
  rw [View.ofJsonStages, Stage.mapM_ofJson_toJson h.stages]
  rfl

theorem compile_resubmission_of_isReread (hd : c.library.dataset r.dataset = .ok d)
    (h : IsReread d v) (stamp : BuildStamp) :
    (c.compile stamp (resubmission r.dataset v)).outcome = .ok ⟨resubmitted v, none⟩ := by
  have hread := ofJsonStages_toJson h
  rw [h.dataset] at hread
  have hbase : (baseView d (resubmission r.dataset v)).mapError ViewError.stage =
      .ok (resubmitted v) := by
    show (View.ofJsonStages d (v.stages.map Stage.toJson)).mapError ViewError.stage = _
    rw [hread]
    rfl
  have hlifted : (Traced.lift (c.library.dataset r.dataset)).outcome = .ok d := hd
  show (Traced.lift (c.library.dataset r.dataset) >>= fun d =>
    adHocView c.config d (resubmission r.dataset v)).outcome = _
  rw [Traced.outcome_bind hlifted, adHocView, Traced.outcome_bind hbase]
  rfl

/-- Stages are read back as they were written, but for those for points with null as their predicate,
which is lost. No compiled view holds such a stage, so that its stages are compiled to themselves. -/
theorem compile_resubmission :
    (∀ stage : Stage,
      (¬∃ field labels onlyMatches,
        stage = .filterKeypoints field (some .null) labels onlyMatches) →
      Stage.ofJson stage.toJson = .ok stage) ∧
    (∀ field labels onlyMatches,
      Stage.ofJson (Stage.filterKeypoints field (some .null) labels onlyMatches).toJson =
        .ok (.filterKeypoints field none labels onlyMatches)) ∧
    ∀ (c : Compiler) (stamp : BuildStamp) (r : ViewRequest) (compiled : CompiledView),
      (c.compile stamp r).outcome = .ok compiled →
      (∀ field labels onlyMatches,
        .filterKeypoints field (some .null) labels onlyMatches ∉ compiled.view.stages) ∧
      View.ofJsonStages compiled.view.dataset (compiled.view.stages.map Stage.toJson) =
        .ok (resubmitted compiled.view) ∧
      ∀ again, (c.compile again (resubmission r.dataset compiled.view)).outcome =
        .ok ⟨resubmitted compiled.view, none⟩ := by
  refine ⟨fun stage hstage => ?_, fun field labels onlyMatches => Stage.ofJson_toJson _,
    fun c stamp r compiled h => ?_⟩
  · have hplain : stage.hasNullPredicate = false :=
      Bool.eq_false_of_not_eq_true fun hnull => hstage (Stage.exists_of_hasNullPredicate hnull)
    rw [Stage.ofJson_toJson, Stage.reread_eq_self hplain]
  · obtain ⟨d, hd, hread⟩ := exists_isReread_of_compile h
    refine ⟨fun field labels onlyMatches hmem => ?_, ofJsonStages_toJson hread,
      compile_resubmission_of_isReread hd hread⟩
    cases hread.stages _ hmem

def measuredCompiler : Compiler := ⟨.ofDatasets [measured.dataset], {}⟩

def measuredCats : ViewRequest where
  dataset := "measured"
  stages := some [(Stage.filterKeypoints "gt" (some .null) none true).toJson]
  filters := some cats

theorem compile_resubmission_measuredCats :
    Stage.ofJson (Stage.limit 3).toJson = .ok (.limit 3) ∧
      ∃ compiled : CompiledView,
        (measuredCompiler.compile ⟨"first", 0⟩ measuredCats).outcome = .ok compiled ∧
        compiled.view.stages.length = 3 ∧
        (measuredCompiler.compile ⟨"second", 1⟩
          (resubmission measuredCats.dataset compiled.view)).outcome =
            .ok ⟨resubmitted compiled.view, none⟩ := by
  obtain ⟨hread, -, hcompiled⟩ := compile_resubmission
  refine ⟨hread (.limit 3) (by simp), ?_⟩
  obtain ⟨compiled, h, hlength⟩ : ∃ compiled : CompiledView,
      (measuredCompiler.compile ⟨"first", 0⟩ measuredCats).outcome = .ok compiled ∧
      compiled.view.stages.length = 3 := ⟨_, rfl, rfl⟩
  exact ⟨compiled, h, hlength, (hcompiled measuredCompiler _ measuredCats compiled h).2.2 _⟩

end Compiler
end MediaViews
