import MediaViews.Proofs.Filter.Targets

/-! The part that each filter has in the stages of all filters. The stages are built group by group;
here they are told filter by filter. -/
namespace MediaViews

structure FilterPart where
  conditions : List Query := []
  lists : List Stage := []
  labels : List Stage := []

namespace FilterPart

def isEmpty (p : FilterPart) : Bool := p.conditions.isEmpty && p.lists.isEmpty && p.labels.isEmpty

def matched (conditions : List Query) : List Stage :=
  if conditions.isEmpty then [] else [.matchQuery (.allOf conditions)]

def assemble (parts : List FilterPart) : List Stage :=
  matched (parts.flatMap (·.conditions)) ++ parts.flatMap (·.lists) ++ parts.flatMap (·.labels)

end FilterPart

namespace FilterTarget

def part (ctx : FilterContext) (t : FilterTarget) : Except FilterError FilterPart := do
  let conditions ← Outcome.only t.matchesDocuments (t.condition ctx.catalog)
  let lists ← Outcome.only t.prunesList (t.listStage ctx.catalog)
  let labels ← Outcome.only t.prunesLabels (t.labelStage ctx)
  return ⟨conditions, lists, labels⟩

theorem isEmpty_part {ctx : FilterContext} {t : FilterTarget} {p : FilterPart}
    (h : t.part ctx = .ok p) : p.isEmpty = false := by
  obtain ⟨conditions, hconditions, h⟩ := Outcome.exists_of_bind_eq_ok h
  obtain ⟨lists, hlists, h⟩ := Outcome.exists_of_bind_eq_ok h
  obtain ⟨labels, hlabels, h⟩ := Outcome.exists_of_bind_eq_ok h
  obtain rfl := Except.ok.inj h
  rw [FilterPart.isEmpty, Outcome.only_eq_ok hconditions, Outcome.only_eq_ok hlists,
    Outcome.only_eq_ok hlabels]
  rcases t.role_cases with ⟨hrole, -, -⟩ | ⟨-, hrole, -⟩ | ⟨-, -, hrole⟩ <;> simp [hrole]

end FilterTarget

namespace FilterContext

def part (ctx : FilterContext) (path : String) (f : Filter) : Except FilterError FilterPart := do
  match ← FilterTarget.ofEntry ctx.catalog path f with
  | none => return {}
  | some t => t.part ctx

theorem isEmpty_part {ctx : FilterContext} {path : String} {f : Filter} {p : FilterPart}
    (h : ctx.part path f = .ok p) : p.isEmpty = FilterTarget.isReserved path := by
  obtain ⟨target, htarget, h⟩ := Outcome.exists_of_bind_eq_ok h
  rcases FilterTarget.ofEntry_cases htarget with ⟨hreserved, rfl⟩ | ⟨hreserved, field, -, rfl⟩
  · obtain rfl := Except.ok.inj h
    exact hreserved.symm
  · rw [FilterTarget.isEmpty_part h, hreserved]

theorem exists_parts_of_groups {ctx : FilterContext} {entries : List (String × Filter)}
    {each : List (Option FilterTarget)} {conditions : List Query} {lists labels : List Stage}
    (heach : List.Forall₂ (fun e t => FilterTarget.ofEntry ctx.catalog e.1 e.2 = .ok t) entries each)
    (hconditions : ((each.filterMap id).filter (·.matchesDocuments)).mapM
      (·.condition ctx.catalog) = .ok conditions)
    (hlists : ((each.filterMap id).filter (·.prunesList)).mapM (·.listStage ctx.catalog) = .ok lists)
    (hlabels : ((each.filterMap id).filter (·.prunesLabels)).mapM (·.labelStage ctx) = .ok labels) :
    ∃ parts, List.Forall₂ (fun e p => ctx.part e.1 e.2 = .ok p) entries parts ∧
      conditions = parts.flatMap (·.conditions) ∧ lists = parts.flatMap (·.lists) ∧
      labels = parts.flatMap (·.labels) := by
  -- Each group filters the same targets, so the share of the first target comes off all three.
  induction heach generalizing conditions lists labels with
  | nil =>
    obtain rfl := Except.ok.inj hconditions
    obtain rfl := Except.ok.inj hlists
    obtain rfl := Except.ok.inj hlabels
    exact ⟨[], .nil, rfl, rfl, rfl⟩
  | @cons e target entries each htarget heach ih =>
    cases target with
    | none =>
      obtain ⟨parts, hparts, rfl, rfl, rfl⟩ := ih hconditions hlists hlabels
      exact ⟨{} :: parts, .cons (by rw [part, htarget]; rfl) hparts, rfl, rfl, rfl⟩
    | some t =>
      obtain ⟨cs, _, hcs, hmoreConditions, rfl⟩ := Outcome.mapM_filter_cons_eq_ok hconditions
      obtain ⟨ls, _, hls, hmoreLists, rfl⟩ := Outcome.mapM_filter_cons_eq_ok hlists
      obtain ⟨bs, _, hbs, hmoreLabels, rfl⟩ := Outcome.mapM_filter_cons_eq_ok hlabels
      obtain ⟨parts, hparts, rfl, rfl, rfl⟩ := ih hmoreConditions hmoreLists hmoreLabels
      have hpart : ctx.part e.1 e.2 = .ok ⟨cs, ls, bs⟩ := by
        rw [part, htarget]
        change t.part ctx = _
        rw [FilterTarget.part, hcs, hls, hbs]
        rfl
      exact ⟨⟨cs, ls, bs⟩ :: parts, .cons hpart hparts, rfl, rfl, rfl⟩

theorem exists_groups_of_stages_eq_ok {ctx : FilterContext} {filters : Filters}
    {stages : List Stage} (h : ctx.stages filters = .ok stages) :
    ∃ targets conditions lists labels, FilterTarget.ofFilters ctx.catalog filters = .ok targets ∧
      (targets.filter (·.matchesDocuments)).mapM (·.condition ctx.catalog) = .ok conditions ∧
      (targets.filter (·.prunesList)).mapM (·.listStage ctx.catalog) = .ok lists ∧
      (targets.filter (·.prunesLabels)).mapM (·.labelStage ctx) = .ok labels ∧
      stages = FilterPart.matched conditions ++ lists ++ labels := by
  obtain ⟨matched, hmatched, h⟩ := Outcome.exists_of_bind_eq_ok h
  obtain ⟨lists, hlists, h⟩ := Outcome.exists_of_bind_eq_ok h
  obtain ⟨labels, hlabels, h⟩ := Outcome.exists_of_bind_eq_ok h
  obtain rfl := Except.ok.inj h
  obtain ⟨targets, htargets, hmatched⟩ := Outcome.exists_of_bind_eq_ok hmatched
  obtain ⟨conditions, hconditions, hmatched⟩ := Outcome.exists_of_bind_eq_ok hmatched
  obtain rfl := Except.ok.inj hmatched
  rw [listStages, htargets] at hlists
  rw [labelStages, htargets] at hlabels
  refine ⟨targets, conditions, lists, labels, htargets, hconditions, hlists, hlabels, ?_⟩
  rw [FilterPart.matched]
  split <;> rfl

theorem exists_parts_of_stages_eq_ok {ctx : FilterContext} {filters : Filters}
    {stages : List Stage} (h : ctx.stages filters = .ok stages) :
    ∃ parts, List.Forall₂ (fun e p => ctx.part e.1 e.2 = .ok p) filters.entries parts ∧
      stages = FilterPart.assemble parts := by
  obtain ⟨targets, conditions, lists, labels, htargets, hconditions, hlists, hlabels, rfl⟩ :=
    exists_groups_of_stages_eq_ok h
  obtain ⟨each, heach, rfl⟩ := FilterTarget.exists_targets_of_ofFilters htargets
  obtain ⟨parts, hparts, rfl, rfl, rfl⟩ := exists_parts_of_groups heach hconditions hlists hlabels
  exact ⟨parts, hparts, rfl⟩

end FilterContext
end MediaViews
