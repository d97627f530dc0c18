import MediaViews.Proofs.Filter.Parts
import MediaViews.View.Compiler

/-! What each filter contributes to a view. Sample tags, label tags and all other filters take three
routes through the compiler, and a filter is dropped where each of them leaves it to another. -/
namespace MediaViews

namespace Traced

variable {α β : Type}

theorem exists_of_outcome_bind_eq_ok {x : Traced α} {f : α → Traced β} {b : β}
    (h : (x >>= f).outcome = .ok b) : ∃ a, x.outcome = .ok a ∧ (f a).outcome = .ok b := by
  change (bind x f).outcome = .ok b at h
  unfold bind at h
  cases hx : x.outcome with
  | error e =>
    rw [hx] at h
    cases h
  | ok a =>
    rw [hx] at h
    exact ⟨a, rfl, h⟩

end Traced

namespace Compiler

def route (key : String) (compile : Filter → Except FilterError (List Stage)) (path : String)
    (f : Filter) : Except FilterError (List Stage) :=
  if path = key then compile f else .ok []

theorem route_of_not_mem {key : String} (compile : Filter → Except FilterError (List Stage))
    {entries : List (String × Filter)} (h : ∀ e ∈ entries, e.1 ≠ key) :
    List.Forall₂ (fun e stages => route key compile e.1 e.2 = .ok stages) entries
      (entries.map fun _ => []) := by
  induction entries with
  | nil => exact .nil
  | cons e entries ih =>
    refine .cons ?_ (ih fun e' he' => h e' (List.mem_cons_of_mem e he'))
    rw [route, if_neg (h e List.mem_cons_self)]

theorem exists_routed_of_get? {filters : Filters} {key : String}
    {compile : Filter → Except FilterError (List Stage)} {stages : List Stage}
    (h : (match filters.get? key with | some f => compile f | none => .ok []) = .ok stages) :
    ∃ routed, List.Forall₂ (fun e part => route key compile e.1 e.2 = .ok part)
      filters.entries routed ∧ stages = routed.flatten := by
  obtain ⟨entries, hascending⟩ := filters
  rw [SortedMap.get?] at h
  dsimp only at h ⊢
  induction entries with
  | nil =>
    obtain rfl := Except.ok.inj h
    exact ⟨[], .nil, rfl⟩
  | cons e entries ih =>
    obtain ⟨path, f⟩ := e
    obtain ⟨hfirst, hrest⟩ := List.pairwise_cons.1 hascending
    by_cases hkey : path = key
    · -- Keys ascend, so no later filter is on the same path.
      subst hkey
      rw [List.lookup_cons_self] at h
      have hothers : ∀ e ∈ entries, e.1 ≠ path := fun e he => (hfirst e he).ne'
      refine ⟨stages :: entries.map fun _ => [],
        .cons (by rw [route, if_pos rfl]; exact h) (route_of_not_mem compile hothers), ?_⟩
      rw [List.flatten_cons, List.flatten_eq_nil_iff.2 (by simp), List.append_nil]
    · rw [SortedMap.lookup_cons_of_ne (Ne.symm hkey)] at h
      obtain ⟨routed, hrouted, rfl⟩ := ih hrest h
      exact ⟨[] :: routed, .cons (by rw [route, if_neg hkey]) hrouted, rfl⟩

end Compiler

structure Contribution where
  tags : List Stage
  labelTags : List Stage
  part : FilterPart

namespace Contribution

def isEmpty (c : Contribution) : Bool := c.tags.isEmpty && c.labelTags.isEmpty && c.part.isEmpty

def assemble (cs : List Contribution) : List Stage :=
  cs.flatMap (·.tags) ++ cs.flatMap (·.labelTags) ++ FilterPart.assemble (cs.map (·.part))

end Contribution

namespace Compiler

def contribution (config : Config) (d : Dataset) (path : String) (f : Filter) :
    Except FilterError Contribution := do
  let tags ← route FilterTarget.tagsPath
    (fun f => .ok [.matchTags f.presentValues (!f.exclude)]) path f
  let labelTags ← route LabelTags.field
    (LabelTags.filterStages (TagSource.ofCatalog d.catalog)) path f
  let part ← (filterContext config d).part path f
  return ⟨tags, labelTags, part⟩

theorem exists_contributions_of_routes {config : Config} {d : Dataset}
    {entries : List (String × Filter)} {tags labelTags : List (List Stage)}
    {parts : List FilterPart}
    (htags : List.Forall₂ (fun e stages => route FilterTarget.tagsPath
      (fun f => .ok [.matchTags f.presentValues (!f.exclude)]) e.1 e.2 = .ok stages) entries tags)
    (hlabelTags : List.Forall₂ (fun e stages => route LabelTags.field
      (LabelTags.filterStages (TagSource.ofCatalog d.catalog)) e.1 e.2 = .ok stages)
        entries labelTags)
    (hparts : List.Forall₂ (fun e p => (filterContext config d).part e.1 e.2 = .ok p)
      entries parts) :
    ∃ cs, List.Forall₂ (fun e c => contribution config d e.1 e.2 = .ok c) entries cs ∧
      cs.flatMap (·.tags) = tags.flatten ∧ cs.flatMap (·.labelTags) = labelTags.flatten ∧
      cs.map (·.part) = parts := by
  induction hparts generalizing tags labelTags with
  | nil =>
    obtain rfl := List.forall₂_nil_left_iff.1 htags
    obtain rfl := List.forall₂_nil_left_iff.1 hlabelTags
    exact ⟨[], .nil, rfl, rfl, rfl⟩
  | @cons e p entries parts hpart hparts ih =>
    obtain ⟨t, ts, ht, hts, rfl⟩ := List.forall₂_cons_left_iff.1 htags
    obtain ⟨l, ls, hl, hls, rfl⟩ := List.forall₂_cons_left_iff.1 hlabelTags
    obtain ⟨cs, hcs, hcsTags, hcsLabelTags, hcsParts⟩ := ih hts hls
    have hc : contribution config d e.1 e.2 = .ok ⟨t, l, p⟩ := by
      rw [contribution, ht, hl, hpart]
      rfl
    refine ⟨⟨t, l, p⟩ :: cs, .cons hc hcs, ?_, ?_, ?_⟩
    · rw [List.flatMap_cons, List.flatten_cons, hcsTags]
    · rw [List.flatMap_cons, List.flatten_cons, hcsLabelTags]
    · rw [List.map_cons, hcsParts]

theorem exists_contributions_of_filterStages_eq_ok {config : Config} {d : Dataset}
    {filters : Filters} {stages : List Stage} (h : filterStages config d filters = .ok stages) :
    ∃ cs, List.Forall₂ (fun e c => contribution config d e.1 e.2 = .ok c) filters.entries cs ∧
      stages = Contribution.assemble cs := by
  obtain ⟨labelStages, hlabelStages, h⟩ := Outcome.exists_of_bind_eq_ok h
  obtain ⟨others, hothers, h⟩ := Outcome.exists_of_bind_eq_ok h
  obtain rfl := Except.ok.inj h
  have htagStages : (match filters.get? FilterTarget.tagsPath with
      | some f => .ok [.matchTags f.presentValues (!f.exclude)]
      | none => .ok []) = (.ok (tagStages filters) : Except FilterError (List Stage)) := by
    rw [tagStages]
    cases filters.get? FilterTarget.tagsPath <;> rfl
  obtain ⟨tags, htags, htagsFlat⟩ := exists_routed_of_get? htagStages
  obtain ⟨labelTags, hlabelTags, rfl⟩ := exists_routed_of_get? hlabelStages
  obtain ⟨parts, hparts, rfl⟩ := FilterContext.exists_parts_of_stages_eq_ok hothers
  obtain ⟨cs, hcs, hcsTags, hcsLabelTags, hcsParts⟩ :=
    exists_contributions_of_routes htags hlabelTags hparts
  refine ⟨cs, hcs, ?_⟩
  rw [Contribution.assemble, hcsTags, hcsLabelTags, hcsParts, htagsFlat]

end Compiler

theorem TagSource.ofCatalog_eq_nil {c : Catalog} : ofCatalog c = [] ↔ c.labelFields = [] := by
  rw [ofCatalog, List.append_eq_nil_iff, List.filter_eq_nil_iff, List.filter_eq_nil_iff]
  constructor
  · rintro ⟨hsample, hframe⟩
    rw [← List.map_eq_nil_iff (f := ofField c), List.eq_nil_iff_forall_not_mem]
    intro s hs
    cases hlevel : s.level with
    | sample => exact hsample s hs (by rw [hlevel]; rfl)
    | frame => exact hframe s hs (by rw [hlevel]; rfl)
  · intro h
    rw [h]
    exact ⟨nofun, nofun⟩

theorem LabelTags.filterStages_eq_nil {sources : List TagSource} {f : Filter}
    {stages : List Stage} (h : filterStages sources f = .ok stages) :
    stages = [] ↔ f.exclude ∧ sources = [] := by
  rw [filterStages] at h
  split at h
  · cases h
  · split at h
    · next hsources =>
      obtain rfl := Except.ok.inj h
      rw [List.isEmpty_iff] at hsources
      cases f.exclude <;> simp [hsources]
    · next hsources =>
      rw [List.isEmpty_iff] at hsources
      dsimp only at h
      split at h
      · next hmatching =>
        obtain rfl := Except.ok.inj h
        simp [hmatching, hsources]
      · obtain ⟨predicate, -, h⟩ := Outcome.exists_of_bind_eq_ok h
        obtain rfl := Except.ok.inj h
        simp [hsources]

namespace Compiler

/-- The filters that no route takes: those on a path with an underscore in front which is not that
of label tags, and the exclusion of label tags where no field has labels. -/
def Drops (c : Catalog) (path : String) (f : Filter) : Prop :=
  (path.toList.head? = some '_' ∧ path ≠ LabelTags.field) ∨
    (path = LabelTags.field ∧ f.exclude ∧ c.labelFields = [])

theorem isEmpty_contribution {config : Config} {d : Dataset} {path : String} {f : Filter}
    {c : Contribution} (h : contribution config d path f = .ok c) :
    c.isEmpty ↔ Drops d.catalog path f := by
  obtain ⟨tags, htags, h⟩ := Outcome.exists_of_bind_eq_ok h
  obtain ⟨labelTags, hlabelTags, h⟩ := Outcome.exists_of_bind_eq_ok h
  obtain ⟨part, hpart, h⟩ := Outcome.exists_of_bind_eq_ok h
  obtain rfl := Except.ok.inj h
  have hunder : LabelTags.field.toList.head? = some '_' := by decide
  have hplain : FilterTarget.tagsPath.toList.head? ≠ some '_' := by decide
  rw [Contribution.isEmpty, FilterContext.isEmpty_part hpart, FilterTarget.isReserved, Drops]
  -- Two routes take one path each, and the third takes the paths without an underscore in front.
  by_cases hlabel : path = LabelTags.field
  · subst hlabel
    rw [route, if_neg (by decide)] at htags
    rw [route, if_pos rfl] at hlabelTags
    obtain rfl := Except.ok.inj htags
    have hempty := LabelTags.filterStages_eq_nil hlabelTags
    rw [TagSource.ofCatalog_eq_nil] at hempty
    simp [hunder, hempty]
  · rw [route, if_neg hlabel] at hlabelTags
    obtain rfl := Except.ok.inj hlabelTags
    by_cases htag : path = FilterTarget.tagsPath
    · subst htag
      rw [route, if_pos rfl] at htags
      obtain rfl := Except.ok.inj htags
      simp [hplain, hlabel]
    · rw [route, if_neg htag] at htags
      obtain rfl := Except.ok.inj htags
      simp [htag, hlabel]

theorem tracedFilterStages_eq_ok {config : Config} {d : Dataset} {filters : Filters}
    {stages : List Stage}
    (h : (tracedFilterStages config d (some filters)).outcome = .ok stages) :
    filterStages config d filters = .ok stages := by
  obtain ⟨compiled, hcompiled, h⟩ := Traced.exists_of_outcome_bind_eq_ok h
  obtain ⟨-, -, h⟩ := Traced.exists_of_outcome_bind_eq_ok h
  obtain rfl := Except.ok.inj h
  exact Outcome.exists_of_mapError_eq_ok hcompiled

/-- An extended view holds the contribution of every filter, and the contributions that are empty
are exactly those of the filters that are dropped. -/
theorem extend_assembles_contributions {config : Config} {v v' : View} {e : Extension}
    {filters : Filters} (hfilters : e.filters = some filters)
    (h : (extend config v e).outcome = .ok v') :
    ∃ extended cs,
      List.Forall₂ (fun entry c => contribution config v.dataset entry.1 entry.2 = .ok c ∧
        (c.isEmpty ↔ Drops v.dataset.catalog entry.1 entry.2)) filters.entries cs ∧
      v'.stages = v.stages ++ (extended ++ projection config v e ++ Contribution.assemble cs ++
        countStages config v e) := by
  obtain ⟨extended, -, h⟩ := Traced.exists_of_outcome_bind_eq_ok h
  obtain ⟨filtered, hfiltered, h⟩ := Traced.exists_of_outcome_bind_eq_ok h
  obtain rfl := Except.ok.inj h
  rw [hfilters] at hfiltered
  obtain ⟨cs, hcs, rfl⟩ :=
    exists_contributions_of_filterStages_eq_ok (tracedFilterStages_eq_ok hfiltered)
  exact ⟨extended, cs, hcs.imp fun entry c hc => ⟨hc, isEmpty_contribution hc⟩, rfl⟩

def plainView : View := .ofDataset (.plain "plain" .image .empty)

def taggedOrHidden : Extension where
  filters := some (.ofList [("tags", .ofValues ["kept"]), ("_hidden", .ofValues ["kept"])])

theorem extend_assembles_contributions_taggedOrHidden :
    ∃ filters v', taggedOrHidden.filters = some filters ∧
      (extend {} plainView taggedOrHidden).outcome = .ok v' ∧
      ∃ extended cs,
        List.Forall₂ (fun entry c => contribution {} plainView.dataset entry.1 entry.2 = .ok c ∧
          (c.isEmpty ↔ Drops plainView.dataset.catalog entry.1 entry.2)) filters.entries cs ∧
        v'.stages = plainView.stages ++ (extended ++ projection {} plainView taggedOrHidden ++
          Contribution.assemble cs ++ countStages {} plainView taggedOrHidden) := by
  obtain ⟨v', hv'⟩ : ∃ v', (extend {} plainView taggedOrHidden).outcome = .ok v' := ⟨_, rfl⟩
  exact ⟨_, v', rfl, hv', extend_assembles_contributions rfl hv'⟩

/-- A filter on an unknown path goes through without a stage or a condition. -/
theorem extend_of_hidden_filter :
    (extend {} plainView
      { filters := some (SortedMap.empty.insert "_hidden" (.ofValues ["kept"])) }).outcome =
        .ok plainView ∧ plainView.stages = [] ∧ plainView.dataset.catalog.get? "_hidden" = none := by
  exact ⟨rfl, rfl, rfl⟩

end Compiler
end MediaViews
