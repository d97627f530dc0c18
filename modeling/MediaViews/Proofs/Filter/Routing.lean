import MediaViews.Proofs.Filter.Parts
import MediaViews.Proofs.Text.ByteOrder

/-! The routes of filters. Every filter is compiled in one of three groups of stages, the match of
documents, the stages that prune lists and the stages that prune labels, and in none twice. -/
namespace MediaViews

open ObjectId (utf8Bytes)

namespace FilterTarget

variable {c : Catalog} {filters : Filters} {targets : List FilterTarget}

def entry (t : FilterTarget) : String × Filter := (t.path, t.filter)

def IsUnknown (c : Catalog) (path : String) : Prop :=
  isReserved path = false ∧ c.get? path = none

theorem ofEntry_of_isUnknown {path : String} (h : IsUnknown c path) (f : Filter) :
    ofEntry c path f = .error (.unknownField path) := by
  obtain ⟨hreserved, hfield⟩ := h
  rw [ofEntry, hreserved, if_neg Bool.false_ne_true, hfield]

theorem exists_ofEntry_eq_ok {path : String} (h : ¬IsUnknown c path) (f : Filter) :
    ∃ target, ofEntry c path f = .ok target := by
  rw [ofEntry]
  split
  · exact ⟨none, rfl⟩
  · next hreserved =>
    cases hfield : c.get? path with
    | none => exact absurd ⟨by simpa using hreserved, hfield⟩ h
    | some field => exact ⟨_, rfl⟩

theorem mapM_ofEntry_of_isUnknown {entries : List (String × Filter)}
    (hascending : entries.Pairwise fun a b => a.1 < b.1)
    (h : ∃ path ∈ entries.map (·.1), IsUnknown c path) :
    ∃ path ∈ entries.map (·.1), IsUnknown c path ∧
      (∀ other ∈ entries.map (·.1), IsUnknown c other → other = path ∨ path < other) ∧
      (entries.mapM fun e => ofEntry c e.1 e.2) = .error (.unknownField path) := by
  induction entries with
  | nil =>
    obtain ⟨path, hpath, -⟩ := h
    cases hpath
  | cons e entries ih =>
    obtain ⟨hfirst, hrest⟩ := List.pairwise_cons.1 hascending
    by_cases hunknown : IsUnknown c e.1
    · refine ⟨e.1, List.mem_cons_self, hunknown, fun other hother _ => ?_, ?_⟩
      · rcases List.mem_cons.1 hother with rfl | hother
        · exact .inl rfl
        · obtain ⟨later, hlater, rfl⟩ := List.mem_map.1 hother
          exact .inr (hfirst later hlater)
      · rw [List.mapM_cons, ofEntry_of_isUnknown hunknown]
        rfl
    · have hlater : ∃ path ∈ entries.map (·.1), IsUnknown c path := by
        obtain ⟨path, hpath, hpathUnknown⟩ := h
        rcases List.mem_cons.1 hpath with rfl | hpath
        · exact absurd hpathUnknown hunknown
        · exact ⟨path, hpath, hpathUnknown⟩
      -- The first path is known, so the traversal goes on to the others.
      obtain ⟨path, hpath, hpathUnknown, hleast, herror⟩ := ih hrest hlater
      refine ⟨path, List.mem_cons_of_mem _ hpath, hpathUnknown, fun other hother hotherUnknown => ?_, ?_⟩
      · rcases List.mem_cons.1 hother with rfl | hother
        · exact absurd hotherUnknown hunknown
        · exact hleast other hother hotherUnknown
      · obtain ⟨target, htarget⟩ := exists_ofEntry_eq_ok hunknown e.2
        rw [List.mapM_cons, htarget, herror]
        rfl

theorem map_entry_of_ofFilters (h : ofFilters c filters = .ok targets) :
    targets.map entry = filters.entries.filter fun e => !isReserved e.1 := by
  obtain ⟨each, heach, rfl⟩ := exists_targets_of_ofFilters h
  clear h
  generalize filters.entries = entries at heach
  induction heach with
  | nil => rfl
  | @cons e target entries each htarget _ ih =>
    rcases ofEntry_cases htarget with ⟨hreserved, rfl⟩ | ⟨hreserved, field, -, rfl⟩
    · rw [List.filter_cons_of_neg (by simpa using hreserved)]
      exact ih
    · rw [List.filter_cons_of_pos (by simpa using hreserved)]
      exact congrArg (e :: ·) ih

theorem ofEntry_of_mem_ofFilters (h : ofFilters c filters = .ok targets) {t : FilterTarget}
    (ht : t ∈ targets) : ofEntry c t.path t.filter = .ok (some t) := by
  obtain ⟨each, heach, rfl⟩ := exists_targets_of_ofFilters h
  obtain ⟨target, htarget, hid⟩ := List.mem_filterMap.1 ht
  obtain ⟨e, -, hofEntry⟩ := Outcome.exists_of_mem_of_forall₂ heach htarget
  obtain rfl : target = some t := hid
  rcases ofEntry_cases hofEntry with ⟨-, hnone⟩ | ⟨-, field, -, hsome⟩
  · cases hnone
  · cases hsome
    exact hofEntry

theorem pairwise_path_of_ofFilters (h : ofFilters c filters = .ok targets) :
    targets.Pairwise fun t u => t.path < u.path := by
  have hentries : (targets.map entry).Pairwise fun a b => a.1 < b.1 := by
    rw [map_entry_of_ofFilters h]
    exact filters.ascending.filter _
  rwa [List.pairwise_map] at hentries

theorem eq_of_path_eq (h : ofFilters c filters = .ok targets) {t u : FilterTarget}
    (ht : t ∈ targets) (hu : u ∈ targets) (hpath : t.path = u.path) : t = u := by
  have hnodup : (targets.map (·.path)).Nodup := by
    rw [List.Nodup, List.pairwise_map]
    exact (pairwise_path_of_ofFilters h).imp ne_of_lt
  exact List.inj_on_of_nodup_map hnodup ht hu hpath

end FilterTarget

/-- What one group of stages is compiled from: the targets of some filters, each with its own result,
in ascending order of the bytes of their paths. -/
structure FilterContext.IsGroup (ctx : FilterContext) (filters : Filters) {α : Type}
    (compile : FilterTarget → Except FilterError α) (targets : List FilterTarget)
    (results : List α) : Prop where
  ofFilter : ∀ t ∈ targets, t.entry ∈ filters.entries ∧
    FilterTarget.ofEntry ctx.catalog t.path t.filter = .ok (some t)
  compiled : List.Forall₂ (fun t result => compile t = .ok result) targets results
  ascending : (targets.map (·.path)).Pairwise fun a b => utf8Bytes a < utf8Bytes b

namespace FilterContext

open FilterTarget (ofFilters IsUnknown isReserved)

variable {ctx : FilterContext} {filters : Filters} {targets : List FilterTarget} {α : Type}

theorem isGroup_filter (htargets : ofFilters ctx.catalog filters = .ok targets)
    {role : FilterTarget → Bool} {compile : FilterTarget → Except FilterError α} {results : List α}
    (hresults : (targets.filter role).mapM compile = .ok results) :
    ctx.IsGroup filters compile (targets.filter role) results where
  ofFilter t ht := by
    have hmem : t ∈ targets := (List.mem_filter.1 ht).1
    have hentry : t.entry ∈ filters.entries.filter fun e => !isReserved e.1 :=
      FilterTarget.map_entry_of_ofFilters htargets ▸ List.mem_map_of_mem hmem
    exact ⟨(List.mem_filter.1 hentry).1, FilterTarget.ofEntry_of_mem_ofFilters htargets hmem⟩
  compiled := Outcome.forall₂_of_mapM_eq_ok hresults
  ascending := by
    have hsorted := (FilterTarget.pairwise_path_of_ofFilters htargets).filter role
    rw [List.pairwise_map]
    exact hsorted.imp Text.utf8Bytes_lt_iff.2

theorem disjoint_path_filter (htargets : ofFilters ctx.catalog filters = .ok targets)
    {role other : FilterTarget → Bool} (hroles : ∀ t, role t → other t = false) :
    ((targets.filter role).map (·.path)).Disjoint ((targets.filter other).map (·.path)) := by
  intro path hrole hother
  obtain ⟨t, ht, rfl⟩ := List.mem_map.1 hrole
  obtain ⟨u, hu, hpath⟩ := List.mem_map.1 hother
  obtain ⟨ht, hrole⟩ := List.mem_filter.1 ht
  obtain ⟨hu, hother⟩ := List.mem_filter.1 hu
  obtain rfl := FilterTarget.eq_of_path_eq htargets ht hu hpath.symm
  simp [hroles t hrole] at hother

theorem mem_path_iff (htargets : ofFilters ctx.catalog filters = .ok targets) (path : String) :
    path ∈ targets.map (·.path) ↔ path ∈ filters.keys ∧ isReserved path = false := by
  have hpaths : targets.map (·.path) = (targets.map (·.entry)).map (·.1) := by
    rw [List.map_map]
    rfl
  rw [hpaths, FilterTarget.map_entry_of_ofFilters htargets, SortedMap.keys, List.mem_map,
    List.mem_map]
  constructor
  · rintro ⟨e, he, rfl⟩
    obtain ⟨he, hreserved⟩ := List.mem_filter.1 he
    exact ⟨⟨e, he, rfl⟩, by simpa using hreserved⟩
  · rintro ⟨⟨e, he, rfl⟩, hreserved⟩
    exact ⟨e, List.mem_filter.2 ⟨he, by simpa using hreserved⟩, rfl⟩

theorem mem_path_filter_roles_iff (path : String) :
    path ∈ targets.map (·.path) ↔
      path ∈ (targets.filter (·.matchesDocuments)).map (·.path) ∨
        path ∈ (targets.filter (·.prunesList)).map (·.path) ∨
        path ∈ (targets.filter (·.prunesLabels)).map (·.path) := by
  have htarget (t : FilterTarget) : t ∈ targets ↔ t ∈ targets.filter (·.matchesDocuments) ∨
      t ∈ targets.filter (·.prunesList) ∨ t ∈ targets.filter (·.prunesLabels) := by
    simp only [List.mem_filter]
    rcases t.role_cases with ⟨hrole, -, -⟩ | ⟨-, hrole, -⟩ | ⟨-, -, hrole⟩ <;> simp [hrole] <;> tauto
  simp only [List.mem_map, htarget, or_and_right, exists_or]

/-- The conditions of the match, the stages for lists and those for labels are compiled from three
groups of filters that have no path in common and together are all that are not reserved. A path
that is unknown is the error of the whole, the least one if there are several. -/
theorem stages_routes_each_path_once (ctx : FilterContext) (filters : Filters) :
    (∀ stages, ctx.stages filters = .ok stages →
      ∃ matching pruningLists pruningLabels conditions lists labels,
        stages = FilterPart.matched conditions ++ lists ++ labels ∧
        ctx.IsGroup filters (·.condition ctx.catalog) matching conditions ∧
        ctx.IsGroup filters (·.listStage ctx.catalog) pruningLists lists ∧
        ctx.IsGroup filters (·.labelStage ctx) pruningLabels labels ∧
        (∀ stage ∈ lists, stage.className = "SetField") ∧
        (∀ stage ∈ labels,
          stage.className = "FilterLabels" ∨ stage.className = "FilterKeypoints") ∧
        (matching.map (·.path)).Disjoint (pruningLists.map (·.path)) ∧
        (matching.map (·.path)).Disjoint (pruningLabels.map (·.path)) ∧
        (pruningLists.map (·.path)).Disjoint (pruningLabels.map (·.path)) ∧
        ∀ path, (path ∈ matching.map (·.path) ∨ path ∈ pruningLists.map (·.path) ∨
          path ∈ pruningLabels.map (·.path)) ↔ path ∈ filters.keys ∧ isReserved path = false) ∧
    ((∃ path ∈ filters.keys, IsUnknown ctx.catalog path) →
      ∃ path ∈ filters.keys, IsUnknown ctx.catalog path ∧
        (∀ other ∈ filters.keys, IsUnknown ctx.catalog other →
          other = path ∨ utf8Bytes path < utf8Bytes other) ∧
        ctx.stages filters = .error (.unknownField path)) := by
  constructor
  · intro stages h
    obtain ⟨targets, conditions, lists, labels, htargets, hconditions, hlists, hlabels, rfl⟩ :=
      exists_groups_of_stages_eq_ok h
    -- Every group is told by a role, and no target has two of them, so no path is in two groups.
    refine ⟨targets.filter (·.matchesDocuments), targets.filter (·.prunesList),
      targets.filter (·.prunesLabels), conditions, lists, labels, rfl,
      isGroup_filter htargets hconditions, isGroup_filter htargets hlists,
      isGroup_filter htargets hlabels, fun stage hstage => ?_, fun stage hstage => ?_,
      disjoint_path_filter htargets fun t ht => ?_, disjoint_path_filter htargets fun t ht => ?_,
      disjoint_path_filter htargets fun t ht => ?_, fun path => ?_⟩
    · obtain ⟨t, -, hstage⟩ := Outcome.exists_of_mem_of_mapM_eq_ok hlists hstage
      exact FilterTarget.className_listStage hstage
    · obtain ⟨t, -, hstage⟩ := Outcome.exists_of_mem_of_mapM_eq_ok hlabels hstage
      exact FilterTarget.className_labelStage hstage
    · rcases t.role_cases with ⟨-, hother, -⟩ | ⟨hrole, -, -⟩ | ⟨hrole, -, -⟩ <;> simp_all
    · rcases t.role_cases with ⟨-, -, hother⟩ | ⟨hrole, -, -⟩ | ⟨hrole, -, -⟩ <;> simp_all
    · rcases t.role_cases with ⟨-, hrole, -⟩ | ⟨-, -, hother⟩ | ⟨-, hrole, -⟩ <;> simp_all
    · rw [← mem_path_filter_roles_iff, mem_path_iff htargets]
  · intro hunknown
    obtain ⟨path, hpath, hpathUnknown, hleast, herror⟩ :=
      FilterTarget.mapM_ofEntry_of_isUnknown filters.ascending hunknown
    refine ⟨path, hpath, hpathUnknown, fun other hother hotherUnknown => ?_, ?_⟩
    · exact (hleast other hother hotherUnknown).imp_right Text.utf8Bytes_lt_iff.2
    · have htargets : ofFilters ctx.catalog filters = .error (.unknownField path) := by
        rw [ofFilters, herror]
        rfl
      rw [stages, matchStage?, htargets]
      rfl

def surveyed : FilterContext where
  catalog := ((Catalog.empty.insertAll
    [.ofPath "filepath" .string, .ofPath "crops" (.list .embedded),
      .ofPath "crops.name" .string]).insertLabel "gt" .detections []).insertLabel "pose" .keypoints []
  skeletons := .empty
  excludeDropsEmpty := false

def surveyFilters : Filters :=
  .ofList [("tags", .ofValues ["kept"]), ("gt.detections.label", .ofValues ["cat"]),
    ("pose.keypoints.confidence", { range := some (.ofInt 0, .ofInt 1) }),
    ("gt.detections.tags", { Filter.ofValues ["seen"] with isMatching := true }),
    ("filepath", .ofValues ["a.png"]), ("crops.name", .ofValues ["left"])]

def strayFilters : Filters :=
  .ofList [("zone", .ofValues ["a"]), ("owner", .ofValues ["b"]),
    ("filepath", { range := some (.ofInt 0, .ofInt 1) })]

theorem stages_routes_each_path_once_surveyed :
    (∃ stages matching pruningLists pruningLabels conditions lists labels,
      surveyed.stages surveyFilters = .ok stages ∧
      stages = FilterPart.matched conditions ++ lists ++ labels ∧
      surveyed.IsGroup surveyFilters (·.condition surveyed.catalog) matching conditions ∧
      surveyed.IsGroup surveyFilters (·.listStage surveyed.catalog) pruningLists lists ∧
      surveyed.IsGroup surveyFilters (·.labelStage surveyed) pruningLabels labels ∧
      ∀ path, (path ∈ matching.map (·.path) ∨ path ∈ pruningLists.map (·.path) ∨
        path ∈ pruningLabels.map (·.path)) ↔
          path ∈ surveyFilters.keys ∧ isReserved path = false) ∧
    ∃ path ∈ strayFilters.keys, IsUnknown surveyed.catalog path ∧
      (∀ other ∈ strayFilters.keys, IsUnknown surveyed.catalog other →
        other = path ∨ utf8Bytes path < utf8Bytes other) ∧
      surveyed.stages strayFilters = .error (.unknownField path) := by
  obtain ⟨stages, hstages⟩ : ∃ stages, surveyed.stages surveyFilters = .ok stages := ⟨_, rfl⟩
  have hunknown : ∃ path ∈ strayFilters.keys, IsUnknown surveyed.catalog path :=
    ⟨"zone", by decide +kernel, by decide +kernel, by decide +kernel⟩
  obtain ⟨matching, pruningLists, pruningLabels, conditions, lists, labels, heq, hmatching, hlists,
    hlabels, -, -, -, -, -, hpaths⟩ := (stages_routes_each_path_once _ _).1 stages hstages
  exact ⟨⟨stages, matching, pruningLists, pruningLabels, conditions, lists, labels, hstages, heq,
    hmatching, hlists, hlabels, hpaths⟩, (stages_routes_each_path_once _ _).2 hunknown⟩

end FilterContext
end MediaViews
