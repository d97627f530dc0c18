import MediaViews.Proofs.Filter.Demand
import MediaViews.Proofs.Filter.Routing

/-! The paths that the errors of filters name. What prunes lists and labels is built for the path
that the client sent, and a condition on documents for the path that the field is stored under, so
an error of the match names a stored path. -/
namespace MediaViews

/-- The errors of what is built for a path: they name it, unless an identifier is malformed. -/
inductive FilterError.IsRaisedAt (path : String) : FilterError → Prop
  | unsupported (kind : FieldKind) (misfit : FilterMisfit) :
      IsRaisedAt path (.unsupported path kind misfit)
  | unsupportedPoints (kind : FieldKind) : IsRaisedAt path (.unsupportedPoints path kind)
  | invalidTimestamp (value : Double) : IsRaisedAt path (.invalidTimestamp path value)
  | invalidId (error : ObjectIdError) : IsRaisedAt path (.invalidId error)

theorem FilterError.IsRaisedAt.path?_eq {path : String} {e : FilterError} (h : e.IsRaisedAt path)
    (hid : ∀ error, e ≠ .invalidId error) : e.path? = some path := by
  cases h with
  | invalidId error => exact absurd rfl (hid error)
  | _ => rfl

theorem FilterError.IsRaisedAt.ne_missingSkeleton {path : String} {e : FilterError}
    (h : e.IsRaisedAt path) (owner : String) : e ≠ .missingSkeleton owner := by
  cases h <;> exact nofun

namespace Filter

variable {path : String} {kind : FieldKind} {f : Filter} {error : FilterError}

theorem isRaisedAt_of_boundLiteral {value : Double}
    (h : boundLiteral path kind value = .error error) : error.IsRaisedAt path := by
  unfold boundLiteral at h
  split at h
  · split at h
    · cases h
    · cases h
      exact .invalidTimestamp value
  · split at h <;> cases h

theorem isRaisedAt_of_boundLiterals {range : Double × Double}
    (h : boundLiterals path kind range = .error error) : error.IsRaisedAt path := by
  rcases Outcome.exists_of_bind_eq_error h with hmin | ⟨min, -, h⟩
  · exact isRaisedAt_of_boundLiteral hmin
  · rcases Outcome.exists_of_bind_eq_error h with hmax | ⟨max, -, h⟩
    · exact isRaisedAt_of_boundLiteral hmax
    · cases h

theorem isRaisedAt_of_presentLiterals (path : String)
    (h : f.presentLiterals kind = .error error) : error.IsRaisedAt path := by
  obtain ⟨value, -, hvalue⟩ := Outcome.exists_of_mapM_eq_error h
  unfold valueLiteral at hvalue
  split at hvalue
  · split at hvalue
    · cases hvalue
    · cases hvalue
      exact .invalidId _
  · cases hvalue

theorem isRaisedAt_of_numericDemand (h : numericDemand path kind f = .error error) :
    error.IsRaisedAt path := by
  unfold numericDemand at h
  split at h
  · exact isRaisedAt_of_boundLiterals (Outcome.eq_error_of_map_eq_error h)
  · split at h
    · cases h
    · cases h
      exact .unsupported kind .rangeNeeded

theorem isRaisedAt_of_valueDemand (h : valueDemand path kind f = .error error) :
    error.IsRaisedAt path := by
  unfold valueDemand at h
  split at h
  · exact isRaisedAt_of_presentLiterals path (Outcome.eq_error_of_map_eq_error h)
  · cases h
  · cases h
    exact .unsupported _ .valuesNeeded

theorem isRaisedAt_of_demand (h : demand path kind f = .error error) : error.IsRaisedAt path := by
  cases kind with
  | int | float | date | dateTime | frameSupport => exact isRaisedAt_of_numericDemand h
  | string | objectId => exact isRaisedAt_of_valueDemand h
  | bool => cases h
  | dict | embedded | label _ | list _ =>
    cases h
    exact .unsupported _ .notFilterable

theorem isRaisedAt_of_condition (h : condition path kind f = .error error) :
    error.IsRaisedAt path := by
  rw [condition, leafCondition_eq_map] at h
  exact isRaisedAt_of_demand (Outcome.eq_error_of_map_eq_error h)

theorem isRaisedAt_of_predicate {e : Expr} {isMatching : Bool}
    (h : predicate path e f isMatching kind = .error error) : error.IsRaisedAt path := by
  induction kind generalizing e f with
  | list element ih =>
    rw [predicate] at h
    rcases Outcome.exists_of_bind_eq_error h with hinner | ⟨inner, -, h⟩
    · exact ih hinner
    · cases h
  | _ =>
    rw [predicate_eq_map path e f isMatching rfl] at h
    exact isRaisedAt_of_demand (Outcome.eq_error_of_map_eq_error h)

theorem isRaisedAt_of_pointPredicate {e : Expr}
    (h : pointPredicate path e kind f = .error error) : error.IsRaisedAt path := by
  cases kind with
  | bool => cases h
  | float | int =>
    unfold pointPredicate at h
    cases hrange : f.range with
    | none =>
      rw [hrange] at h
      cases h
      exact .unsupported _ .pointRangeNeeded
    | some range =>
      rw [hrange] at h
      rcases Outcome.exists_of_bind_eq_error h with hbounds | ⟨bounds, -, h⟩
      · exact isRaisedAt_of_boundLiterals hbounds
      · cases h
  | _ =>
    cases h
    exact .unsupportedPoints _

theorem keypointStage_error_cases {labelPath : String} {field : Field} {skeletons : Skeletons}
    (h : keypointStage labelPath field f skeletons = .error error) :
    error = .missingSkeleton labelPath ∨ error.IsRaisedAt field.path := by
  rw [keypointStage] at h
  split at h
  · split at h
    · cases h
    · exact .inl (Except.error.inj h).symm
  · rcases Outcome.exists_of_bind_eq_error h with hpredicate | ⟨predicate, -, h⟩
    · exact .inr (isRaisedAt_of_pointPredicate hpredicate)
    · cases h

end Filter

namespace Catalog

variable {c : Catalog} {path : String}

def IsLabelField (c : Catalog) (path : String) : Prop :=
  ∃ field kind, c.get? path = some field ∧ field.kind = .label kind

theorem isLabelField_of_ownerAt {ownerPath : String} {kind : LabelKind}
    (h : c.ownerAt path ownerPath = .label kind) : c.IsLabelField ownerPath := by
  rw [ownerAt] at h
  split at h
  · cases h
  · split at h
    · cases h
    · next field hfield =>
      split at h
      · next kind' hkind => exact ⟨field, kind', hfield, hkind⟩
      · split at h <;> cases h

end Catalog

namespace FilterTarget

variable {c : Catalog} {ctx : FilterContext} {path : String} {f : Filter} {t : FilterTarget}
  {e : FilterError}

theorem eq_ofField_of_ofEntry (h : ofEntry c path f = .ok (some t)) :
    ∃ field, c.get? path = some field ∧ t = ofField c path field f := by
  rcases ofEntry_cases h with ⟨-, hnone⟩ | ⟨-, field, hfield, hsome⟩
  · cases hnone
  · exact ⟨field, hfield, Option.some.inj hsome⟩

theorem isRaisedAt_of_listStage (h : t.listStage c = .error e) : e.IsRaisedAt t.path := by
  rcases Outcome.exists_of_bind_eq_error h with hpredicate | ⟨predicate, -, h⟩
  · exact Filter.isRaisedAt_of_predicate hpredicate
  · cases h

theorem labelStage_error_cases (hfield : t.field.path = t.path) (h : t.labelStage ctx = .error e) :
    (t.prunesPoints ∧ e = .missingSkeleton t.ownerPath) ∨ e.IsRaisedAt t.path := by
  rw [labelStage] at h
  split at h
  · next hpoints =>
    rw [← hfield]
    exact (Filter.keypointStage_error_cases h).imp_left fun h => ⟨hpoints, h⟩
  · rcases Outcome.exists_of_bind_eq_error h with hpredicate | ⟨predicate, -, h⟩
    · exact .inr (Filter.isRaisedAt_of_predicate hpredicate)
    · cases h

theorem exists_label_of_prunesPoints (h : t.prunesPoints) : ∃ kind, t.owner = .label kind := by
  rw [prunesPoints, isPointAttribute, labelKind?] at h
  cases howner : t.owner with
  | label kind => exact ⟨kind, rfl⟩
  | embeddedList | other =>
    rw [howner] at h
    cases h

end FilterTarget

namespace FilterContext

open FilterTarget (IsUnknown ofFilters ofEntry)

/-- What an error about the filters tells the client: a path that it sent, or the label field of
one. -/
def NamesSent (ctx : FilterContext) (filters : Filters) (e : FilterError) : Prop :=
  ∃ key ∈ filters.keys, e.path? = some key ∨
    (e = .missingSkeleton (ctx.catalog.ownerPath key) ∧
      ctx.catalog.IsLabelField (ctx.catalog.ownerPath key))

def RefusesCondition (ctx : FilterContext) (filters : Filters) (path : String) (e : FilterError) :
    Prop :=
  ∃ f t, (path, f) ∈ filters.entries ∧ ofEntry ctx.catalog path f = .ok (some t) ∧
    t.matchesDocuments ∧ t.condition ctx.catalog = .error e

variable {ctx : FilterContext} {filters : Filters} {e : FilterError}

theorem error_of_ofFilters (h : ofFilters ctx.catalog filters = .error e) :
    ∃ path ∈ filters.keys, e = .unknownField path := by
  rcases Outcome.exists_of_bind_eq_error h with h | ⟨targets, -, h⟩
  · obtain ⟨entry, hentry, hunknown⟩ := Outcome.exists_of_mapM_eq_error h
    refine ⟨entry.1, List.mem_map_of_mem hentry, ?_⟩
    rw [ofEntry] at hunknown
    split at hunknown
    · cases hunknown
    · split at hunknown
      · exact (Except.error.inj hunknown).symm
      · cases hunknown
  · cases h

theorem exists_of_group_eq_error {α : Type} {targets : List FilterTarget}
    {role : FilterTarget → Bool} {compile : FilterTarget → Except FilterError α}
    (h : (targets.filter role).mapM compile = .error e) :
    ∃ t ∈ targets, role t ∧ compile t = .error e := by
  obtain ⟨t, ht, herror⟩ := Outcome.exists_of_mapM_eq_error h
  obtain ⟨ht, hrole⟩ := List.mem_filter.1 ht
  exact ⟨t, ht, hrole, herror⟩

section Groups

variable {targets : List FilterTarget} (htargets : ofFilters ctx.catalog filters = .ok targets)

include htargets

theorem matchStage?_of_targets : ctx.matchStage? filters =
    ((targets.filter FilterTarget.matchesDocuments).mapM
      (FilterTarget.condition ctx.catalog)).map fun conditions =>
        if conditions.isEmpty then none else some (.matchQuery (.allOf conditions)) := by
  rw [matchStage?, htargets]
  rfl

theorem listStages_of_targets : ctx.listStages filters =
    (targets.filter (·.prunesList)).mapM (·.listStage ctx.catalog) := by
  rw [listStages, htargets]
  rfl

theorem labelStages_of_targets : ctx.labelStages filters =
    (targets.filter (·.prunesLabels)).mapM (·.labelStage ctx) := by
  rw [labelStages, htargets]
  rfl

end Groups

theorem stages_error_cases (h : ctx.stages filters = .error e) :
    (∃ path ∈ filters.keys, e = .unknownField path) ∨
      ∃ targets, ofFilters ctx.catalog filters = .ok targets ∧
        ((∃ t ∈ targets, t.matchesDocuments ∧ t.condition ctx.catalog = .error e) ∨
          (∃ t ∈ targets, t.prunesList ∧ t.listStage ctx.catalog = .error e) ∨
            ∃ t ∈ targets, t.prunesLabels ∧ t.labelStage ctx = .error e) := by
  cases htargets : ofFilters ctx.catalog filters with
  | error e' =>
    rw [stages, matchStage?, htargets] at h
    cases h
    exact .inl (error_of_ofFilters htargets)
  | ok targets =>
    refine .inr ⟨targets, rfl, ?_⟩
    rw [stages, matchStage?_of_targets htargets, listStages_of_targets htargets,
      labelStages_of_targets htargets] at h
    rcases Outcome.exists_of_bind_eq_error h with hmatch | ⟨matched, -, h⟩
    · exact .inl (exists_of_group_eq_error (Outcome.eq_error_of_map_eq_error hmatch))
    · rcases Outcome.exists_of_bind_eq_error h with hlists | ⟨lists, -, h⟩
      · exact .inr (.inl (exists_of_group_eq_error hlists))
      · rcases Outcome.exists_of_bind_eq_error h with hlabels | ⟨labels, -, h⟩
        · exact .inr (.inr (exists_of_group_eq_error hlabels))
        · cases h

theorem entry_mem_of_target {targets : List FilterTarget}
    (htargets : ofFilters ctx.catalog filters = .ok targets) {t : FilterTarget} (ht : t ∈ targets) :
    (t.path, t.filter) ∈ filters.entries := by
  have hentry : t.entry ∈ targets.map FilterTarget.entry := List.mem_map_of_mem ht
  rw [FilterTarget.map_entry_of_ofFilters htargets] at hentry
  exact (List.mem_filter.1 hentry).1

theorem RefusesCondition.isRaisedAt {path : String} (h : ctx.RefusesCondition filters path e) :
    e.IsRaisedAt (ctx.catalog.storagePath path) := by
  obtain ⟨f, t, -, htarget, -, hcondition⟩ := h
  obtain ⟨field, -, rfl⟩ := FilterTarget.eq_ofField_of_ofEntry htarget
  exact Filter.isRaisedAt_of_condition hcondition

theorem namesSent_of_labelStage {path : String} {f : Filter} {t : FilterTarget}
    (htarget : ofEntry ctx.catalog path f = .ok (some t)) (hpath : path ∈ filters.keys)
    (h : t.labelStage ctx = .error e) (hid : ∀ error, e ≠ .invalidId error) :
    ctx.NamesSent filters e := by
  obtain ⟨field, hfield, rfl⟩ := FilterTarget.eq_ofField_of_ofEntry htarget
  rcases FilterTarget.labelStage_error_cases (Catalog.path_of_get? hfield) h with
    ⟨hpoints, rfl⟩ | hraised
  · obtain ⟨kind, hkind⟩ := FilterTarget.exists_label_of_prunesPoints hpoints
    exact ⟨path, hpath, .inr ⟨rfl, Catalog.isLabelField_of_ownerAt hkind⟩⟩
  · exact ⟨path, hpath, .inl (hraised.path?_eq hid)⟩

/-- The error of any filters but a malformed identifier names what the client sent, unless a
condition on documents is refused whose field is stored under a path that was not sent. -/
theorem namesSent_iff_of_stages_eq_error (h : ctx.stages filters = .error e)
    (hid : ∀ error, e ≠ .invalidId error) :
    (∀ path, ctx.RefusesCondition filters path e →
      e.path? = some (ctx.catalog.storagePath path)) ∧
      (ctx.NamesSent filters e ↔ ∀ path, ctx.RefusesCondition filters path e →
        ctx.catalog.storagePath path ∈ filters.keys) := by
  have hstored : ∀ path, ctx.RefusesCondition filters path e →
      e.path? = some (ctx.catalog.storagePath path) := fun path h => h.isRaisedAt.path?_eq hid
  refine ⟨hstored, fun hnames path hrefused => ?_, fun hsent => ?_⟩
  · obtain ⟨key, hkey, hpath | ⟨hmissing, -⟩⟩ := hnames
    · rw [hstored path hrefused] at hpath
      exact Option.some.inj hpath ▸ hkey
    · exact absurd hmissing (hrefused.isRaisedAt.ne_missingSkeleton _)
  · rcases stages_error_cases h with ⟨path, hpath, rfl⟩ | ⟨targets, htargets, hrefused⟩
    · exact ⟨path, hpath, .inl rfl⟩
    · have hentry := fun t (ht : t ∈ targets) => entry_mem_of_target htargets ht
      have htarget := fun t (ht : t ∈ targets) => FilterTarget.ofEntry_of_mem_ofFilters htargets ht
      rcases hrefused with
        ⟨t, ht, hmatches, hcondition⟩ | ⟨t, ht, -, hlist⟩ | ⟨t, ht, -, hlabel⟩
      · have hrefuses : ctx.RefusesCondition filters t.path e :=
          ⟨t.filter, t, hentry t ht, htarget t ht, hmatches, hcondition⟩
        exact ⟨_, hsent t.path hrefuses, .inl (hstored t.path hrefuses)⟩
      · have hraised := FilterTarget.isRaisedAt_of_listStage hlist
        exact ⟨t.path, List.mem_map_of_mem (hentry t ht), .inl (hraised.path?_eq hid)⟩
      · exact namesSent_of_labelStage (htarget t ht) (List.mem_map_of_mem (hentry t ht)) hlabel hid

def identified : FilterContext where
  catalog := Catalog.empty.insertAll [.ofPath "id" .objectId]
  skeletons := .empty
  excludeDropsEmpty := false

def identifierRange : Filters := .ofList [("id", { range := some (.zero false, .ofInt 1) })]

theorem namesSent_iff_of_stages_eq_error_identified :
    identified.stages identifierRange = .error (.unsupported "_id" .objectId .valuesNeeded) ∧
      (identified.NamesSent identifierRange (.unsupported "_id" .objectId .valuesNeeded) ↔
        ∀ path, identified.RefusesCondition identifierRange path
          (.unsupported "_id" .objectId .valuesNeeded) →
            identified.catalog.storagePath path ∈ identifierRange.keys) := by
  have hstages : identified.stages identifierRange =
      .error (.unsupported "_id" .objectId .valuesNeeded) := by decide +kernel
  exact ⟨hstages, (namesSent_iff_of_stages_eq_error hstages nofun).2⟩

/-- A range does not suit an identifier, and the client reads of a path that it did not send. -/
theorem not_namesSent_of_identifierRange :
    ∃ ctx filters e, FilterContext.stages ctx filters = .error e ∧
      (∀ error, e ≠ .invalidId error) ∧ ¬ctx.NamesSent filters e := by
  refine ⟨identified, identifierRange, .unsupported "_id" .objectId .valuesNeeded, ?_, nofun, ?_⟩
  · decide +kernel
  · rintro ⟨key, hkey, hpath | ⟨hmissing, -⟩⟩
    · obtain rfl : "_id" = key := Option.some.inj hpath
      exact absurd hkey (by decide +kernel)
    · cases hmissing

end FilterContext
end MediaViews
