import MediaViews.Filter.Stages
import MediaViews.Proofs.Outcome
import MediaViews.Proofs.Schema.Catalog

/-! The targets of filters, one for each filter that is not reserved, and the stages that they are
compiled to. -/
namespace MediaViews

namespace Catalog

theorem exists_list_of_ownerAt {c : Catalog} {path ownerPath : String}
    (h : c.ownerAt path ownerPath = .embeddedList) :
    ∃ field ∈ c.all, field.path = ownerPath ∧ field.kind.isEmbeddedList := by
  rw [ownerAt] at h
  split at h
  · cases h
  · split at h
    · cases h
    · next field hfield =>
      obtain ⟨hmem, hpath⟩ := get?_eq_some_iff.1 hfield
      refine ⟨field, hmem, hpath, ?_⟩
      split at h
      · cases h
      · split at h
        · next hlist => exact hlist
        · cases h

end Catalog

namespace FilterTarget

def ofField (c : Catalog) (path : String) (field : Field) (filter : Filter) : FilterTarget :=
  ⟨path, field, c.ownerPath path, c.ownerAt path (c.ownerPath path), filter⟩

theorem ofEntry_cases {c : Catalog} {path : String} {f : Filter} {target : Option FilterTarget}
    (h : ofEntry c path f = .ok target) :
    (isReserved path ∧ target = none) ∨
      (isReserved path = false ∧
        ∃ field, c.get? path = some field ∧ target = some (ofField c path field f)) := by
  rw [ofEntry] at h
  split at h
  · next hreserved => exact .inl ⟨hreserved, (Except.ok.inj h).symm⟩
  · next hreserved =>
    split at h
    · cases h
    · next field hfield =>
      exact .inr ⟨by simpa using hreserved, field, hfield, (Except.ok.inj h).symm⟩

theorem exists_targets_of_ofFilters {c : Catalog} {filters : Filters}
    {targets : List FilterTarget} (h : ofFilters c filters = .ok targets) :
    ∃ each, List.Forall₂ (fun e target => ofEntry c e.1 e.2 = .ok target) filters.entries each ∧
      targets = each.filterMap id := by
  obtain ⟨each, heach, h⟩ := Outcome.exists_of_bind_eq_ok h
  exact ⟨each, Outcome.forall₂_of_mapM_eq_ok heach, (Except.ok.inj h).symm⟩

theorem role_cases (t : FilterTarget) :
    (t.matchesDocuments ∧ t.prunesList = false ∧ t.prunesLabels = false) ∨
      (t.matchesDocuments = false ∧ t.prunesList ∧ t.prunesLabels = false) ∨
      (t.matchesDocuments = false ∧ t.prunesList = false ∧ t.prunesLabels) := by
  rw [matchesDocuments, prunesList, prunesLabels, isLabelAttribute, labelKind?]
  cases t.owner with
  | other => exact .inl ⟨rfl, rfl, rfl⟩
  | embeddedList =>
    cases t.filter.isMatching
    · exact .inr (.inl ⟨rfl, rfl, rfl⟩)
    · exact .inl ⟨rfl, rfl, rfl⟩
  | label kind =>
    cases t.filter.isMatching <;> cases t.prunesPoints
    · exact .inr (.inr ⟨rfl, rfl, rfl⟩)
    · exact .inr (.inr ⟨rfl, rfl, rfl⟩)
    · exact .inl ⟨rfl, rfl, rfl⟩
    · exact .inr (.inr ⟨rfl, rfl, rfl⟩)

variable {c : Catalog} {ctx : FilterContext} {t : FilterTarget} {stage : Stage}

theorem exists_of_listStage_eq_ok (h : t.listStage c = .ok stage) :
    ∃ predicate, t.elementPredicate = .ok predicate ∧
      stage = .set t.ownerPath (.filter (Expr.field (c.storagePath t.ownerPath)).orEmpty predicate) := by
  obtain ⟨predicate, hpredicate, h⟩ := Outcome.exists_of_bind_eq_ok h
  exact ⟨predicate, hpredicate, (Except.ok.inj h).symm⟩

theorem keypointStage_cases {labelPath : String} {field : Field} {f : Filter} {skeletons : Skeletons}
    (h : Filter.keypointStage labelPath field f skeletons = .ok stage) :
    (∃ names, stage = .keepPointsNamed labelPath names) ∨
      ∃ kind predicate, Filter.pointPredicate field.path (.thisField field.storageName) kind f =
        .ok predicate ∧ stage = .keepPointsWhere labelPath predicate := by
  rw [Filter.keypointStage] at h
  split at h
  · split at h
    · exact .inl ⟨_, (Except.ok.inj h).symm⟩
    · cases h
  · obtain ⟨predicate, hpredicate, h⟩ := Outcome.exists_of_bind_eq_ok h
    exact .inr ⟨_, predicate, hpredicate, (Except.ok.inj h).symm⟩

theorem labelStage_cases (h : t.labelStage ctx = .ok stage) :
    (t.prunesPoints ∧
      Filter.keypointStage t.ownerPath t.field t.filter ctx.skeletons = .ok stage) ∨
    (t.prunesPoints = false ∧ ∃ predicate, t.elementPredicate = .ok predicate ∧
      stage = .filterLabelsBy t.ownerPath predicate (!t.filter.exclude || ctx.excludeDropsEmpty)) := by
  rw [labelStage] at h
  split at h
  · next hpoints => exact .inl ⟨hpoints, h⟩
  · next hpoints =>
    obtain ⟨predicate, hpredicate, h⟩ := Outcome.exists_of_bind_eq_ok h
    exact .inr ⟨by simpa using hpoints, predicate, hpredicate, (Except.ok.inj h).symm⟩

theorem className_listStage (h : t.listStage c = .ok stage) : stage.className = "SetField" := by
  obtain ⟨predicate, -, rfl⟩ := exists_of_listStage_eq_ok h
  rfl

theorem className_labelStage (h : t.labelStage ctx = .ok stage) :
    stage.className = "FilterLabels" ∨ stage.className = "FilterKeypoints" := by
  rcases labelStage_cases h with ⟨-, h⟩ | ⟨-, predicate, -, rfl⟩
  · rcases keypointStage_cases h with ⟨names, rfl⟩ | ⟨kind, predicate, -, rfl⟩
    · exact .inr rfl
    · exact .inr rfl
  · exact .inl rfl

end FilterTarget
end MediaViews
