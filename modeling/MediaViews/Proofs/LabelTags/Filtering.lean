import MediaViews.LabelTags.Filter
import MediaViews.Proofs.Filter.Asking
import MediaViews.Proofs.Filter.Judging

/-! The stages of filters on label tags: what their match asks of a document, and what their predicate
asks of a label. -/
namespace MediaViews

namespace Value

def holdsText (texts : List String) (v : Value) : Bool :=
  v.items.any fun item => texts.any fun text => item.same (.str text)

end Value

namespace LabelTags

variable {sources : List TagSource} {f : Filter} {stages : List Stage}

/-! The match of documents. -/

theorem tagsPath_not_mem_connectives (s : TagSource) : s.tagsPath ∉ Query.connectives := by
  have hdot : '.' ∈ s.tagsPath.toList := by
    rw [TagSource.tagsPath, TagSource.relativeTagsPath]
    cases s.level <;> cases s.listAttribute <;> simp
  have hflat : ∀ key ∈ Query.connectives, '.' ∉ key.toList := by decide
  exact fun h => hflat _ h hdot

theorem asksOnly_anyTagged (sources : List TagSource) (values : List String) :
    (anyTagged sources values).asksOnly (sources.map (·.tagsPath)) := by
  refine Query.asksOnly_anyOf fun q hq => ?_
  obtain ⟨s, hs, rfl⟩ := List.mem_map.1 hq
  have hmem : s.tagsPath ∈ sources.map (·.tagsPath) := List.mem_map.2 ⟨s, hs, rfl⟩
  simpa [Query.asksOnly] using hmem

def narrowing (sources : List TagSource) (values : List String) (exclude : Bool) : Query :=
  if exclude then (anyTagged sources values).not else anyTagged sources values

theorem asksOnly_narrowing (sources : List TagSource) (values : List String) (exclude : Bool) :
    (narrowing sources values exclude).asksOnly (sources.map (·.tagsPath)) := by
  unfold narrowing
  split
  · exact Query.asksOnly_not (asksOnly_anyTagged sources values)
  · exact asksOnly_anyTagged sources values

theorem satisfies_narrowing (ex : Executor) (sources : List TagSource) (values : List String)
    (exclude : Bool) (d : Document) :
    ex.satisfies (narrowing sources values exclude).toJson d =
      (ex.holds (anyTagged sources values) d != exclude) := by
  have hpaths : ∀ path ∈ sources.map (·.tagsPath), path ∉ Query.connectives := by
    intro path hpath
    obtain ⟨s, -, rfl⟩ := List.mem_map.1 hpath
    exact tagsPath_not_mem_connectives s
  rw [ex.satisfies_toJson
    (Query.readable_of_asksOnly hpaths (asksOnly_narrowing sources values exclude)), narrowing]
  cases exclude with
  | true => rw [if_pos rfl, ex.holds_not, Bool.bne_true]
  | false => rw [if_neg Bool.false_ne_true, Bool.bne_false]

theorem holds_anyTagged (ex : Executor) (sources : List TagSource) (values : List String)
    (d : Document) :
    ex.holds (anyTagged sources values) d =
      sources.any fun s =>
        Value.holdsText values (.arr ((Value.obj d).reached (Path.components s.tagsPath))) := by
  rw [anyTagged, ex.holds_anyOf, List.any_map]
  congr 1
  funext s
  rw [Value.holdsText, Demand.any_any_comm, Function.comp_apply, Executor.holds, Executor.passes,
    List.any_map]
  rfl

/-! The predicate on labels. -/

theorem presentLiterals_string (f : Filter) :
    f.presentLiterals .string = .ok (f.presentValues.map .str) := by
  rw [Filter.presentLiterals]
  induction f.presentValues with
  | nil => rfl
  | cons value values ih =>
    rw [List.mapM_cons, ih]
    rfl

theorem presentValues_ofValues (values : List String) :
    (Filter.ofValues values).presentValues = values := by
  simp [Filter.presentValues, Filter.ofValues, List.filterMap_map]

theorem exists_labelPredicate (values : List String) (exclude : Bool) :
    ∃ predicate, labelPredicate values exclude = .ok predicate ∧ predicate.readable ∧
      ∀ (ex : Executor) (σ : Scope), (ex.eval predicate σ).isTrue =
        ((ex.eval (.thisField "tags") σ).holdsText values != exclude) := by
  let filter : Filter := { Filter.ofValues values with exclude }
  have hdemand : Filter.demand field .string filter.including = .ok (.values (values.map .str)) := by
    show (Filter.presentLiterals .string filter.including).map Demand.values = _
    rw [presentLiterals_string]
    exact congrArg (fun values : List String => Except.ok (Demand.values (values.map .str)))
      (presentValues_ofValues values)
  let inner := Filter.demandPredicate .this .string filter.including false (.values (values.map .str))
  have hinner : Filter.predicate field .this filter.including false .string = .ok inner := by
    rw [Filter.predicate_eq_map field .this filter.including false rfl, hdemand]
    rfl
  have hpredicate : labelPredicate values exclude = .ok (if exclude
      then (Expr.size (.filter (Expr.thisField "tags").orEmpty inner)).eq (.ofInt 0)
      else (Expr.size (.filter (Expr.thisField "tags").orEmpty inner)).gt (.ofInt 0)) := by
    show (Filter.predicate field .this filter.including false .string >>= _) = _
    rw [hinner]
    rfl
  have hthis : (Expr.thisField "tags").readable := by decide
  refine ⟨_, hpredicate, Filter.readable_predicate hthis hpredicate, fun ex σ => ?_⟩
  have hmissing : filter.including.wantsMissing = false := by
    simp [Filter.wantsMissing, Filter.including, filter, Filter.ofValues]
  have hkeep : ∀ (σ : Scope) item, (ex.eval inner (σ.bind "this" item)).isTrue =
      values.any fun value => item.same (.str value) := by
    intro σ item
    have hitem : ex.eval .this (σ.bind "this" item) = item := rfl
    rw [Filter.eval_demandPredicate ex .this (by decide), hitem, Demand.admits, hmissing,
      Bool.false_and, Bool.or_false, List.any_map]
    exact Bool.false_bne _
  exact Filter.eval_listTest ex (.thisField "tags") inner _ hkeep exclude σ

/-! The stages. -/

def prunings (sources : List TagSource) (predicate : Expr) : List Stage :=
  sources.map fun s => .filterLabelsBy s.path predicate false

theorem filterStages_eq (hsources : sources ≠ []) (hvalues : f.values.isSome) :
    filterStages sources f =
      if f.isMatching then .ok [.matchQuery (narrowing sources f.presentValues f.exclude)]
      else (labelPredicate f.presentValues f.exclude).map fun predicate =>
        (if f.exclude then [] else [.matchQuery (narrowing sources f.presentValues false)]) ++
          prunings sources predicate := by
  have hnone : f.values.isNone = false := by rw [← Option.not_isSome, hvalues]; rfl
  have hempty : sources.isEmpty = false := by simpa using hsources
  rw [filterStages, hnone, hempty]
  cases f.isMatching <;> cases f.exclude <;> rfl

theorem filterStages_cases (h : filterStages sources f = .ok stages) :
    ∀ stage ∈ stages,
      (∃ q, stage = .matchQuery q ∧ q.asksOnly (sources.map (·.tagsPath))) ∨
      ∃ s ∈ sources, ∃ predicate, labelPredicate f.presentValues f.exclude = .ok predicate ∧
        stage = .filterLabelsBy s.path predicate false := by
  intro stage hstage
  by_cases hvalues : f.values.isSome
  · by_cases hsources : sources = []
    · -- Without a source the match is decided in advance.
      subst hsources
      have hnone : f.values.isNone = false := by rw [← Option.not_isSome, hvalues]; rfl
      rw [filterStages, hnone] at h
      obtain rfl := Except.ok.inj h
      split at hstage
      · cases hstage
      · exact .inl ⟨_, List.mem_singleton.1 hstage, rfl⟩
    · rw [filterStages_eq hsources hvalues] at h
      split at h
      · obtain rfl := Except.ok.inj h
        exact .inl ⟨_, List.mem_singleton.1 hstage, asksOnly_narrowing ..⟩
      · obtain ⟨predicate, hpredicate, rfl⟩ := Outcome.exists_of_map_eq_ok h
        rcases List.mem_append.1 hstage with hstage | hstage
        · split at hstage
          · cases hstage
          · exact .inl ⟨_, List.mem_singleton.1 hstage, asksOnly_narrowing ..⟩
        · obtain ⟨s, hs, rfl⟩ := List.mem_map.1 hstage
          exact .inr ⟨s, hs, predicate, hpredicate, rfl⟩
  · have hnone : f.values.isNone = true := by simpa using hvalues
    rw [filterStages, hnone] at h
    cases h

end LabelTags
end MediaViews
