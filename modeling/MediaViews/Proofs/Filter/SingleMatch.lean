import MediaViews.Proofs.Executor.Rendering
import MediaViews.Proofs.Executor.Stages
import MediaViews.Proofs.Filter.Asking
import MediaViews.Proofs.Filter.Matching
import MediaViews.Proofs.Filter.Targets
import MediaViews.Proofs.Schema.StoragePath

/-! The match of documents for one filter on an attribute of list elements, and when it keeps the
documents of which an element satisfies the predicate. -/
namespace MediaViews

namespace Catalog

variable (c : Catalog)

def elementsOf (path : String) (d : Document) : List Value :=
  (Value.obj d).reached (Path.components (c.storagePath (Path.parent path)))

theorem storagePath_not_mem_connectives {path : String} {field : Field}
    (hnested : Path.isNested path) (hdot : path.toList.head? ≠ some '.')
    (hfield : c.get? path = some field) : c.storagePath path ∉ Query.connectives := by
  have hparts := c.components_storagePath_of_isNested hnested hdot hfield
  intro hmem
  have hflat : '.' ∉ (c.storagePath path).toList := by
    have hall : ∀ key ∈ Query.connectives, '.' ∉ key.toList := by decide
    exact hall _ hmem
  rw [Path.components_eq_singleton hflat] at hparts
  have hlength := congrArg List.length hparts
  have hleft := List.length_pos_iff.2
    (Path.components_ne_nil (c.storagePath (Path.parent path)))
  have hright := List.length_pos_iff.2 (Path.components_ne_nil field.storageName)
  rw [List.length_singleton, List.length_append] at hlength
  omega

end Catalog

namespace FilterContext

theorem matchStage?_single {ctx : FilterContext} {filters : Filters} {path : String} {f : Filter}
    {stage : Stage} (hfilters : filters.entries = [(path, f)])
    (h : ctx.matchStage? filters = .ok (some stage)) :
    ∃ field q, ctx.catalog.get? path = some field ∧
      Filter.condition (ctx.catalog.storagePath path) field.kind f = .ok q ∧
      stage = .matchQuery q := by
  obtain ⟨targets, htargets, h⟩ := Outcome.exists_of_bind_eq_ok h
  obtain ⟨conditions, hconditions, h⟩ := Outcome.exists_of_bind_eq_ok h
  obtain ⟨each, heach, rfl⟩ := FilterTarget.exists_targets_of_ofFilters htargets
  rw [hfilters] at heach
  obtain ⟨target, rest, htarget, hrest, rfl⟩ := List.forall₂_cons_left_iff.1 heach
  obtain rfl := List.forall₂_nil_left_iff.1 hrest
  -- Without a condition there is no stage, so the path is not reserved and its target matches.
  have hsome : conditions ≠ [] := by
    rintro rfl
    cases h
  rcases FilterTarget.ofEntry_cases htarget with ⟨-, rfl⟩ | ⟨-, field, hfield, rfl⟩
  · obtain rfl := Except.ok.inj hconditions
    exact absurd rfl hsome
  · cases hmatches : (FilterTarget.ofField ctx.catalog path field f).matchesDocuments with
    | false =>
      simp only [List.filterMap_cons, List.filterMap_nil, id_eq, List.filter_cons, hmatches,
        Bool.false_eq_true, if_false, List.filter_nil] at hconditions
      obtain rfl := Except.ok.inj hconditions
      exact absurd rfl hsome
    | true =>
      simp only [List.filterMap_cons, List.filterMap_nil, id_eq, List.filter_cons, hmatches,
        if_true, List.filter_nil] at hconditions
      obtain ⟨q, rest, hq, hrest, rfl⟩ :=
        List.forall₂_cons_left_iff.1 (Outcome.forall₂_of_mapM_eq_ok hconditions)
      obtain rfl := List.forall₂_nil_left_iff.1 hrest
      exact ⟨field, q, hfield, hq, (Option.some.inj (Except.ok.inj h)).symm⟩

end FilterContext

namespace Executor

variable (ex : Executor)

theorem apply_matchQuery_eq_self {q : Query} (hq : q.readable) (d : Document) :
    ex.apply (.matchQuery q) [d] = [d] ↔ ex.holds q d := by
  rw [Stage.matchQuery, apply, satisfies_toJson ex hq, List.filter_cons, List.filter_nil]
  cases ex.holds q d <;> simp

theorem eval_thisField {name : String} {element : Value} (d : Document)
    (h : element.Carries (Path.components name)) :
    ex.eval (.thisField name) (.ofThis d element) = element.held (Path.components name) :=
  Value.valueAt_of_not_crossesList h.1

end Executor

namespace Filter

variable (ex : Executor)

/-- Let every element carry the attribute, at a path that begins with a name. Then to keep the
document and to have an element that satisfies the predicate are the same exactly for the lists that
are decided by one of their values. -/
theorem match_iff_exists_element_iff_isDecidedByOne {ctx : FilterContext} {filters : Filters}
    {path : String} {f : Filter} {field : Field} {stage : Stage}
    (hfilters : filters.entries = [(path, f)]) (hfield : ctx.catalog.get? path = some field)
    (hkind : field.kind.isScalar) (hnested : Path.isNested path)
    (hdot : path.toList.head? ≠ some '.') (hinclude : f.exclude = false)
    (hbounds : f.BoundsAreNumbers) (hstage : ctx.matchStage? filters = .ok (some stage)) :
    ∃ demand e, Filter.demand path field.kind f = .ok demand ∧
      predicate path (.thisField field.storageName) f true field.kind = .ok e ∧
      ∀ d : Document,
        (∀ element ∈ ctx.catalog.elementsOf path d,
          element.Carries (Path.components field.storageName)) →
        ((ex.apply stage [d] = [d] ↔
            ∃ element ∈ ctx.catalog.elementsOf path d, (ex.eval e (.ofThis d element)).isTrue) ↔
          demand.IsDecidedByOne ex f ((ctx.catalog.elementsOf path d).map
            (Value.held (Path.components field.storageName)))) := by
  obtain ⟨field', q, hfield', hq, rfl⟩ := FilterContext.matchStage?_single hfilters hstage
  obtain rfl := Option.some.inj (hfield.symm.trans hfield')
  rw [condition, FieldKind.element?_of_isScalar hkind, Option.getD_none,
    leafCondition_eq_map] at hq
  obtain ⟨demand, hdemand, rfl⟩ := Outcome.exists_of_map_eq_ok hq
  have hpath := ctx.catalog.storagePath_not_mem_connectives hnested hdot hfield
  refine ⟨demand, demandPredicate (.thisField field.storageName) field.kind f true demand,
    demand_of_path hdemand path, ?_, fun d hcarries => ?_⟩
  · rw [predicate_eq_map path _ f true (FieldKind.isList_of_isScalar hkind),
      demand_of_path hdemand path]
    rfl
  -- The condition meets what the elements hold, and the predicate is asked of each of them.
  · have hmet : (Value.obj d).reached (Path.components (ctx.catalog.storagePath path)) =
        (ctx.catalog.elementsOf path d).map (Value.held (Path.components field.storageName)) := by
      rw [ctx.catalog.components_storagePath_of_isNested hnested hdot hfield,
        Value.reached_append (Path.components_ne_nil _)]
      exact Value.flatMap_reached hcarries
    have hexists : (∃ element ∈ ctx.catalog.elementsOf path d,
        (ex.eval (demandPredicate (.thisField field.storageName) field.kind f true demand)
          (.ofThis d element)).isTrue) ↔
        ((ctx.catalog.elementsOf path d).map (Value.held (Path.components field.storageName))).any
          (demand.admits ex f ·) := by
      rw [List.any_map, List.any_eq_true]
      refine exists_congr fun element => and_congr_right fun hmem => ?_
      rw [demandPredicate_of_including _ _ hinclude,
        eval_demandPredicate ex _ (FieldKind.ne_frameSupport_of_isScalar hkind),
        ex.eval_thisField d (hcarries element hmem)]
      rfl
    rw [hexists, ex.apply_matchQuery_eq_self (readable_demandCondition hpath f demand),
      holds_demandCondition, hmet,
      ← Demand.meets_eq_any_iff ex hkind hbounds hinclude hdemand]
    exact Bool.eq_iff_iff.symm

def confidencePath : String := "gt.detections.confidence"

def confidenceField : Field := .ofPath confidencePath .float

def midConfidence : Filter := { range := some (.ofInt 4, .ofInt 6), isMatching := true }

def midConfidenceFilters : Filters := SortedMap.empty.insert confidencePath midConfidence

def detectionsContext : FilterContext :=
  ⟨(∅ : Catalog).insertLabel "gt" .detections [], .empty, false⟩

def confident (value : Int) : Value := .obj [("confidence", .int value)]

def straddling : Document := [("gt", .obj [("detections", .arr [confident 1, confident 9])])]

def midConfidenceQuery : Query :=
  rangeCondition confidencePath (.float (.ofInt 4)) (.float (.ofInt 6)) midConfidence

theorem matchStage?_midConfidence :
    detectionsContext.matchStage? midConfidenceFilters =
      .ok (some (.matchQuery midConfidenceQuery)) := by decide +kernel

theorem get?_confidence : detectionsContext.catalog.get? confidencePath =
    some confidenceField := by decide +kernel

theorem elementsOf_straddling : detectionsContext.catalog.elementsOf confidencePath straddling =
    [confident 1, confident 9] := by
  have hpath : Path.components (detectionsContext.catalog.storagePath
      (Path.parent confidencePath)) = ["gt", "detections"] := by decide +kernel
  rw [Catalog.elementsOf, hpath]
  rfl

theorem carries_of_mem_straddling :
    ∀ element ∈ detectionsContext.catalog.elementsOf confidencePath straddling,
      element.Carries (Path.components confidenceField.storageName) := by
  have hname : Path.components confidenceField.storageName = ["confidence"] := by decide +kernel
  rw [elementsOf_straddling, hname]
  intro element hmem
  rcases List.mem_pair.1 hmem with rfl | rfl
  · exact ⟨rfl, .int 1, rfl, rfl⟩
  · exact ⟨rfl, .int 9, rfl, rfl⟩

theorem match_iff_exists_element_iff_isDecidedByOne_straddling :
    ∃ demand e, Filter.demand confidencePath .float midConfidence = .ok demand ∧
      predicate confidencePath (.thisField confidenceField.storageName)
        midConfidence true .float = .ok e ∧
      (((default : Executor).apply (.matchQuery midConfidenceQuery) [straddling] = [straddling] ↔
          ∃ element ∈ detectionsContext.catalog.elementsOf confidencePath straddling,
            ((default : Executor).eval e (.ofThis straddling element)).isTrue) ↔
        demand.IsDecidedByOne default midConfidence
          ((detectionsContext.catalog.elementsOf confidencePath straddling).map
            (Value.held (Path.components confidenceField.storageName)))) := by
  have hbounds : midConfidence.BoundsAreNumbers := by
    intro range hrange
    obtain rfl := Option.some.inj hrange
    exact ⟨nofun, nofun⟩
  obtain ⟨demand, e, hdemand, he, hiff⟩ := match_iff_exists_element_iff_isDecidedByOne default
    rfl get?_confidence rfl (by decide +kernel) (by decide +kernel) rfl hbounds
    matchStage?_midConfidence
  exact ⟨demand, e, hdemand, he, hiff straddling carries_of_mem_straddling⟩

/-- Neither detection is within the range, yet the document is kept. -/
theorem match_without_matching_element :
    ∃ stage e, detectionsContext.matchStage? midConfidenceFilters = .ok (some stage) ∧
      predicate confidencePath (.thisField confidenceField.storageName)
        midConfidence true .float = .ok e ∧
      (∀ element ∈ detectionsContext.catalog.elementsOf confidencePath straddling,
        element.Carries (Path.components confidenceField.storageName)) ∧
      (default : Executor).apply stage [straddling] = [straddling] ∧
      ¬∃ element ∈ detectionsContext.catalog.elementsOf confidencePath straddling,
        ((default : Executor).eval e (.ofThis straddling element)).isTrue := by
  have hkept : (default : Executor).holds midConfidenceQuery straddling := by decide +kernel
  let e := demandPredicate (.thisField confidenceField.storageName) .float midConfidence true
    (.range (.float (.ofInt 4)) (.float (.ofInt 6)))
  have hmissed : ∀ value ∈ [(1 : Int), 9],
      ((default : Executor).eval e (.ofThis straddling (confident value))).isTrue = false := by
    decide +kernel
  refine ⟨.matchQuery midConfidenceQuery, e, matchStage?_midConfidence, rfl,
    carries_of_mem_straddling, ?_, ?_⟩
  · exact (Executor.apply_matchQuery_eq_self default (by decide +kernel) straddling).2 hkept
  · rw [elementsOf_straddling]
    rintro ⟨element, hmem, htrue⟩
    rcases List.mem_pair.1 hmem with rfl | rfl
    · rw [hmissed 1 (by decide)] at htrue
      cases htrue
    · rw [hmissed 9 (by decide)] at htrue
      cases htrue

end Filter
end MediaViews
