import MediaViews.Proofs.Executor.Labels
import MediaViews.Proofs.Executor.Steps
import MediaViews.Proofs.LabelTags.Counting
import MediaViews.Proofs.LabelTags.Filtering

/-! What filters on label tags leave of a document. The match asks the document for tags along the
paths of all sources, the predicate asks each label for its own, and both decide alike. -/
namespace MediaViews

open Value (Apart sites pruneLabels)

namespace Value

def carries (values : List String) (label : Value) : Bool := label.tags.any values.contains

theorem any_same_str (texts : List String) (v : Value) :
    (texts.any fun text => v.same (.str text)) = v.string?.any texts.contains := by
  cases v with
  | str text =>
    rw [string?, Option.any_some, List.contains_eq_any_beq]
    simp only [same_str]
  | _ => exact List.any_eq_false.2 fun _ _ => Bool.false_ne_true

theorem holdsText_tagsField (values : List String) (label : Value) :
    label.tagsField.holdsText values = label.carries values := by
  rw [holdsText, carries, tags, List.any_filterMap]
  refine congrArg _ (funext fun item => ?_)
  rw [any_same_str]
  cases item.string? <;> rfl

def isTaggable (label : Value) : Bool :=
  !label.isList && (label.tagsField.isNull || label.tagsField.isList)

theorem holdsText_reached_tags {label : Value} (h : label.isTaggable) (values : List String) :
    (Value.arr (label.reached ["tags"])).holdsText values = label.carries values := by
  rw [← holdsText_tagsField]
  rw [isTaggable, Bool.and_eq_true] at h
  obtain ⟨hlist, htags⟩ := h
  cases label with
  | obj d =>
    rw [tagsField, get?] at htags ⊢
    rw [reached_obj]
    cases htag : d.lookup "tags" with
    | none => rfl
    | some v =>
      rw [htag] at htags
      cases v with
      | null =>
        have hnull : (values.any fun text => Value.null.same (.str text)) = false := by
          rw [any_same_str]
          rfl
        simp [reached, holdsText, items, hnull]
      | arr items => rfl
      | _ => cases htags
  | arr items => cases hlist
  | _ => rfl

theorem holdsText_flatMap (values : List String) (vs : List Value) (f : Value → List Value) :
    (Value.arr (vs.flatMap f)).holdsText values =
      vs.any fun v => (Value.arr (f v)).holdsText values := List.any_flatMap

def answers (values : List String) (exclude : Bool) (label : Value) : Bool :=
  (label.valueAt ["tags"]).holdsText values != exclude

theorem answers_eq {label : Value} (h : label.isTaggable) (values : List String) (exclude : Bool) :
    label.answers values exclude = (label.carries values != exclude) := by
  rw [isTaggable, Bool.and_eq_true, Bool.not_eq_true'] at h
  rw [answers, valueAt_tags h.1, holdsText_tagsField]

end Value

namespace TagSource

variable {s : TagSource} {test : Value → Bool} {v : Value}

def storedPath (s : TagSource) : String :=
  match s.level with
  | .sample => s.storagePath
  | .frame => Path.framesStem ++ s.storagePath

def fieldsIn (s : TagSource) (d : Document) : List Value :=
  (Value.obj d).sites (Path.components s.path)

def labelsOf (s : TagSource) (v : Value) : List Value :=
  match s.listAttribute with
  | some listName => ((v.get? listName).getD .null).items
  | none => if v.isNull then [] else [v]

def labels (s : TagSource) (d : Document) : List Value := (s.fieldsIn d).flatMap s.labelsOf

def tagNames (s : TagSource) : List String := s.listAttribute.toList ++ ["tags"]

/-- A value of the field holds its labels where the source has them, and no others. Anything may be
null or missing. -/
structure Holds (s : TagSource) (v : Value) : Prop where
  single : v.isList = false
  list : ∀ listName ∈ s.listAttribute,
    ((v.get? listName).getD .null).isNull || ((v.get? listName).getD .null).isList
  lists : ∀ name ∈ Value.labelLists, (v.get? name).any Value.isList → s.listAttribute = some name
  labels : ∀ label ∈ s.labelsOf v, label.isTaggable

structure IsPlain (s : TagSource) : Prop where
  path : s.path = s.storedPath
  list : ∃ kind : LabelKind, s.listAttribute = kind.listAttribute?

instance (s : TagSource) (v : Value) : Decidable (s.Holds v) :=
  decidable_of_iff
    (v.isList = false ∧
      (∀ listName ∈ s.listAttribute,
        ((v.get? listName).getD .null).isNull || ((v.get? listName).getD .null).isList) ∧
      (∀ name ∈ Value.labelLists, (v.get? name).any Value.isList → s.listAttribute = some name) ∧
      ∀ label ∈ s.labelsOf v, label.isTaggable)
    ⟨fun ⟨single, list, lists, labels⟩ => ⟨single, list, lists, labels⟩,
      fun h => ⟨h.single, h.list, h.lists, h.labels⟩⟩

theorem IsPlain.mem_labelLists (h : s.IsPlain) {listName : String}
    (hlist : s.listAttribute = some listName) : listName ∈ Value.labelLists := by
  obtain ⟨kind, hkind⟩ := h.list
  have hall : ∀ kind ∈ LabelKind.all, ∀ name ∈ kind.listAttribute?, name ∈ Value.labelLists := by
    decide
  have hmem : kind ∈ LabelKind.all := by cases kind <;> decide
  exact hall kind hmem listName (hkind ▸ hlist)

theorem IsPlain.components_tagsPath (h : s.IsPlain) :
    Path.components s.tagsPath = Path.components s.path ++ s.tagNames := by
  have htags : Path.components "tags" = ["tags"] := Path.components_eq_singleton (by decide)
  have hlist : ∀ listName ∈ s.listAttribute, Path.components listName = [listName] := by
    intro listName hlist
    have hflat : ∀ name ∈ Value.labelLists, '.' ∉ name.toList := by decide
    exact Path.components_eq_singleton (hflat listName (h.mem_labelLists hlist))
  rw [tagNames]
  cases hattribute : s.listAttribute with
  | none =>
    have hpath : s.tagsPath = s.path ++ "." ++ "tags" := by
      rw [tagsPath, relativeTagsPath, hattribute, h.path, storedPath]
      cases s.level <;> simp [String.append_assoc]
    rw [hpath, Path.components_child, htags]
    rfl
  | some listName =>
    have hpath : s.tagsPath = s.path ++ "." ++ listName ++ "." ++ "tags" := by
      rw [tagsPath, relativeTagsPath, hattribute, h.path, storedPath]
      cases s.level <;> simp [String.append_assoc]
    rw [hpath, Path.components_child, Path.components_child, htags, hlist listName hattribute,
      List.append_assoc]
    rfl

theorem reached_tagNames (h : s.Holds v) :
    v.reached s.tagNames = (s.labelsOf v).flatMap (·.reached ["tags"]) := by
  have hlist := h.list
  rw [tagNames, labelsOf]
  cases hattribute : s.listAttribute with
  | none =>
    cases hnull : v.isNull with
    | true =>
      obtain rfl := Value.eq_null_of_isNull hnull
      rfl
    | false => exact (List.flatMap_singleton _ _).symm
  | some listName =>
    have hitems := hlist listName hattribute
    have hsingle := h.single
    cases v with
    | obj d =>
      simp only [Value.get?, Option.toList_some, List.singleton_append, Value.reached_obj] at hitems ⊢
      cases hfield : d.lookup listName with
      | none => rfl
      | some w =>
        rw [hfield] at hitems
        cases w with
        | null => rfl
        | arr items => exact Value.reachedItems_eq_flatMap items _
        | _ => cases hitems
    | arr items => cases hsingle
    | _ => rfl

theorem labelsOf_pruneLabels (hplain : s.IsPlain) (h : s.Holds v) :
    s.labelsOf (pruneLabels test v).1 = (s.labelsOf v).filter test := by
  rcases Value.pruneLabels_cases test v with ⟨d, name, items, rfl, hlist, hitems, hpruned⟩ |
    ⟨hnull, hpruned⟩ | ⟨hnull, -, hlists, hpruned⟩
  · have hany : ((Value.obj d).get? name).any Value.isList := by
      rw [Value.get?, hitems]
      rfl
    have hattribute := h.lists name (Value.mem_labelLists_of_labelList? hlist) hany
    rw [hpruned, labelsOf, labelsOf, hattribute]
    simp only [Value.get?, Document.lookup_set_self, hitems, Option.getD_some, Value.items]
  · obtain rfl := Value.eq_null_of_isNull hnull
    rw [hpruned, labelsOf]
    cases s.listAttribute <;> rfl
  · rw [hpruned, labelsOf, labelsOf]
    cases hattribute : s.listAttribute with
    | none =>
      simp only [hnull]
      by_cases htest : test v
      · simp [htest, hnull]
      · simp [htest, Value.isNull]
    | some listName =>
      -- No list is under the name of the list, so there is no label.
      have hnone := hlists listName (hplain.mem_labelLists hattribute)
      have hempty : ((v.get? listName).getD .null).items = [] := by
        cases hfield : v.get? listName with
        | none => rfl
        | some w =>
          rw [hfield] at hnone
          cases w <;> first | rfl | cases hnone
      simp only [hempty, List.filter_nil]
      by_cases htest : test v
      · rw [if_pos htest, hempty]
      · rw [if_neg htest]
        rfl

/-- Pruning the field of a source leaves the values at a path alone, or they are those of the field:
the path is the field's own, or lies apart, or one of the two has no values. -/
def IsClearOf (s : TagSource) (path : List String) (d : Document) : Prop :=
  Path.components s.path = path ∨ Apart (Path.components s.path) path ∨
    sites path (.obj d) = [] ∨ s.fieldsIn d = []

end TagSource

namespace Executor

variable {ex : Executor} {predicate : Json} {test : Value → Bool} {s : TagSource} {d : Document}
  {path : List String}

theorem sites_filterLabels_of_isClearOf (htest : ex.admits predicate d = test)
    (h : s.IsClearOf path d) :
    sites path (.obj (ex.filterLabels s.path predicate d).1) =
      if Path.components s.path = path then
        (sites path (.obj d)).map fun v => (pruneLabels test v).1
      else sites path (.obj d) := by
  rcases h with rfl | hapart | hnone | hnone
  · rw [if_pos rfl, sites_filterLabels htest]
  · have hne : Path.components s.path ≠ path := fun heq => hapart.1 (heq ▸ List.prefix_rfl)
    rw [if_neg hne, sites_filterLabels_of_apart hapart]
  · rw [sites_filterLabels_eq_nil htest s.path hnone, hnone, List.map_nil, ite_self]
  · rw [filterLabels_eq_self hnone]
    split
    · next heq =>
      have hpath : sites path (.obj d) = [] := heq ▸ hnone
      rw [hpath, List.map_nil]
    · rfl

theorem isClearOf_filterLabels (htest : ex.admits predicate d = test) (field : String)
    (h : s.IsClearOf path d) : s.IsClearOf path (ex.filterLabels field predicate d).1 := by
  rcases h with heq | hapart | hnone | hnone
  · exact .inl heq
  · exact .inr (.inl hapart)
  · exact .inr (.inr (.inl (sites_filterLabels_eq_nil htest field hnone)))
  · exact .inr (.inr (.inr (sites_filterLabels_eq_nil htest field hnone)))

end Executor

namespace LabelTags

variable {ex : Executor} {sources : List TagSource} {predicate : Expr} {test : Value → Bool}
  {d : Document} {values : List String}

theorem run_prunings (htest : ∀ d, ex.admits predicate.toJson d = test) (sources : List TagSource)
    (d : Document) :
    ∃ d', ex.run (prunings sources predicate) [d] = [d'] ∧
      ∀ path, (∀ s ∈ sources, s.IsClearOf path d) →
        sites path (.obj d') =
          if path ∈ sources.map fun s => Path.components s.path then
            (sites path (.obj d)).map fun v => (pruneLabels test v).1
          else sites path (.obj d) := by
  induction sources generalizing d with
  | nil => exact ⟨d, rfl, fun path _ => rfl⟩
  | cons s sources ih =>
    obtain ⟨d', hrun, hsites⟩ := ih (ex.filterLabels s.path predicate.toJson d).1
    have happly : ex.apply (.filterLabelsBy s.path predicate false) [d] =
        [(ex.filterLabels s.path predicate.toJson d).1] := rfl
    refine ⟨d', by rw [prunings, List.map_cons, ex.run_cons, happly]; exact hrun, fun path h => ?_⟩
    obtain ⟨hfirst, hrest⟩ := List.forall_mem_cons.1 h
    rw [hsites path fun t ht => Executor.isClearOf_filterLabels (htest d) s.path (hrest t ht),
      Executor.sites_filterLabels_of_isClearOf (htest d) hfirst, List.map_cons]
    have hidem (v : Value) : (pruneLabels test (pruneLabels test v).1).1 = (pruneLabels test v).1 :=
      Value.pruneLabels_idem test v
    by_cases hpath : Path.components s.path = path
    · simp [hpath, hidem, Function.comp_def]
    · simp [hpath, Ne.symm hpath]

theorem isStepwise_of_mem_filterStages {f : Filter} {stages : List Stage}
    (h : filterStages sources f = .ok stages) : ∀ stage ∈ stages, stage.isStepwise := by
  intro stage hstage
  rcases filterStages_cases h stage hstage with ⟨q, rfl, -⟩ | ⟨s, -, predicate, -, rfl⟩
  · rfl
  · rfl

theorem run_prunings_nil (sources : List TagSource) (predicate : Expr) :
    ex.run (prunings sources predicate) [] = [] := by
  induction sources with
  | nil => rfl
  | cons s sources ih => exact ih

/-- The label fields of the sources are well formed: on the way to them no list is met but that of the
frames, and they hold labels as the sources have them. -/
structure AreHeld (sources : List TagSource) (d : Document) : Prop where
  opens : ∀ s ∈ sources, Value.opensTo (Path.components s.path) (.obj d)
  fields : ∀ s ∈ sources, ∀ v ∈ s.fieldsIn d, s.Holds v

/-- No label field lies below that of another source, which can take it away when it is pruned. -/
def NoneBelow (sources : List TagSource) (d : Document) : Prop :=
  ∀ s ∈ sources, ∀ t ∈ sources, Path.components s.path <+: Path.components t.path →
    s.path ≠ t.path → t.fieldsIn d = []

instance (sources : List TagSource) (d : Document) : Decidable (AreHeld sources d) :=
  decidable_of_iff
    ((∀ s ∈ sources, Value.opensTo (Path.components s.path) (.obj d)) ∧
      ∀ s ∈ sources, ∀ v ∈ s.fieldsIn d, s.Holds v)
    ⟨fun ⟨opens, fields⟩ => ⟨opens, fields⟩, fun h => ⟨h.opens, h.fields⟩⟩

instance (sources : List TagSource) (d : Document) : Decidable (NoneBelow sources d) :=
  inferInstanceAs (Decidable (∀ _ ∈ _, _))

theorem AreHeld.isTaggable (h : AreHeld sources d) {s : TagSource} (hs : s ∈ sources) {label : Value}
    (hlabel : label ∈ s.labels d) : label.isTaggable := by
  obtain ⟨v, hv, hlabel⟩ := List.mem_flatMap.1 hlabel
  exact (h.fields s hs v hv).labels label hlabel

theorem NoneBelow.isClearOf (h : NoneBelow sources d) {s t : TagSource} (hs : s ∈ sources)
    (ht : t ∈ sources) : t.IsClearOf (Path.components s.path) d := by
  by_cases heq : s.path = t.path
  · exact .inl (by rw [heq])
  · by_cases hinner : Path.components s.path <+: Path.components t.path
    · exact .inr (.inr (.inr (h s hs t ht hinner heq)))
    · by_cases houter : Path.components t.path <+: Path.components s.path
      · exact .inr (.inr (.inl (h t ht s hs houter (Ne.symm heq))))
      · exact .inr (.inl ⟨houter, hinner⟩)

theorem any_congr_of_mem {α : Type} {xs : List α} {p q : α → Bool} (h : ∀ x ∈ xs, p x = q x) :
    xs.any p = xs.any q := by
  rw [Bool.eq_iff_iff, List.any_eq_true, List.any_eq_true]
  exact exists_congr fun x => and_congr_right fun hx => by rw [h x hx]

theorem holds_anyTagged_eq_carries (hplain : ∀ s ∈ sources, s.IsPlain) (h : AreHeld sources d)
    (values : List String) :
    ex.holds (anyTagged sources values) d =
      sources.any fun s => (s.labels d).any (Value.carries values) := by
  rw [holds_anyTagged]
  refine any_congr_of_mem fun s hs => ?_
  have hreached : (Value.obj d).reached (Path.components s.tagsPath) =
      (s.labels d).flatMap (·.reached ["tags"]) := by
    rw [(hplain s hs).components_tagsPath, Value.reached_append_of_opensTo (h.opens s hs),
      TagSource.labels, List.flatMap_assoc]
    exact List.flatMap_congr fun v hv => TagSource.reached_tagNames (h.fields s hs v hv)
  rw [hreached, Value.holdsText_flatMap]
  exact any_congr_of_mem fun label hlabel =>
    Value.holdsText_reached_tags (h.isTaggable hs hlabel) values

theorem exists_admits_labelPredicate (values : List String) (exclude : Bool) :
    ∃ predicate, labelPredicate values exclude = .ok predicate ∧
      ∀ (ex : Executor) d, ex.admits predicate.toJson d = Value.answers values exclude := by
  obtain ⟨predicate, hpredicate, hreadable, heval⟩ := exists_labelPredicate values exclude
  refine ⟨predicate, hpredicate, fun ex d => funext fun label => ?_⟩
  have htags : Path.components "tags" = ["tags"] := by decide
  have hthis : ex.eval (.thisField "tags") (Scope.ofThis d label) =
      label.valueAt (Path.components "tags") := rfl
  rw [Executor.admits, ex.denote_toJson hreadable, heval, hthis, htags, Value.answers]

/-- Exactly the labels that pass a test are left, and nothing else is changed. -/
structure Leaves (sources : List TagSource) (keep : Value → Bool) (d d' : Document) : Prop where
  labels : ∀ s ∈ sources, s.labels d' = (s.labels d).filter keep
  others : ∀ path, (∀ s ∈ sources, Apart (Path.components s.path) path) →
    sites path (.obj d') = sites path (.obj d)

theorem exists_leaves_of_run_prunings (hplain : ∀ s ∈ sources, s.IsPlain) (h : AreHeld sources d)
    {exclude : Bool}
    (hpredicate : ∀ d, ex.admits predicate.toJson d = Value.answers values exclude) :
    ∃ d', ex.run (prunings sources predicate) [d] = [d'] ∧ (NoneBelow sources d →
      Leaves sources (fun label => label.carries values != exclude) d d') := by
  obtain ⟨d', hrun, hsites⟩ := run_prunings hpredicate sources d
  refine ⟨d', hrun, fun hbelow => ⟨fun s hs => ?_, fun path hapart => ?_⟩⟩
  · have hmem : Path.components s.path ∈ sources.map fun s => Path.components s.path :=
      List.mem_map.2 ⟨s, hs, rfl⟩
    have hfields : s.fieldsIn d' =
        (s.fieldsIn d).map fun v => (pruneLabels (Value.answers values exclude) v).1 := by
      rw [TagSource.fieldsIn, hsites _ fun t ht => hbelow.isClearOf hs ht, if_pos hmem]
      rfl
    have hanswers : ∀ label ∈ s.labels d,
        label.answers values exclude = (label.carries values != exclude) :=
      fun label hlabel => Value.answers_eq (h.isTaggable hs hlabel) values exclude
    rw [← List.filter_congr hanswers, TagSource.labels, TagSource.labels, hfields, List.flatMap_map,
      List.filter_flatMap]
    exact List.flatMap_congr fun v hv =>
      TagSource.labelsOf_pruneLabels (hplain s hs) (h.fields s hs v hv)
  · have hmem : path ∉ sources.map fun s => Path.components s.path := by
      intro hmem
      obtain ⟨s, hs, rfl⟩ := List.mem_map.1 hmem
      exact (hapart s hs).1 List.prefix_rfl
    rw [hsites path fun s hs => .inr (.inl (hapart s hs)), if_neg hmem]

def isTagged (sources : List TagSource) (values : List String) (d : Document) : Bool :=
  sources.any fun s => (s.labels d).any (Value.carries values)

theorem apply_narrowing (hplain : ∀ s ∈ sources, s.IsPlain) (h : AreHeld sources d)
    (values : List String) (exclude : Bool) :
    ex.apply (.matchQuery (narrowing sources values exclude)) [d] =
      if isTagged sources values d != exclude then [d] else [] := by
  have hsatisfies := satisfies_narrowing ex sources values exclude d
  rw [holds_anyTagged_eq_carries hplain h] at hsatisfies
  rw [Stage.matchQuery, Executor.apply, List.filter_cons, hsatisfies]
  rfl

theorem exists_label_of_leaves {d' : Document}
    (h : Leaves sources (fun label => label.carries values != false) d d')
    (htagged : isTagged sources values d) : ∃ s ∈ sources, s.labels d' ≠ [] := by
  obtain ⟨s, hs, hany⟩ := List.any_eq_true.1 htagged
  obtain ⟨label, hlabel, hcarries⟩ := List.any_eq_true.1 hany
  refine ⟨s, hs, List.ne_nil_of_mem (a := label) ?_⟩
  rw [h.labels s hs]
  exact List.mem_filter.2 ⟨hlabel, by rw [Bool.bne_false, hcarries]⟩

/-- A filter on label tags means the same to documents and to labels, and decides on each document by
itself. In matching mode it leaves documents as they are. Otherwise inclusion keeps the documents with
a label that carries one of the tags, and of their labels these; exclusion keeps every document, and
of its labels those without any of the tags. What is left of the labels is told where no label field
lies below another. -/
theorem run_filterStages {f : Filter} (hsources : sources ≠ [])
    (hplain : ∀ s ∈ sources, s.IsPlain) (hvalues : f.values.isSome) :
    ∃ stages predicate, filterStages sources f = .ok stages ∧
      labelPredicate f.presentValues false = .ok predicate ∧
      (∀ (ex : Executor) docs, ex.run stages docs = docs.flatMap fun d => ex.run stages [d]) ∧
      ∀ (ex : Executor) (d : Document), AreHeld sources d →
        (ex.satisfies (anyTagged sources f.presentValues).toJson d =
          isTagged sources f.presentValues d) ∧
        (∀ s ∈ sources, ∀ label ∈ s.labels d,
          ex.admits predicate.toJson d label = label.carries f.presentValues) ∧
        (f.isMatching → ex.run stages [d] =
          if isTagged sources f.presentValues d != f.exclude then [d] else []) ∧
        (f.isMatching = false → f.exclude = false → isTagged sources f.presentValues d = false →
          ex.run stages [d] = []) ∧
        (f.isMatching = false → f.exclude ∨ isTagged sources f.presentValues d →
          ∃ d', ex.run stages [d] = [d'] ∧ (NoneBelow sources d →
            Leaves sources (fun label => label.carries f.presentValues != f.exclude) d d' ∧
            (f.exclude = false → ∃ s ∈ sources, s.labels d' ≠ []))) := by
  obtain ⟨including, hincluding, hadmits⟩ := exists_admits_labelPredicate f.presentValues false
  obtain ⟨pruning, hpruning, hprunes⟩ := exists_admits_labelPredicate f.presentValues f.exclude
  -- One match, one stage for each source, or both: the cases of the two flags.
  have hstages : filterStages sources f = .ok
      (if f.isMatching then [.matchQuery (narrowing sources f.presentValues f.exclude)]
        else (if f.exclude then [] else [.matchQuery (narrowing sources f.presentValues false)]) ++
          prunings sources pruning) := by
    rw [filterStages_eq hsources hvalues, hpruning]
    cases f.isMatching <;> rfl
  refine ⟨_, including, hstages, hincluding, fun ex docs => ?_,
    fun ex d h => ⟨?_, ?_, ?_, ?_, ?_⟩⟩
  · exact ex.run_eq_flatMap (isStepwise_of_mem_filterStages hstages) docs
  · have hsatisfies := satisfies_narrowing ex sources f.presentValues false d
    rw [Bool.bne_false, holds_anyTagged_eq_carries hplain h] at hsatisfies
    exact hsatisfies
  · intro s hs label hlabel
    rw [hadmits, Value.answers_eq (h.isTaggable hs hlabel), Bool.bne_false]
  · intro hmatching
    rw [if_pos hmatching, ex.run_cons, apply_narrowing hplain h]
    rfl
  · intro hpruned hinclude htagged
    rw [if_neg (by simp [hpruned]), if_neg (by simp [hinclude]), ex.run_append, ex.run_cons,
      apply_narrowing hplain h, htagged]
    exact run_prunings_nil sources pruning
  · intro hpruned hkept
    -- The document passes the match, if there is one, and is then pruned source by source.
    obtain ⟨d', hrun, hleaves⟩ := exists_leaves_of_run_prunings hplain h (hprunes ex)
    refine ⟨d', ?_, fun hbelow => ⟨hleaves hbelow, fun hinclude => ?_⟩⟩
    · rw [if_neg (by simp [hpruned]), ex.run_append]
      cases hexclude : f.exclude with
      | true => exact hrun
      | false =>
        have htagged : isTagged sources f.presentValues d = true := by simpa [hexclude] using hkept
        rw [if_neg Bool.false_ne_true, ex.run_cons, apply_narrowing hplain h, htagged]
        exact hrun
    · rw [hinclude] at hleaves
      exact exists_label_of_leaves (hleaves hbelow) (by simpa [hinclude] using hkept)

theorem run_filterStages_taggedDocument :
    taggedSources ≠ [] ∧ (∀ s ∈ taggedSources, s.IsPlain) ∧ AreHeld taggedSources taggedDocument ∧
      NoneBelow taggedSources taggedDocument ∧
      ∃ stages, filterStages taggedSources (.ofValues ["b"]) = .ok stages ∧
        ∃ d', (default : Executor).run stages [taggedDocument] = [d'] ∧
          Leaves taggedSources (fun label => label.carries ["b"] != false) taggedDocument d' ∧
          ∃ s ∈ taggedSources, s.labels d' ≠ [] := by
  have hsources : taggedSources ≠ [] := List.cons_ne_nil _ _
  have hplain : ∀ s ∈ taggedSources, s.IsPlain := by
    intro s hs
    rcases List.mem_pair.1 hs with rfl | rfl
    · exact ⟨rfl, .classification, rfl⟩
    · exact ⟨rfl, .detections, rfl⟩
  have hheld : AreHeld taggedSources taggedDocument := by decide +kernel
  have hbelow : NoneBelow taggedSources taggedDocument := by decide +kernel
  have htagged : isTagged taggedSources ["b"] taggedDocument := by decide +kernel
  obtain ⟨stages, predicate, hstages, -, -, hrun⟩ :=
    @run_filterStages taggedSources (.ofValues ["b"]) hsources hplain rfl
  obtain ⟨-, -, -, -, hpruned⟩ := hrun default taggedDocument hheld
  have hvalues : (Filter.ofValues ["b"]).presentValues = ["b"] := presentValues_ofValues ["b"]
  rw [hvalues] at hpruned
  obtain ⟨d', hd', hleft⟩ := hpruned rfl (.inr htagged)
  obtain ⟨hleaves, hlabel⟩ := hleft hbelow
  exact ⟨hsources, hplain, hheld, hbelow, stages, hstages, d', hd', hleaves, hlabel rfl⟩

def boxSources : List TagSource :=
  [⟨"box", "box", .sample, none⟩, ⟨"box.gt", "box.gt", .sample, some "detections"⟩]

def crate : Document :=
  [("box", .obj [("label", .str "crate"), ("tags", .arr [.str "no"]),
    ("gt", .obj [("detections",
      .arr [.obj [("label", .str "cat"), ("tags", .arr [.str "yes"])]])])])]

/-- The label that carries the tag goes with the label around it, which does not. -/
theorem filterStages_lose_crate :
    (∀ s ∈ boxSources, s.IsPlain) ∧ AreHeld boxSources crate ∧ isTagged boxSources ["yes"] crate ∧
      ∃ stages, filterStages boxSources (.ofValues ["yes"]) = .ok stages ∧
        ∃ d', (default : Executor).run stages [crate] = [d'] ∧ ∀ s ∈ boxSources, s.labels d' = [] := by
  have hplain : ∀ s ∈ boxSources, s.IsPlain := by
    intro s hs
    rcases List.mem_pair.1 hs with rfl | rfl
    · exact ⟨rfl, .classification, rfl⟩
    · exact ⟨rfl, .detections, rfl⟩
  have hlost : (filterStages boxSources (.ofValues ["yes"])).map (fun stages =>
      ((default : Executor).run stages [crate]).map fun d' =>
        boxSources.all fun s => (s.labels d').isEmpty) = .ok [true] := by
    decide +kernel
  obtain ⟨stages, hstages, hlost⟩ := Outcome.exists_of_map_eq_ok hlost
  obtain ⟨d', hrun, hempty⟩ := List.map_eq_singleton_iff.1 hlost
  refine ⟨hplain, by decide +kernel, by decide +kernel, stages, hstages, d', hrun, fun s hs => ?_⟩
  exact List.isEmpty_iff.1 (List.all_eq_true.1 hempty s hs)

end LabelTags
end MediaViews
