import MediaViews.Proofs.Executor.Labels
import MediaViews.Proofs.Filter.Footprint
import MediaViews.Proofs.Filter.Routing

/-! What the labels that a filter keeps have to go through. The stages of later filters run on them,
and those on the same field may take away what the filter left. -/
namespace MediaViews

open Value (Apart IgnoresLoss)

namespace FilterTarget

def dropsEmpty (ctx : FilterContext) (t : FilterTarget) : Bool :=
  !t.filter.exclude || ctx.excludeDropsEmpty

def prunesLabelsOf (field : String) (t : FilterTarget) : Bool :=
  t.prunesLabels && !t.prunesPoints && t.ownerPath == field

/-- What is asked of the filters that come after one on a label field: they are on the same field or
on one apart from it, do not prune the points that it looks at, and the last of them that prunes the
labels of the field drops the documents that it leaves without. -/
structure IsSpared (ctx : FilterContext) (targets : List FilterTarget) (t : FilterTarget) : Prop where
  place : ∀ u ∈ targets, t.path < u.path → u.prunesLabels → u.ownerPath = t.ownerPath ∨
    Apart (Path.components u.ownerPath) (Path.components t.ownerPath)
  points : ∀ u ∈ targets, t.path < u.path → u.prunesPoints → u.ownerPath = t.ownerPath →
    ¬[Filter.pointsAttribute] <+: Path.components t.field.storageName
  last : ∀ u ∈ targets, t.path < u.path → u.prunesLabelsOf t.ownerPath → u.dropsEmpty ctx ∨
    ∃ w ∈ targets, u.path < w.path ∧ w.prunesLabelsOf t.ownerPath ∧ w.dropsEmpty ctx

end FilterTarget

namespace Executor

variable {ex : Executor}

theorem exists_of_mem_keepPruned {onlyMatches : Bool} {change : Document → Document × Nat}
    {docs : List Document} {d' : Document} (h : d' ∈ keepPruned onlyMatches change docs) :
    ∃ d ∈ docs, d' = (change d).1 ∧ (onlyMatches → (change d).2 ≠ 0) := by
  obtain ⟨d, hd, hkept⟩ := List.mem_filterMap.1 h
  dsimp only at hkept
  split at hkept
  · cases hkept
  · next hcount =>
    refine ⟨d, hd, (Option.some.inj hkept).symm, fun honly hzero => hcount ?_⟩
    rw [honly, hzero]
    rfl

end Executor

def Document.AllLabels (field : String) (test : Value → Bool) (d : Document) : Prop :=
  ∀ label ∈ d.labelsUnder field, test label

namespace FilterTarget

open Executor (exists_of_mem_keepPruned)

variable {ex : Executor} {ctx : FilterContext} {field : String} {test : Value → Bool}
  {u : FilterTarget} {stage : Stage} {docs : List Document} {d d' : Document}

/-- What the pruning of one document may do to the labels of a field that all satisfy a test. Pruning
the labels of the field itself, it may leave none. -/
structure SparesLabels (field : String) (test : Value → Bool) (prunesField dropsEmpty : Bool)
    (d d' : Document) : Prop where
  all : d.AllLabels field test → d'.AllLabels field test
  kept : prunesField = false → d.labelsUnder field ≠ [] → d'.labelsUnder field ≠ []
  left : prunesField → dropsEmpty → d'.labelsUnder field ≠ []

theorem sparesLabels_of_labelsUnder_eq {dropsEmpty : Bool}
    (h : d'.labelsUnder field = d.labelsUnder field) :
    SparesLabels field test false dropsEmpty d d' where
  all hall label hlabel := hall label (h ▸ hlabel)
  kept _ hne := h ▸ hne
  left := nofun

theorem sparesLabels_filterKeypoints {dropsEmpty : Bool} (predicate : Option Json)
    (labels : Option (List String)) (htest : IgnoresLoss test [Filter.pointsAttribute]) :
    SparesLabels field test false dropsEmpty d (ex.filterKeypoints field predicate labels d).1 := by
  have hmap := @Executor.map_labelsUnder_filterKeypoints ex field d test
    (fun points v => Value.test_prunePointsOf htest points v) predicate labels
  refine ⟨fun hall label hlabel => ?_, fun _ hne hnil => ?_, nofun⟩
  · have htold : test label ∈ (d.labelsUnder field).map test := hmap ▸ List.mem_map_of_mem hlabel
    obtain ⟨before, hbefore, heq⟩ := List.mem_map.1 htold
    rw [← heq]
    exact hall before hbefore
  · rw [hnil, List.map_nil] at hmap
    exact hne (List.map_eq_nil_iff.1 hmap.symm)

theorem exists_sparesLabels_of_mem_apply (hprunes : u.prunesLabels)
    (hplace : u.ownerPath = field ∨
      Apart (Path.components u.ownerPath) (Path.components field))
    (hpoints : u.prunesPoints → u.ownerPath = field → IgnoresLoss test [Filter.pointsAttribute])
    (h : u.labelStage ctx = .ok stage) (hd : d' ∈ ex.apply stage docs) :
    ∃ d ∈ docs, SparesLabels field test (u.prunesLabelsOf field) (u.dropsEmpty ctx) d d' := by
  have hfield (heq : u.ownerPath = field) : u.prunesLabelsOf field = !u.prunesPoints := by
    rw [prunesLabelsOf, hprunes, heq, beq_self_eq_true, Bool.true_and, Bool.and_true]
  have hother (hapart : Apart (Path.components u.ownerPath) (Path.components field)) :
      u.prunesLabelsOf field = false := by
    have hne : u.ownerPath ≠ field := fun heq => hapart.1 (heq ▸ List.prefix_refl _)
    rw [prunesLabelsOf, beq_eq_false_iff_ne.2 hne, Bool.and_false]
  rcases labelStage_cases h with ⟨hprunesPoints, h⟩ | ⟨hwhole, predicate, hpredicate, rfl⟩
  · -- Pruning points keeps every label of the field.
    obtain ⟨predicate, labels, rfl⟩ : ∃ predicate labels,
        stage = .filterKeypoints u.ownerPath predicate labels true := by
      rcases keypointStage_cases h with ⟨names, rfl⟩ | ⟨kind, predicate, -, rfl⟩
      · exact ⟨none, some names, rfl⟩
      · exact ⟨some predicate.toJson, none, rfl⟩
    obtain ⟨d, hmem, rfl, -⟩ := exists_of_mem_keepPruned hd
    refine ⟨d, hmem, ?_⟩
    rcases hplace with heq | hapart
    · rw [hfield heq, hprunesPoints, ← heq]
      exact sparesLabels_filterKeypoints predicate labels (hpoints hprunesPoints heq)
    · rw [hother hapart]
      exact sparesLabels_of_labelsUnder_eq
        (Executor.labelsUnder_filterKeypoints_of_apart hapart predicate labels)
  · -- Pruning labels keeps some of them, and each of these as it is.
    obtain ⟨hread, hjudges⟩ := elementPredicate_spec ex hpredicate
    obtain ⟨testᵤ, hadmits, -⟩ := Executor.exists_admits hread hjudges
    obtain ⟨d, hmem, rfl, hcount⟩ := exists_of_mem_keepPruned hd
    refine ⟨d, hmem, ?_⟩
    rcases hplace with heq | hapart
    · obtain ⟨hlabels, hlength⟩ :=
        @Executor.labelsUnder_filterLabels ex predicate.toJson testᵤ u.ownerPath d (hadmits d)
      rw [hfield heq, hwhole, ← heq]
      refine ⟨fun hall label hlabel => ?_, nofun, fun _ hdrops hnil => ?_⟩
      · rw [hlabels] at hlabel
        exact hall label (List.mem_filter.1 hlabel).1
      · refine hcount hdrops ?_
        rw [hlength, ← hlabels, hnil, List.length_nil]
    · rw [hother hapart]
      exact sparesLabels_of_labelsUnder_eq (Executor.labelsUnder_filterLabels_of_apart hapart)

theorem labels_of_mem_run {later : List FilterTarget} {stages : List Stage}
    (hstages : List.Forall₂ (fun u stage => u.labelStage ctx = .ok stage) later stages)
    (hsorted : later.Pairwise fun u w => u.path < w.path)
    (hprunes : ∀ u ∈ later, u.prunesLabels)
    (hplace : ∀ u ∈ later, u.ownerPath = field ∨
      Apart (Path.components u.ownerPath) (Path.components field))
    (hpoints : ∀ u ∈ later, u.prunesPoints → u.ownerPath = field →
      IgnoresLoss test [Filter.pointsAttribute])
    (hlast : ∀ u ∈ later, u.prunesLabelsOf field → u.dropsEmpty ctx ∨
      ∃ w ∈ later, u.path < w.path ∧ w.prunesLabelsOf field ∧ w.dropsEmpty ctx)
    (hall : ∀ d ∈ docs, d.AllLabels field test)
    (hsome : (∀ d ∈ docs, d.labelsUnder field ≠ []) ∨
      ∃ w ∈ later, w.prunesLabelsOf field ∧ w.dropsEmpty ctx) :
    ∀ d ∈ ex.run stages docs, d.AllLabels field test ∧ d.labelsUnder field ≠ [] := by
  induction hstages generalizing docs with
  | nil =>
    intro d hd
    rcases hsome with hsome | ⟨w, hw, -⟩
    · exact ⟨hall d hd, hsome d hd⟩
    · cases hw
  | @cons u stage later stages hstage hrest ih =>
    obtain ⟨hfirst, hsorted⟩ := List.pairwise_cons.1 hsorted
    obtain ⟨huprunes, hprunes⟩ := List.forall_mem_cons.1 hprunes
    obtain ⟨huplace, hplace⟩ := List.forall_mem_cons.1 hplace
    obtain ⟨hupoints, hpoints⟩ := List.forall_mem_cons.1 hpoints
    obtain ⟨hulast, hrestLast⟩ := List.forall_mem_cons.1 hlast
    have hbefore (d' : Document) (hd : d' ∈ ex.apply stage docs) :=
      exists_sparesLabels_of_mem_apply huprunes huplace hupoints hstage hd
    -- A filter that comes after another one is not the first, since the paths ascend.
    have hlater {v w : FilterTarget} (hv : v = u ∨ v ∈ later) (hw : w ∈ u :: later)
        (hlt : v.path < w.path) : w ∈ later := by
      rcases List.mem_cons.1 hw with rfl | hw
      · rcases hv with rfl | hv
        · exact absurd hlt (lt_irrefl _)
        · exact absurd hlt (lt_asymm (hfirst v hv))
      · exact hw
    refine ih hsorted hprunes hplace hpoints (fun v hv hvprunes => ?_) (fun d' hd => ?_) ?_
    · rcases hrestLast v hv hvprunes with hdrops | ⟨w, hw, hlt, hwprunes, hdrops⟩
      · exact .inl hdrops
      · exact .inr ⟨w, hlater (.inr hv) hw hlt, hlt, hwprunes, hdrops⟩
    · obtain ⟨d, hd, hspares⟩ := hbefore d' hd
      exact hspares.all (hall d hd)
    · cases huprune : u.prunesLabelsOf field with
      | true =>
        rcases hulast huprune with hdrops | ⟨w, hw, hlt, hwprunes, hdrops⟩
        · left
          intro d' hd
          obtain ⟨d, -, hspares⟩ := hbefore d' hd
          exact hspares.left huprune hdrops
        · exact .inr ⟨w, hlater (.inl rfl) hw hlt, hwprunes, hdrops⟩
      | false =>
        rcases hsome with hsome | ⟨w, hw, hwprunes, hdrops⟩
        · left
          intro d' hd
          obtain ⟨d, hmem, hspares⟩ := hbefore d' hd
          exact hspares.kept huprune (hsome d hmem)
        · rcases List.mem_cons.1 hw with rfl | hw
          · rw [huprune] at hwprunes
            cases hwprunes
          · exact .inr ⟨w, hw, hwprunes, hdrops⟩

theorem exists_split_of_stages {filters : Filters} {targets : List FilterTarget}
    {stages : List Stage} (htargets : ofFilters ctx.catalog filters = .ok targets)
    (hstages : ctx.stages filters = .ok stages) {t : FilterTarget} (ht : t ∈ targets)
    (hprunes : t.prunesLabels) :
    ∃ earlier own after later, stages = earlier ++ own :: after ∧ t.labelStage ctx = .ok own ∧
      List.Forall₂ (fun u stage => u.labelStage ctx = .ok stage) later after ∧
      (later.Pairwise fun u w => u.path < w.path) ∧
      ∀ u, u ∈ later ↔ u ∈ targets ∧ t.path < u.path ∧ u.prunesLabels := by
  obtain ⟨_, conditions, lists, labels, htargets', -, -, hlabels, rfl⟩ :=
    FilterContext.exists_groups_of_stages_eq_ok hstages
  obtain rfl := Except.ok.inj (htargets.symm.trans htargets')
  have hrole : t ∈ targets.filter (·.prunesLabels) := List.mem_filter.2 ⟨ht, hprunes⟩
  obtain ⟨earlier, later, hsplit⟩ := List.append_of_mem hrole
  have hsorted : (earlier ++ t :: later).Pairwise fun u w => u.path < w.path :=
    hsplit ▸ (pairwise_path_of_ofFilters htargets).filter _
  obtain ⟨-, hownSorted, hbetween⟩ := List.pairwise_append.1 hsorted
  obtain ⟨hafter, hlaterSorted⟩ := List.pairwise_cons.1 hownSorted
  rw [hsplit, List.mapM_append] at hlabels
  obtain ⟨before, -, hlabels⟩ := Outcome.exists_of_bind_eq_ok hlabels
  obtain ⟨rest, hrest, hlabels⟩ := Outcome.exists_of_bind_eq_ok hlabels
  obtain rfl := Except.ok.inj hlabels
  rw [List.mapM_cons] at hrest
  obtain ⟨own, hown, hrest⟩ := Outcome.exists_of_bind_eq_ok hrest
  obtain ⟨after, hstagesAfter, hrest⟩ := Outcome.exists_of_bind_eq_ok hrest
  obtain rfl := Except.ok.inj hrest
  refine ⟨FilterPart.matched conditions ++ lists ++ before, own, after, later,
    (List.append_assoc _ _ _).symm, hown, Outcome.forall₂_of_mapM_eq_ok hstagesAfter, hlaterSorted,
    fun u => ?_⟩
  -- Targets ascend by path, so the later ones are those with a greater path.
  have hmem : u ∈ targets ∧ u.prunesLabels ↔ u ∈ earlier ++ t :: later := by
    rw [← hsplit, List.mem_filter]
  constructor
  · intro hu
    obtain ⟨htarget, huprunes⟩ := hmem.2 (List.mem_append_right _ (List.mem_cons_of_mem _ hu))
    exact ⟨htarget, hafter u hu, huprunes⟩
  · rintro ⟨htarget, hlt, huprunes⟩
    rcases List.mem_append.1 (hmem.1 ⟨htarget, huprunes⟩) with hearlier | hu
    · exact absurd hlt (lt_asymm (hbetween u hearlier t List.mem_cons_self))
    · rcases List.mem_cons.1 hu with rfl | hu
      · exact absurd hlt (lt_irrefl _)
      · exact hu

theorem labels_of_mem_apply_filterLabels {predicate : Json}
    (hadmits : ∀ d, ex.admits predicate d = test)
    (hd : d ∈ ex.apply (.filterLabels field predicate true) docs) :
    d.AllLabels field test ∧ d.labelsUnder field ≠ [] := by
  obtain ⟨d₀, -, rfl, hcount⟩ := exists_of_mem_keepPruned hd
  obtain ⟨hkept, hlength⟩ :=
    @Executor.labelsUnder_filterLabels ex predicate test field d₀ (hadmits d₀)
  refine ⟨fun label hmem => ?_, fun hnil => ?_⟩
  · rw [hkept] at hmem
    exact (List.mem_filter.1 hmem).2
  · refine hcount rfl ?_
    rw [hlength, ← hkept, hnil, List.length_nil]

/-- An including filter on an attribute of labels leaves a label that satisfies its predicate in every
document that all stages keep, as long as no later filter spoils what it left. -/
theorem exists_label_of_mem_run_stages {filters : Filters} {targets : List FilterTarget}
    {stages : List Stage} (htargets : ofFilters ctx.catalog filters = .ok targets)
    (hstages : ctx.stages filters = .ok stages) {t : FilterTarget} (ht : t ∈ targets)
    (hlabel : t.isLabelAttribute) (hpoint : t.isPointAttribute = false)
    (hinclude : t.filter.exclude = false) (hprune : t.filter.isMatching = false)
    (hspared : t.IsSpared ctx targets) :
    ∃ predicate, t.elementPredicate = .ok predicate ∧
      ∀ (ex : Executor) (docs : List Document), ∀ d ∈ ex.run stages docs,
        ∃ label ∈ d.labelsUnder t.ownerPath, (ex.eval predicate (.ofThis d label)).isTrue := by
  have hwhole : t.prunesPoints = false := by rw [prunesPoints, hpoint, Bool.false_and]
  have hprunes : t.prunesLabels := by
    rw [prunesLabels, hlabel, hprune, Bool.not_false, Bool.or_true, Bool.and_true]
  -- Behind the filter's own stage stand those of later filters on labels, and only these can take
  -- away what it leaves.
  obtain ⟨earlier, own, after, later, rfl, hown, hafter, hsorted, hlater⟩ :=
    exists_split_of_stages htargets hstages ht hprunes
  rcases labelStage_cases hown with ⟨hpoints, -⟩ | ⟨-, predicate, hpredicate, rfl⟩
  · rw [hwhole] at hpoints
    cases hpoints
  refine ⟨predicate, hpredicate, fun ex docs d hd => ?_⟩
  obtain ⟨hread, hjudges⟩ := elementPredicate_spec ex hpredicate
  obtain ⟨test, hadmits, hignores⟩ := Executor.exists_admits hread hjudges
  rw [Executor.run_append, Executor.run_cons, hinclude] at hd
  have hfirst (d' : Document) := @labels_of_mem_apply_filterLabels ex t.ownerPath test
    (ex.run earlier docs) d' predicate.toJson hadmits
  have hpoints : ∀ u ∈ later, u.prunesPoints → u.ownerPath = t.ownerPath →
      IgnoresLoss test [Filter.pointsAttribute] := by
    intro u hu hupoints heq
    obtain ⟨htarget, hlt, -⟩ := (hlater u).1 hu
    exact hignores _ (hspared.points u htarget hlt hupoints heq)
  have hlast : ∀ u ∈ later, u.prunesLabelsOf t.ownerPath → u.dropsEmpty ctx ∨
      ∃ w ∈ later, u.path < w.path ∧ w.prunesLabelsOf t.ownerPath ∧ w.dropsEmpty ctx := by
    intro u hu huprunes
    obtain ⟨htarget, hlt, -⟩ := (hlater u).1 hu
    rcases hspared.last u htarget hlt huprunes with hdrops | ⟨w, hw, huw, hwprunes, hdrops⟩
    · exact .inl hdrops
    · have hwlabels : w.prunesLabels := by
        simp only [prunesLabelsOf, Bool.and_eq_true] at hwprunes
        exact hwprunes.1.1
      exact .inr ⟨w, (hlater w).2 ⟨hw, hlt.trans huw, hwlabels⟩, huw, hwprunes, hdrops⟩
  obtain ⟨hall, hne⟩ := labels_of_mem_run hafter hsorted (fun u hu => ((hlater u).1 hu).2.2)
    (fun u hu => hspared.place u ((hlater u).1 hu).1 ((hlater u).1 hu).2.1 ((hlater u).1 hu).2.2)
    hpoints hlast (fun d' hd' => (hfirst d' hd').1) (.inl fun d' hd' => (hfirst d' hd').2) d hd
  obtain ⟨label, rest, hlabels⟩ := List.exists_cons_of_ne_nil hne
  have hmem : label ∈ d.labelsUnder t.ownerPath := hlabels ▸ List.mem_cons_self
  refine ⟨label, hmem, ?_⟩
  rw [← Executor.denote_toJson ex hread]
  exact (congrFun (hadmits d) label).trans (hall label hmem)

/-! Filters that spare each other, and filters that do not. -/

instance (path other : List String) : Decidable (Apart path other) :=
  inferInstanceAs (Decidable (¬path <+: other ∧ ¬other <+: path))

def between (low high : Int) : Filter := { range := some (.ofInt low, .ofInt high) }

def lenient (catalog : Catalog) : FilterContext := ⟨catalog, .empty, false⟩

def detected : FilterContext := lenient (Catalog.empty.insertLabel "gt" .detections [])

def seenNoCats : Filters :=
  .ofList [("gt.detections.confidence", between 0 1),
    ("gt.detections.label", (Filter.ofValues ["cat"]).excluding),
    ("gt.detections.tags", .ofValues ["seen"])]

theorem exists_label_of_mem_run_stages_seenNoCats :
    ∃ targets t stages predicate, ofFilters detected.catalog seenNoCats = .ok targets ∧
      detected.stages seenNoCats = .ok stages ∧ t ∈ targets ∧
      t.path = "gt.detections.confidence" ∧ t.isLabelAttribute ∧ t.isPointAttribute = false ∧
      t.filter.exclude = false ∧ t.filter.isMatching = false ∧ t.IsSpared detected targets ∧
      t.elementPredicate = .ok predicate ∧ ∀ docs, ∀ d ∈ (default : Executor).run stages docs,
        ∃ label ∈ d.labelsUnder "gt",
          ((default : Executor).eval predicate (.ofThis d label)).isTrue := by
  obtain ⟨targets, t, stages, htargets, hstages, ht, hpath, hlabel, hpoint, hinclude, hprune, howner,
      hspared⟩ : ∃ targets t stages, ofFilters detected.catalog seenNoCats = .ok targets ∧
      detected.stages seenNoCats = .ok stages ∧ t ∈ targets ∧
      t.path = "gt.detections.confidence" ∧ t.isLabelAttribute ∧ t.isPointAttribute = false ∧
      t.filter.exclude = false ∧ t.filter.isMatching = false ∧ t.ownerPath = "gt" ∧
      t.IsSpared detected targets :=
    ⟨_, _, _, rfl, rfl, List.mem_cons_self, rfl, rfl, rfl, rfl, rfl, rfl,
      ⟨by decide +kernel, by decide +kernel, by decide +kernel⟩⟩
  obtain ⟨predicate, hpredicate, hall⟩ :=
    exists_label_of_mem_run_stages htargets hstages ht hlabel hpoint hinclude hprune hspared
  exact ⟨targets, t, stages, predicate, htargets, hstages, ht, hpath, hlabel, hpoint, hinclude, hprune,
    hspared, hpredicate, howner ▸ hall default⟩

/-- A document is kept by all stages of some filters, though none of the labels that are left satisfies
the predicate of an including filter that prunes labels. -/
def LosesMatches (ctx : FilterContext) (filters : Filters) (path : String) (d : Document) : Prop :=
  ∃ targets t stages predicate, ctx.excludeDropsEmpty = false ∧
    ofFilters ctx.catalog filters = .ok targets ∧ ctx.stages filters = .ok stages ∧
    t ∈ targets ∧ t.path = path ∧ t.isLabelAttribute ∧ t.isPointAttribute = false ∧
    t.filter.exclude = false ∧ t.filter.isMatching = false ∧ t.elementPredicate = .ok predicate ∧
    ∃ d' ∈ (default : Executor).run stages [d], ∀ label ∈ d'.labelsUnder t.ownerPath,
      ((default : Executor).eval predicate (.ofThis d' label)).isTrue = false

theorem exists_of_any_all {docs : List Document} {field : String} {predicate : Expr}
    (h : (docs.any fun d => (d.labelsUnder field).all fun label =>
      !((default : Executor).eval predicate (.ofThis d label)).isTrue) = true) :
    ∃ d ∈ docs, ∀ label ∈ d.labelsUnder field,
      ((default : Executor).eval predicate (.ofThis d label)).isTrue = false := by
  obtain ⟨d, hd, hall⟩ := List.any_eq_true.1 h
  refine ⟨d, hd, fun label hlabel => ?_⟩
  simpa using List.all_eq_true.1 hall label hlabel

def noCats : Filters :=
  .ofList [("gt.detections.confidence", between 0 1),
    ("gt.detections.label", (Filter.ofValues ["cat"]).excluding)]

def cat : Value := .obj [("label", .str "cat"), ("confidence", .int 1)]

def boxed : FilterContext :=
  lenient ((Catalog.empty.insertLabel "box" .classification []).insertLabel "box.gt" .detections [])

def boxedNoCats : Filters :=
  .ofList [("box.gt.detections.confidence", between 0 1),
    ("box.label", (Filter.ofValues ["cat"]).excluding)]

def doubled : FilterContext :=
  lenient (((Catalog.empty.insert (.ofPath "gt.batch" .string)).insertLabel "gt" .detections
    []).insertLabel "gt.detections" .classification [])

def batchNoNumbers : Filters :=
  .ofList [("gt.batch", .ofValues ["a"]),
    ("gt.detections.confidence", { nan := some true, exclude := true })]

def spanned : FilterContext :=
  lenient ((Catalog.empty.insert ⟨"pose.keypoints.span", .frameSupport, "points"⟩).insertLabel "pose"
    .keypoints [("visible", .list .bool)])

def spanVisible : Filters :=
  .ofList [("pose.keypoints.span", between 0 1),
    ("pose.keypoints.visible", { includeTrue := some true })]

/-- Later filters may take away what an including filter left: one that excludes labels of the same
field, one on labels around it, one on the list of the labels as a whole, and one on the points of
labels where the attribute is stored as their points. -/
theorem losesMatches_of_later_filters :
    LosesMatches detected noCats "gt.detections.confidence"
        [("gt", .obj [("detections", .arr [cat])])] ∧
      LosesMatches boxed boxedNoCats "box.gt.detections.confidence"
        [("box", .obj [("label", .str "cat"), ("gt", .obj [("detections", .arr [cat])])])] ∧
      LosesMatches doubled batchNoNumbers "gt.batch"
        [("gt", .obj [("detections", .arr [.obj [("batch", .str "a")]])])] ∧
      LosesMatches spanned spanVisible "pose.keypoints.span"
        [("pose", .obj [("keypoints", .arr [.obj [("points", .arr [.int 0, .int 1]),
          ("visible", .arr [.bool false, .bool true])]])])] := by
  refine ⟨?_, ?_, ?_, ?_⟩
  · exact ⟨_, _, _, _, rfl, rfl, rfl, List.mem_cons_self, rfl, rfl, rfl, rfl, rfl, rfl,
      exists_of_any_all (by decide +kernel)⟩
  · exact ⟨_, _, _, _, rfl, rfl, rfl, List.mem_cons_self, rfl, rfl, rfl, rfl, rfl, rfl,
      exists_of_any_all (by decide +kernel)⟩
  · exact ⟨_, _, _, _, rfl, rfl, rfl, List.mem_cons_self, rfl, rfl, rfl, rfl, rfl, rfl,
      exists_of_any_all (by decide +kernel)⟩
  · exact ⟨_, _, _, _, rfl, rfl, rfl, List.mem_cons_self, rfl, rfl, rfl, rfl, rfl, rfl,
      exists_of_any_all (by decide +kernel)⟩

end FilterTarget
end MediaViews
