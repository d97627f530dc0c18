import MediaViews.Proofs.LabelTags.Gathering

/-! The counts of label tags. The gathered list is read twice: its distinct values become the keys,
and for each of them the list is filtered again. -/
namespace MediaViews

namespace Document

theorem mem_keys_set {name key : String} {v : Value} {d : Document}
    (h : key ∈ (d.set name v).map (·.1)) : key = name ∨ key ∈ d.map (·.1) := by
  induction d with
  | nil => exact .inl (by simpa [set] using h)
  | cons field d ih =>
    obtain ⟨k, w⟩ := field
    rw [set] at h
    split at h
    · exact .inr h
    · rcases List.mem_cons.1 h with rfl | h
      · exact .inr List.mem_cons_self
      · exact (ih h).imp id (List.mem_cons_of_mem _)

theorem nodup_keys_set {name : String} {d : Document} (h : (d.map (·.1)).Nodup) (v : Value) :
    ((d.set name v).map (·.1)).Nodup := by
  induction d with
  | nil => exact List.nodup_singleton name
  | cons field d ih =>
    obtain ⟨k, w⟩ := field
    rw [List.map_cons, List.nodup_cons] at h
    rw [set]
    by_cases hk : k = name
    · rw [if_pos (by simpa using hk), List.map_cons, List.nodup_cons]
      exact h
    · rw [if_neg (by simpa using hk), List.map_cons, List.nodup_cons]
      exact ⟨fun hin => (mem_keys_set hin).elim hk h.1, ih h.2⟩

end Document

namespace Value

theorem IsGathered.same_iff {a b : Value} (ha : a.IsGathered) (hb : b.IsGathered) :
    same a b ↔ a = b := by
  rcases ha with rfl | ⟨s, rfl⟩ <;> rcases hb with rfl | ⟨t, rfl⟩
  · exact iff_of_true rfl rfl
  · exact iff_of_false (fun h => absurd (rank_eq_of_same h) (by simp [rank])) nofun
  · exact iff_of_false (fun h => absurd (rank_eq_of_same h) (by simp [rank])) nofun
  · rw [same_str, beq_iff_eq, str.injEq]

theorem mem_foldl_seen {vs seen : List Value} (hvs : ∀ v ∈ vs, v.IsGathered)
    (hseen : ∀ v ∈ seen, v.IsGathered) (v : Value) :
    v ∈ vs.foldl (fun seen v => if seen.any (same · v) then seen else seen ++ [v]) seen ↔
      v ∈ seen ∨ v ∈ vs := by
  -- Values that were seen stay seen, so the induction is on the values left.
  induction vs generalizing seen with
  | nil => simp
  | cons w vs ih =>
    have hw := hvs w List.mem_cons_self
    have hrest : ∀ u ∈ vs, u.IsGathered := fun u hu => hvs u (List.mem_cons_of_mem _ hu)
    rw [List.foldl_cons, List.mem_cons]
    by_cases hany : seen.any (same · w)
    · obtain ⟨u, hu, hsame⟩ := List.any_eq_true.1 hany
      have hmem : w ∈ seen := ((hseen u hu).same_iff hw).1 hsame ▸ hu
      rw [if_pos hany, ih hrest hseen]
      exact ⟨fun h => h.imp_right .inr, fun h => h.elim .inl fun h =>
        h.elim (fun heq => .inl (heq ▸ hmem)) .inr⟩
    · have hseen' : ∀ u ∈ seen ++ [w], u.IsGathered := by
        intro u hu
        rcases List.mem_append.1 hu with hu | hu
        · exact hseen u hu
        · exact List.mem_singleton.1 hu ▸ hw
      rw [if_neg hany, ih hrest hseen', List.mem_append, List.mem_singleton, or_assoc]

theorem mem_distinct {vs : List Value} (h : ∀ v ∈ vs, v.IsGathered) (v : Value) :
    v ∈ distinct vs ↔ v ∈ vs := by
  rw [distinct, (List.perm_insertionSort _ _).mem_iff, mem_foldl_seen h (by simp)]
  simp

def pair (key : Value) (v : Value) : Value := .obj [("k", key), ("v", v)]

theorem addPair_str (d : Document) (key : String) (v : Value) :
    addPair d (pair (.str key) v) = d.set key v := rfl

theorem addPair_null (d : Document) (v : Value) : addPair d (pair .null v) = d := rfl

theorem lookup_foldl_addPair {keys : List Value} (hkeys : ∀ key ∈ keys, key.IsGathered)
    (value : Value → Value) (d : Document) (tag : String) :
    ((keys.map fun key => pair key (value key)).foldl addPair d).lookup tag =
      open Classical in if .str tag ∈ keys then some (value (.str tag)) else d.lookup tag := by
  classical
  -- The value of a key depends on the key alone, so a later pair with it changes nothing.
  induction keys generalizing d with
  | nil => simp
  | cons key keys ih =>
    rw [List.map_cons, List.foldl_cons, ih fun k hk => hkeys k (List.mem_cons_of_mem _ hk)]
    rcases hkeys key List.mem_cons_self with rfl | ⟨k, rfl⟩
    · rw [addPair_null]
      simp
    · rw [addPair_str, Document.lookup_set]
      by_cases hk : tag = k <;> simp [hk]

theorem nodup_foldl_addPair {pairs : List Value} {d : Document} (h : (d.map (·.1)).Nodup) :
    ((pairs.foldl addPair d).map (·.1)).Nodup := by
  induction pairs generalizing d with
  | nil => exact h
  | cons p pairs ih =>
    rw [List.foldl_cons]
    apply ih
    rw [addPair]
    split
    · exact Document.nodup_keys_set h _
    · exact h

end Value

namespace LabelTags

open Value

variable (ex : Executor)

theorem Gathers.length_filter {items : List Value} {tags : List String} (h : Gathers items tags)
    (tag : String) : (items.filter (·.same (.str tag))).length = tags.count tag := by
  rw [← List.countP_eq_length_filter, ← h.strings, List.count, List.countP_filterMap]
  apply List.countP_congr
  intro v hv
  rcases h.gathered v hv with rfl | ⟨s, rfl⟩
  · exact iff_of_false (fun h => absurd (rank_eq_of_same h) (by simp [rank])) (by simp [string?])
  · simp [string?, same_str]

theorem Gathers.str_mem {items : List Value} {tags : List String} (h : Gathers items tags)
    (tag : String) : .str tag ∈ items ↔ tag ∈ tags := by
  rw [← h.strings, List.mem_filterMap]
  refine ⟨fun hmem => ⟨_, hmem, rfl⟩, fun ⟨v, hv, hstring⟩ => ?_⟩
  rcases h.gathered v hv with rfl | ⟨s, rfl⟩
  · cases hstring
  · exact Option.some.inj hstring ▸ hv

def countPairs (items : List Value) : List Value :=
  (distinct items).map fun key => pair key (.int (items.filter (·.same key)).length)

theorem Gathers.lookup_countPairs {items : List Value} {tags : List String} (h : Gathers items tags)
    (tag : String) :
    (ofPairs (countPairs items)).lookup tag =
      if tags.count tag = 0 then none else some (.int (tags.count tag)) := by
  have hkeys : ∀ key ∈ distinct items, key.IsGathered := fun key hkey =>
    h.gathered key ((mem_distinct h.gathered key).1 hkey)
  have hmem : .str tag ∈ distinct items ↔ tags.count tag ≠ 0 := by
    rw [mem_distinct h.gathered, h.str_mem, ← List.count_pos_iff, Nat.pos_iff_ne_zero]
  rw [ofPairs, countPairs, lookup_foldl_addPair hkeys, List.lookup_nil, h.length_filter]
  by_cases hcount : tags.count tag = 0
  · rw [if_neg fun hin => hmem.1 hin hcount, if_pos hcount]
  · rw [if_pos (hmem.2 hcount), if_neg hcount]

theorem eval_counts {items : List Value} {d : Document}
    (h : d.lookup field = some (.arr items)) :
    ex.eval counts ⟨d, []⟩ = .obj (ofPairs (countPairs items)) := by
  have hfield : ∀ vars, ex.eval (.field field) ⟨d, vars⟩ = .arr items := by
    intro vars
    show valueAt (Path.components field) _ = _
    rw [Path.components_eq_singleton (by decide), valueAt, valueAt, h, Option.getD_some]
  have hbody : ∀ key, ex.eval
      (.object [("k", .var "tag"),
        ("v", .size (.filter (.field field) (Expr.this.eq (.var "tag"))))])
      ((⟨d, []⟩ : Scope).bind "tag" key) = pair key (.int (items.filter (·.same key)).length) := by
    intro key
    simp only [Executor.eval, Executor.evalEntries, Scope.bind, hfield, Expr.eq]
    rfl
  show Value.obj (ofPairs ((distinct (ex.eval (.field field) ⟨d, []⟩).items).map fun key =>
    ex.eval _ ((⟨d, []⟩ : Scope).bind "tag" key))) = _
  rw [hfield, Value.items]
  simp only [hbody]
  rfl

/-- Every tag of a label is counted as often as it occurs in a label of some source, whatever the
field held before, and no other field is touched. -/
theorem run_countStages {sources : List TagSource} {d : Document}
    (hwf : ∀ s ∈ sources, s.WellFormed (d.without field))
    (hreferable : ∀ s ∈ sources, s.IsReferable (d.without field)) :
    ∃ counted : Document, ex.run (countStages sources) [d] = [d.set field (.obj counted)] ∧
      (counted.map (·.1)).Nodup ∧
      (∀ tag, counted.lookup tag =
        let n := (sources.flatMap (·.tags (d.without field))).count tag
        if n = 0 then none else some (.int n)) ∧
      ∀ name, name ≠ field → (d.set field (.obj counted)).lookup name = d.lookup name := by
  obtain ⟨items, hgather, hitems⟩ := run_gatherStages ex hwf hreferable
  have hlookup : (d.set field (.arr items)).lookup field = some (.arr items) := by
    rw [Document.lookup_set, if_pos rfl]
  have hcounts : ex.denote counts.toJson ⟨d.set field (.arr items), []⟩ =
      .obj (ofPairs (countPairs items)) := by
    rw [Executor.denote_toJson ex (by decide), eval_counts ex hlookup]
  refine ⟨ofPairs (countPairs items), ?_, nodup_foldl_addPair (d := []) List.nodup_nil,
    hitems.lookup_countPairs, fun name hname => ?_⟩
  · rw [countStages, Executor.run_append, hgather, Executor.run_cons, apply_set ex _ _ _ hcounts,
      Document.set_set]
    rfl
  · rw [Document.lookup_set, if_neg hname]

def taggedDocument : Document :=
  [("truth", .obj [("tags", .arr [.str "a", .str "b"])]),
    ("frames", .arr [.obj [("found", .obj [("detections",
      .arr [.obj [("tags", .arr [.str "a"])], .obj [("tags", .null)]])])], .null]),
    (field, .obj [("c", .int 7)])]

def taggedSources : List TagSource :=
  [⟨"truth", "truth", .sample, none⟩, ⟨"frames.found", "found", .frame, some "detections"⟩]

theorem wellFormed_taggedDocument :
    ∀ s ∈ taggedSources, s.WellFormed (taggedDocument.without field) := by
  have htruth : Path.components "truth" = ["truth"] := by decide
  have hfound : Path.components "found.detections" = ["found", "detections"] := by decide
  have hnone : Value.null.IsTagList := .inl rfl
  have hone : (Value.arr [.str "a"]).IsTagList := .inr ⟨["a"], rfl⟩
  have htwo : (Value.arr [.str "a", .str "b"]).IsTagList := .inr ⟨["a", "b"], rfl⟩
  simp only [taggedSources, List.mem_cons, List.not_mem_nil, or_false, forall_eq_or_imp, forall_eq]
  constructor
  · refine ⟨fun h => absurd h (by decide), fun root hroot => ?_⟩
    obtain rfl := List.mem_singleton.1 hroot
    constructor <;>
      simp [TagSource.labelPath, TagSource.labelsAt, htruth, taggedDocument, Document.without,
        field, crossesList, at?, get?, isList, tagsField, htwo]
  · refine ⟨fun _ => .inr rfl, fun root hroot => ?_⟩
    rcases List.mem_pair.1 hroot with rfl | rfl <;> constructor <;>
      simp [TagSource.labelPath, TagSource.labelsAt, hfound, crossesList, at?, get?, isNull, isList,
        items, tagsField, hone, hnone]

theorem run_countStages_taggedDocument :
    (∀ s ∈ taggedSources, s.WellFormed (taggedDocument.without field)) ∧
      (∀ s ∈ taggedSources, s.IsReferable (taggedDocument.without field)) ∧
      ∃ counted : Document, (default : Executor).run (countStages taggedSources) [taggedDocument] =
          [taggedDocument.set field (.obj counted)] ∧
        counted.lookup "a" = some (.int 2) ∧ counted.lookup "b" = some (.int 1) ∧
        counted.lookup "c" = none := by
  have hplain : ∀ s ∈ taggedSources, Expr.beginsWithDollar s.storagePath = false := by decide
  have hreferable : ∀ s ∈ taggedSources, s.IsReferable (taggedDocument.without field) :=
    fun s hs _ hdollar => absurd hdollar (by simp [hplain s hs])
  obtain ⟨counted, hrun, -, hcounted, -⟩ :=
    run_countStages default wellFormed_taggedDocument hreferable
  exact ⟨wellFormed_taggedDocument, hreferable, counted, hrun, by rw [hcounted]; rfl,
    by rw [hcounted]; rfl, by rw [hcounted]; rfl⟩

def dollarSource : TagSource := ⟨"$x", "$x", .sample, none⟩

def dollarDocument : Document := [("$x", .obj [("tags", .arr [.str "a"])])]

/-- The reference to the tags is that to a field of the variable `x`, which nothing binds. -/
theorem countStages_miss_dollarSource :
    dollarSource.WellFormed (dollarDocument.without field) ∧
      dollarSource.tags (dollarDocument.without field) = ["a"] ∧
      (default : Executor).run (countStages [dollarSource]) [dollarDocument] =
        [dollarDocument.set field (.obj [])] := by
  have hlabel : Path.components "$x" = ["$x"] := by decide
  have hone : (Value.arr [.str "a"]).IsTagList := .inr ⟨["a"], rfl⟩
  refine ⟨⟨fun h => absurd h (by decide), fun root hroot => ?_⟩, rfl, rfl⟩
  obtain rfl := List.mem_singleton.1 hroot
  constructor <;>
    simp [dollarSource, dollarDocument, TagSource.labelPath, TagSource.labelsAt, hlabel,
      Document.without, field, crossesList, at?, get?, isList, tagsField, hone]

end LabelTags
end MediaViews
