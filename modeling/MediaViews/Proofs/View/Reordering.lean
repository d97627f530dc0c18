import MediaViews.Command.Reply
import MediaViews.Proofs.SortedMap
import MediaViews.Proofs.View.Faults
import MediaViews.Proofs.View.Phases
import MediaViews.Proofs.View.Resubmission

/-! The order in which a request is written. The order of filters does not matter, since they are
held in a sorted map, and the order of further stages is that of the stages in the view. -/
namespace MediaViews

theorem SortedMap.keys_of_pairs {α : Type} {each : Json → Option α} {members : List (String × Json)}
    {pairs : List (String × α)}
    (h : members.mapM (fun m => (each m.2).map (m.1, ·)) = some pairs) :
    pairs.map (·.1) = members.map (·.1) := by
  have hpairs := Outcome.mapM_eq_some_iff.1 h
  clear h
  induction hpairs with
  | nil => rfl
  | cons hpair _ ih =>
    obtain ⟨a, -, rfl⟩ := Option.map_eq_some_iff.1 hpair
    rw [List.map_cons, List.map_cons, ih]

theorem Json.map?_obj_of_perm {α : Type} (each : Json → Option α) {ms ns : List (String × Json)}
    (h : ms.Perm ns) (hkeys : (ms.map (·.1)).Nodup) :
    map? each (.obj ms) = map? each (.obj ns) := by
  have hread {xs ys : List (String × Json)} (hperm : xs.Perm ys) (hnodup : (xs.map (·.1)).Nodup)
      {m : SortedMap α} (hm : map? each (.obj xs) = some m) : map? each (.obj ys) = some m := by
    obtain ⟨pairs, hpairs, hm⟩ := Option.bind_eq_some_iff.1 hm
    obtain rfl := Option.some.inj hm
    obtain ⟨pairs', hpairs', hsame⟩ := Outcome.exists_mapM_eq_some_of_perm hperm hpairs
    have hdistinct : (pairs.map (·.1)).Nodup := by rwa [SortedMap.keys_of_pairs hpairs]
    show (ys.mapM _ >>= fun pairs => some (SortedMap.ofList pairs)) = _
    rw [hpairs', SortedMap.ofList_eq_of_perm hsame hdistinct]
    rfl
  refine Option.ext fun m => ⟨hread h hkeys, hread h.symm ?_⟩
  exact (h.map _).nodup_iff.1 hkeys

namespace Filter

/-- The same written filter, with its members in any order. -/
inductive Reordered : Json → Json → Prop
  | refl (j : Json) : Reordered j j
  | members {ms ns : List (String × Json)} (h : ms.Perm ns) : Reordered (.obj ms) (.obj ns)

theorem ofJson?_congr {a b : Json}
    (h : Option.Rel (Json.AgreeOn fieldNames) (a.record? fieldNames) (b.record? fieldNames)) :
    ofJson? a = ofJson? b := by
  unfold ofJson?
  generalize a.record? fieldNames = fa at h ⊢
  generalize b.record? fieldNames = fb at h ⊢
  cases h with
  | none => rfl
  | some hagree =>
    simp only [Option.bind_eq_bind, Option.bind_some]
    rw [hagree "values" (by decide), hagree "range" (by decide), hagree "true" (by decide),
      hagree "false" (by decide), hagree "nan" (by decide), hagree "inf" (by decide),
      hagree "ninf" (by decide), hagree "none" (by decide), hagree "exclude" (by decide),
      hagree "isMatching" (by decide), hagree "search" (by decide)]

theorem ofJson?_of_reordered {a b : Json} (h : Reordered a b) : ofJson? a = ofJson? b := by
  cases h with
  | refl => rfl
  | members h => exact ofJson?_congr (Json.record?_perm h)

end Filter

namespace Filters

inductive Reordered : Json → Json → Prop
  | refl (j : Json) : Reordered j j
  | paths {ms ns mixed : List (String × Json)} (hkeys : (ms.map (·.1)).Nodup)
      (hfilters : List.Forall₂ (fun m n => m.1 = n.1 ∧ Filter.Reordered m.2 n.2) ms mixed)
      (hpaths : mixed.Perm ns) : Reordered (.obj ms) (.obj ns)

theorem ofJson?_of_reordered {a b : Json} (h : Reordered a b) : ofJson? a = ofJson? b := by
  cases h with
  | refl => rfl
  | @paths ms ns mixed hkeys hfilters hpaths =>
    have hmixed : mixed.map (·.1) = ms.map (·.1) ∧
        mixed.mapM (fun m => (Filter.ofJson? m.2).map (m.1, ·)) =
          ms.mapM fun m => (Filter.ofJson? m.2).map (m.1, ·) := by
      clear hkeys hpaths
      induction hfilters with
      | nil => exact ⟨rfl, rfl⟩
      | cons hm _ ih =>
        rw [List.map_cons, List.map_cons, List.mapM_cons, List.mapM_cons, ih.1, ih.2, hm.1,
          Filter.ofJson?_of_reordered hm.2]
        exact ⟨rfl, rfl⟩
    have hread : ofJson? (.obj ms) = ofJson? (.obj mixed) := by
      simp only [ofJson?, Json.map?, Json.members?, Option.bind_eq_bind, Option.bind_some, hmixed.2]
    rw [hread]
    exact Json.map?_obj_of_perm Filter.ofJson? hpaths (by rwa [hmixed.1])

theorem fault?_eq_none_iff_of_reordered {a b : Json} (h : Reordered a b) :
    fault? a = none ↔ fault? b = none := by
  rw [explains, explains, ofJson?_of_reordered h]

theorem optional_of_reordered {a b : Json} (h : Reordered a b) :
    Json.optional ofJson? (some a) = Json.optional ofJson? (some b) := by
  cases h with
  | refl => rfl
  | paths hkeys hfilters hpaths =>
    exact congrArg (Option.map some) (ofJson?_of_reordered (.paths hkeys hfilters hpaths))

end Filters

namespace ViewRequest

abbrev Opening (name : String) (request : Json → Json) : Prop := Json.Opening fieldNames name request

theorem ofJson?_of_reordered {request : Json → Json} (h : Opening "filters" request) {a b : Json}
    (hfilters : Filters.Reordered a b) : ofJson? (request a) = ofJson? (request b) := by
  rcases Json.record?_opening h (by decide) (by decide) with hnone | ⟨field, hfield⟩
  · unfold ofJson?
    rw [hnone, hnone]
  · unfold ofJson?
    rw [hfield, hfield]
    simp only [Option.bind_eq_bind, Option.bind_some, Function.update, String.reduceEq, dite_false,
      dite_true, eq_rec_constant, Filters.optional_of_reordered hfilters]

theorem writtenFault?_of_reordered {request : Json → Json} (h : Opening "filters" request)
    {a b : Json} (hfilters : Filters.Reordered a b) :
    writtenFault? (request a) = writtenFault? (request b) ∨
      ∃ fault fault', Filters.fault? a = some fault ∧ Filters.fault? b = some fault' ∧
        writtenFault? (request a) = some fault ∧ writtenFault? (request b) = some fault' := by
  have hboth := Filters.fault?_eq_none_iff_of_reordered hfilters
  cases hfilters with
  | refl => exact .inl rfl
  | @paths ms ns mixed hkeys hsame hpaths =>
    have hopening : Json.Opening (fieldFaults.map (·.1)) "filters" request := h
    have hfield : ("filters", Json.nullableFault? Filters.fault?) ∈ fieldFaults := by
      simp [fieldFaults]
    obtain ⟨front, back, hfault⟩ :=
      Json.recordFault?_opening hopening (by decide) hfield "ViewRequest"
    have hfound (members : List (String × Json)) : writtenFault? (request (.obj members)) =
        front.or ((Filters.fault? (.obj members)).or back) := hfault _
    rw [hfound, hfound]
    cases front with
    | some fault => exact .inl rfl
    | none =>
      cases hms : Filters.fault? (.obj ms) with
      | none =>
        rw [hboth.1 hms]
        exact .inl rfl
      | some fault =>
        obtain ⟨fault', hns⟩ := Option.ne_none_iff_exists'.1 (mt hboth.2 (by simp [hms]))
        rw [hns]
        exact .inr ⟨fault, fault', rfl, rfl, rfl, rfl⟩

/-- Written requests that are reordered are decoded to the same request, or both refused. Then both
have the same fault, unless it is one of the filters: each has the first one in its own order. -/
theorem decode_of_reordered {request : Json → Json} (h : Opening "filters" request) {a b : Json}
    (hfilters : Filters.Reordered a b) :
    (∃ r, decode (request a) = .ok r ∧ decode (request b) = .ok r) ∨
      ∃ fault fault', decode (request a) = .error fault ∧ decode (request b) = .error fault' ∧
        (fault = fault' ∨ Filters.fault? a = some fault ∧ Filters.fault? b = some fault') := by
  have hread := ofJson?_of_reordered h hfilters
  cases hrequest : ofJson? (request a) with
  | some r => exact .inl ⟨r, by rw [decode, hrequest], by rw [decode, ← hread, hrequest]⟩
  | none =>
    have habsent : absentDataset (request a) = absentDataset (request b) := by cases h <;> rfl
    have ha := decode_of_ofJson?_eq_none hrequest
    have hb := decode_of_ofJson?_eq_none (hread ▸ hrequest)
    rcases writtenFault?_of_reordered h hfilters with
      hsame | ⟨fault, fault', hfault, hfault', hwritten, hwritten'⟩
    · exact .inr ⟨_, _, ha, hb, .inl (by rw [hsame, habsent])⟩
    · rw [hwritten] at ha
      rw [hwritten'] at hb
      exact .inr ⟨fault, fault', ha, hb, .inr ⟨hfault, hfault'⟩⟩

theorem ofJson?_extendedStages {request : Json → Json} (h : Opening "extended_stages" request)
    {entries : List (String × Json)} {r : ViewRequest}
    (hr : ofJson? (request (.obj entries)) = some r) :
    r.extendedStages = some entries ∧ ∀ entries',
      ofJson? (request (.obj entries')) = some { r with extendedStages := some entries' } := by
  rcases Json.record?_opening h (by decide) (by decide) with hnone | ⟨field, hfield⟩
  · unfold ofJson? at hr
    rw [hnone] at hr
    cases hr
  · have hmembers (entries : List (String × Json)) :
        Json.optional Json.members? (some (.obj entries)) = some (some entries) := rfl
    unfold ofJson? at hr ⊢
    simp only [hfield, Option.bind_eq_bind, Option.bind_some, Function.update, String.reduceEq,
      dite_false, dite_true, eq_rec_constant, hmembers, Option.bind_eq_some_iff] at hr ⊢
    obtain ⟨dataset, hdataset, viewName, hviewName, stages, hstages, filters, hfilters, paginated,
      hpaginated, sampleFilter, hsampleFilter, reload, hreload, hr⟩ := hr
    obtain rfl := Option.some.inj hr
    exact ⟨rfl, fun entries' => ⟨dataset, hdataset, viewName, hviewName, stages, hstages, filters,
      hfilters, paginated, hpaginated, sampleFilter, hsampleFilter, reload, hreload, rfl⟩⟩

end ViewRequest

namespace Compiler

variable {entries entries' : List (String × Json)}

theorem extend_of_perm {config : Config} {v v' : View} {e : Extension}
    (hentries : e.extendedStages = some entries) (hperm : entries.Perm entries')
    (h : (extend config v e).outcome = .ok v') :
    ∃ stages stages' after, Stage.AreDecoded entries stages ∧ Stage.AreDecoded entries' stages' ∧
      v'.stages = v.stages ++ stages ++ after ∧
      (extend config v { e with extendedStages := some entries' }).outcome =
        .ok { v' with stages := v.stages ++ stages' ++ after } := by
  obtain ⟨stages, hstages, h⟩ := Traced.exists_of_outcome_bind_eq_ok h
  obtain ⟨filtered, hfiltered, h⟩ := Traced.exists_of_outcome_bind_eq_ok h
  obtain rfl := Except.ok.inj h
  rw [hentries] at hstages
  have hdecoded : Stage.AreDecoded entries stages :=
    Outcome.forall₂_of_mapM_eq_ok (Outcome.exists_of_mapError_eq_ok hstages)
  obtain ⟨stages', hdecoded', -⟩ := List.perm_comp_forall₂ hperm.symm hdecoded
  have hstages' : (extendedStages entries').mapError ViewError.stage = .ok stages' := by
    rw [extendedStages, Outcome.mapM_eq_ok_of_forall₂ hdecoded']
    rfl
  refine ⟨stages, stages', projection config v e ++ (filtered ++ countStages config v e), hdecoded,
    hdecoded', by simp [View.append], ?_⟩
  have hlifted : (Traced.lift ((extendedStages entries').mapError ViewError.stage)).outcome =
      .ok stages' := hstages'
  rw [extend, Option.getD_some, Traced.outcome_bind hlifted, Traced.outcome_bind hfiltered]
  show Except.ok (v.append (stages' ++ projection config v e ++ filtered ++
    countStages config v e)) = _
  simp [View.append]

theorem outcome_adHocView {config : Config} {d : Dataset} {r : ViewRequest} {base narrowed view : View}
    {types : Option (List MediaType)} (hneeds : r.needsExtension)
    (hbase : (Traced.lift ((baseView d r).mapError ViewError.stage)).outcome = .ok base)
    (hnarrowed : (applySampleFilter base r.sampleFilter).outcome = .ok (narrowed, types))
    (hview : (extend config narrowed (r.extension types)).outcome = .ok view) :
    (adHocView config d r).outcome = .ok ⟨view, types⟩ := by
  rw [adHocView, Traced.outcome_bind hbase, Traced.outcome_bind hnarrowed]
  dsimp only
  rw [if_pos hneeds, Traced.outcome_bind hview]
  rfl

theorem compile_of_perm {c : Compiler} {stamp : BuildStamp} {r : ViewRequest}
    {compiled : CompiledView} (hname : r.viewName = none) (hentries : r.extendedStages = some entries)
    (hperm : entries.Perm entries') (h : (c.compile stamp r).outcome = .ok compiled) :
    ∃ before stages stages' after, Stage.AreDecoded entries stages ∧
      Stage.AreDecoded entries' stages' ∧ compiled.view.stages = before ++ stages ++ after ∧
      (c.compile stamp { r with extendedStages := some entries' }).outcome =
        .ok { compiled with
          view := { compiled.view with stages := before ++ stages' ++ after } } := by
  obtain ⟨d, hd, h⟩ := Traced.exists_of_outcome_bind_eq_ok h
  rw [hname] at h
  obtain ⟨base, hbase, h⟩ := Traced.exists_of_outcome_bind_eq_ok h
  obtain ⟨⟨narrowed, types⟩, hnarrowed, h⟩ := Traced.exists_of_outcome_bind_eq_ok h
  have hneeds : r.needsExtension := by simp [ViewRequest.needsExtension, hentries]
  dsimp only at h
  rw [if_pos hneeds] at h
  obtain ⟨view, hview, h⟩ := Traced.exists_of_outcome_bind_eq_ok h
  obtain rfl := Except.ok.inj h
  obtain ⟨stages, stages', after, hdecoded, hdecoded', hstages, hextended⟩ :=
    extend_of_perm (e := r.extension types) hentries hperm hview
  refine ⟨narrowed.stages, stages, stages', after, hdecoded, hdecoded', hstages, ?_⟩
  have hadHoc := outcome_adHocView (r := { r with extendedStages := some entries' })
    (by simp [ViewRequest.needsExtension]) hbase hnarrowed hextended
  show (build c { r with extendedStages := some entries' }).outcome = _
  rw [build, Traced.outcome_bind hd, hname]
  exact hadHoc

/-- Requests that differ in the order of their filters only, or in that of the members of a filter,
have the same reply, unless they are refused: then each is told the fault that is first in its own
order, if it is one of the filters. Requests that differ in the order of their further stages have
views that differ in the order of these stages only. -/
theorem reply_of_reordered :
    (∀ (request : Json → Json) (a b : Json), ViewRequest.Opening "filters" request →
      Filters.Reordered a b → ∀ c : Compiler,
        (∃ r, ViewRequest.ofJson? (request a) = some r ∧
          Reply.ofJson c (request a) = .ofRequest c r ∧
          Reply.ofJson c (request b) = .ofRequest c r) ∨
        ∃ fault fault',
          Reply.ofJson c (request a) = .failure (.request (.undecodable fault)) ∧
          Reply.ofJson c (request b) = .failure (.request (.undecodable fault')) ∧
          (fault = fault' ∨ Filters.fault? a = some fault ∧ Filters.fault? b = some fault')) ∧
    ∀ (request : Json → Json) (entries entries' : List (String × Json)),
      ViewRequest.Opening "extended_stages" request → entries.Perm entries' →
      ∀ r, ViewRequest.ofJson? (request (.obj entries)) = some r → r.viewName = none →
      ∀ (c : Compiler) (stamp : BuildStamp) (compiled : CompiledView),
        (c.compile stamp r).outcome = .ok compiled →
        ∃ r' before stages stages' after, ViewRequest.ofJson? (request (.obj entries')) = some r' ∧
          Stage.AreDecoded entries stages ∧ Stage.AreDecoded entries' stages' ∧
          compiled.view.stages = before ++ stages ++ after ∧
          (c.compile stamp r').outcome = .ok { compiled with
            view := { compiled.view with stages := before ++ stages' ++ after } } := by
  refine ⟨fun request a b hrequest hfilters c => ?_,
    fun request entries entries' hrequest hperm r hr hname c stamp compiled hcompiled => ?_⟩
  · rcases ViewRequest.decode_of_reordered hrequest hfilters with
      ⟨r, ha, hb⟩ | ⟨fault, fault', ha, hb, hfault⟩
    · exact .inl ⟨r, ViewRequest.decode_eq_ok_iff.1 ha, by rw [Reply.ofJson, ha],
        by rw [Reply.ofJson, hb]⟩
    · exact .inr ⟨fault, fault', by rw [Reply.ofJson, ha], by rw [Reply.ofJson, hb], hfault⟩
  · obtain ⟨hentries, hreordered⟩ := ViewRequest.ofJson?_extendedStages hrequest hr
    obtain ⟨before, stages, stages', after, hdecoded, hdecoded', hstages, hbuilt⟩ :=
      compile_of_perm hname hentries hperm hcompiled
    exact ⟨_, before, stages, stages', after, hreordered entries', hdecoded, hdecoded', hstages,
      hbuilt⟩

def writtenWith (name : String) (field : Json) : Json :=
  .obj [("dataset", .str "measured"), (name, field)]

theorem opening_writtenWith (name : String) : ViewRequest.Opening name (writtenWith name) :=
  .member [("dataset", .str "measured")] []

def keptTag : Json := .obj [("values", .arr [.str "kept"])]

def otherThanCats : List (String × Json) := [("values", .arr [.str "cat"]), ("exclude", .bool true)]

def tenAtMost : String × Json := ("stages.Limit", .obj [("limit", .int 10)])

def notTheFirstFive : String × Json := ("stages.Skip", .obj [("skip", .int 5)])

theorem reply_of_reordered_measured :
    (∃ r, ViewRequest.ofJson? (writtenWith "filters"
        (.obj [("tags", keptTag), ("gt.detections.label", .obj otherThanCats)])) = some r ∧
      Reply.ofJson measuredCompiler (writtenWith "filters"
        (.obj [("gt.detections.label", .obj otherThanCats.reverse), ("tags", keptTag)])) =
      .ofRequest measuredCompiler r) ∧
    ∃ before stages after r compiled,
      ViewRequest.ofJson? (writtenWith "extended_stages"
        (.obj [notTheFirstFive, tenAtMost])) = some r ∧
      Stage.AreDecoded [notTheFirstFive, tenAtMost] stages ∧
      (measuredCompiler.compile ⟨"first", 0⟩ r).outcome = .ok compiled ∧
      compiled.view.stages = before ++ stages ++ after := by
  obtain ⟨hfilters, hstages⟩ := reply_of_reordered
  constructor
  · have hmixed : List.Forall₂ (fun m n => m.1 = n.1 ∧ Filter.Reordered m.2 n.2)
        [("tags", keptTag), ("gt.detections.label", .obj otherThanCats)]
        [("tags", keptTag), ("gt.detections.label", .obj otherThanCats.reverse)] :=
      .cons ⟨rfl, .refl _⟩ (.cons ⟨rfl, .members (List.reverse_perm _).symm⟩ .nil)
    rcases hfilters _ _ _ (opening_writtenWith "filters") (.paths (by decide) hmixed (.swap ..))
      measuredCompiler with ⟨r, hr, -, hreply⟩ | ⟨fault, fault', hrefused, -⟩
    · exact ⟨r, hr, hreply⟩
    · cases congrArg Reply.outcome hrefused
  · obtain ⟨r, hr, hname, compiled, hcompiled⟩ : ∃ r, ViewRequest.ofJson?
        (writtenWith "extended_stages" (.obj [tenAtMost, notTheFirstFive])) = some r ∧
        r.viewName = none ∧ ∃ compiled,
          (measuredCompiler.compile ⟨"first", 0⟩ r).outcome = .ok compiled :=
      ⟨_, rfl, rfl, _, rfl⟩
    obtain ⟨r', before, stages, stages', after, hr', -, hdecoded', -, hbuilt⟩ :=
      hstages _ _ _ (opening_writtenWith "extended_stages") (.swap ..) r hr hname measuredCompiler
        ⟨"first", 0⟩ compiled hcompiled
    exact ⟨before, stages', after, r', _, hr', hdecoded', hbuilt, rfl⟩

def unreadableFilters : List (String × Json) :=
  [("a", .obj [("exclude", .int 3)]), ("b", .obj [("values", .int 7)])]

def taggedTwice (first second : String) : String :=
  "\x7b\"dataset\": \"measured\", \"filters\": \x7b" ++
    "\"tags\": \x7b\"values\": [\"" ++ first ++ "\"]\x7d, " ++
    "\"tags\": \x7b\"values\": [\"" ++ second ++ "\"]\x7d\x7d\x7d"

/-- What is told of filters that are refused depends on their order, and of a path that is given twice
the last filter counts. -/
theorem reply_depends_on_order :
    ((Reply.ofJson measuredCompiler (writtenWith "filters" (.obj unreadableFilters))).outcome.mapError
        CommandError.message =
      .error "Invalid request: invalid type: integer `3`, expected a boolean" ∧
    (Reply.ofJson measuredCompiler
        (writtenWith "filters" (.obj unreadableFilters.reverse))).outcome.mapError
        CommandError.message =
      .error "Invalid request: invalid type: integer `7`, expected a sequence") ∧
    (Reply.ofText measuredCompiler (taggedTwice "kept" "lost")).outcome ≠
      (Reply.ofText measuredCompiler (taggedTwice "lost" "kept")).outcome := by
  refine ⟨⟨?_, ?_⟩, ?_⟩
  · rfl
  · rfl
  · decide +kernel

end Compiler
end MediaViews
