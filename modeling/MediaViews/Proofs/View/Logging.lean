import Mathlib
import MediaViews.Proofs.Log.Writer
import MediaViews.View.Compiler

/-! The log of a build. Whatever a build does and wherever it fails, its log begins with one start,
goes on with events that are no scope's, and ends with one outcome. -/
namespace MediaViews

def LogRecord.Carries (r : LogRecord) (key value : String) : Prop :=
  r.fields.filter (·.1 == key) = [(key, value)]

def Traced.LogsEvents {α : Type} (x : Traced α) : Prop :=
  ∀ r ∈ x.records, ∃ (event : LogEvent) (fields : LogFields), r = event.record fields

namespace Traced.LogsEvents

variable {α β : Type}

theorem pure (a : α) : LogsEvents (Pure.pure a) := nofun

theorem lift (outcome : Except ViewError α) : LogsEvents (Traced.lift outcome) := nofun

theorem log (event : LogEvent) (fields : LogFields) :
    LogsEvents (Traced.log (event.record fields)) := by
  intro r hr
  exact ⟨event, fields, List.mem_singleton.1 hr⟩

theorem bind {x : Traced α} {f : α → Traced β} (hx : x.LogsEvents) (hf : ∀ a, (f a).LogsEvents) :
    LogsEvents (x >>= f) := by
  intro r hr
  change r ∈ (Traced.bind x f).records at hr
  unfold Traced.bind at hr
  cases houtcome : x.outcome with
  | error e =>
    -- The second computation does not run, and so logs nothing.
    rw [houtcome] at hr
    exact hx r hr
  | ok a =>
    rw [houtcome] at hr
    rcases List.mem_append.1 hr with hr | hr
    · exact hx r hr
    · exact hf a r hr

end Traced.LogsEvents

open Traced (LogsEvents)

theorem View.logsEvents_resolveGroup (v : View) (filter : GroupFilter) :
    (v.resolveGroup filter).LogsEvents := by
  unfold View.resolveGroup
  split
  · exact .pure _
  · exact .bind (.lift _) fun _ => .bind (.log _ _) fun _ => .pure _

namespace Compiler

theorem logsEvents_tracedFilterStages (config : Config) (d : Dataset) (filters : Option Filters) :
    (tracedFilterStages config d filters).LogsEvents := by
  cases filters with
  | none => exact .pure _
  | some filters => exact .bind (.lift _) fun _ => .bind (.log _ _) fun _ => .pure _

theorem logsEvents_extend (config : Config) (v : View) (e : Extension) :
    (extend config v e).LogsEvents :=
  .bind (.lift _) fun _ => .bind (logsEvents_tracedFilterStages config v.dataset e.filters) fun _ =>
    .pure _

theorem logsEvents_applySampleFilter (v : View) (filter : Option SampleFilter) :
    (applySampleFilter v filter).LogsEvents := by
  unfold applySampleFilter
  split
  · exact .pure _
  · split
    · exact v.logsEvents_resolveGroup _
    · exact .bind (.lift _) fun _ => .pure _
    · exact .pure _

theorem logsEvents_savedView (d : Dataset) (name : String) : (savedView d name).LogsEvents :=
  .bind (.lift _) fun _ => .bind (.lift _) fun _ => .bind (.log _ _) fun _ => .pure _

theorem logsEvents_adHocView (config : Config) (d : Dataset) (r : ViewRequest) :
    (adHocView config d r).LogsEvents := by
  refine .bind (.lift _) fun base => .bind (logsEvents_applySampleFilter base r.sampleFilter) ?_
  rintro ⟨narrowed, mediaTypes⟩
  dsimp only
  split
  · exact .bind (logsEvents_extend config narrowed (r.extension mediaTypes)) fun _ => .pure _
  · exact .bind (.pure narrowed) fun _ => .pure _

theorem logsEvents_build (c : Compiler) (r : ViewRequest) : (c.build r).LogsEvents := by
  refine .bind (.lift _) fun d => ?_
  split
  · exact logsEvents_savedView d _
  · exact logsEvents_adHocView c.config d r

def scopeEvents : List String :=
  ["VIEW_BUILD_START", "VIEW_BUILD_COMPLETE", "VIEW_BUILD_FAILED", "VIEW_BUILD_INCOMPLETE"]

theorem name_not_mem_scopeEvents (event : LogEvent) : event.name ∉ scopeEvents := by
  cases event <;> decide

theorem event_not_mem_scopeEvents {c : Compiler} {r : ViewRequest} {record : LogRecord}
    (h : record ∈ (c.build r).records) : record.event ∉ scopeEvents := by
  obtain ⟨event, fields, rfl⟩ := logsEvents_build c r record h
  exact name_not_mem_scopeEvents event

/-- A build on a writer. Its scope is entered first and left last, whether the build succeeds or
not. -/
def compileOn (c : Compiler) (stamp : BuildStamp) (r : ViewRequest) :
    StateM LogWriter (Except ViewError CompiledView) := do
  let entered ← OpenScope.enter (scope stamp.id r.dataset)
  let outcome ← (c.build r).perform.run
  entered.leave (outcomeOf stamp outcome)
  return outcome

theorem run_compileOn (c : Compiler) (stamp : BuildStamp) (r : ViewRequest) (w : LogWriter) :
    (c.compileOn stamp r).run w = ((c.compile stamp r).outcome, { w with
      written := w.written ++ LogRecord.atLeast w.threshold (c.compile stamp r).records }) := by
  let built := c.build r
  let scope := scope stamp.id r.dataset
  let finish := scope.finish (outcomeOf stamp built.outcome)
  have hrun : (c.compileOn stamp r).run w = (built.outcome,
      ((OpenScope.leave ⟨scope, false⟩ (outcomeOf stamp built.outcome)).run
        (built.records.foldl LogWriter.log (w.log scope.start))).2) := rfl
  -- Judged together, the records are those of entering, building and leaving, one after the other.
  have hrecords : (c.compile stamp r).records = scope.start :: (built.records ++ [finish]) := rfl
  rw [hrun, OpenScope.leave_eq, ← LogWriter.foldl_log, hrecords, List.foldl_cons, List.foldl_append]
  rfl

def lastRecord (stamp : BuildStamp) (dataset : String) (result : Except ViewError CompiledView) :
    LogRecord :=
  (scope stamp.id dataset).finish (outcomeOf stamp result)

section LastRecord

variable (stamp : BuildStamp) (dataset : String) (result : Except ViewError CompiledView)

theorem lastRecord_ok (compiled : CompiledView) :
    lastRecord stamp dataset (.ok compiled) = ⟨.info, "VIEW_BUILD_COMPLETE",
      [("build_id", stamp.id), ("dataset", dataset), ("elapsed_ms", toString stamp.elapsedMillis),
        ("stages", toString compiled.view.stages.length)]⟩ := rfl

theorem lastRecord_error (e : ViewError) :
    lastRecord stamp dataset (.error e) = ⟨.error, "VIEW_BUILD_FAILED",
      [("build_id", stamp.id), ("dataset", dataset), ("code", e.code),
        ("reason", e.message)]⟩ := rfl

theorem lastRecord_completes_iff (count : Nat) :
    (lastRecord stamp dataset result).event = "VIEW_BUILD_COMPLETE" ∧
        (lastRecord stamp dataset result).Carries "stages" (toString count) ↔
      ∃ compiled, result = .ok compiled ∧ compiled.view.stages.length = count := by
  cases result with
  | error e =>
    have hevent : "VIEW_BUILD_FAILED" ≠ "VIEW_BUILD_COMPLETE" := by decide
    rw [lastRecord_error]
    exact iff_of_false (fun h => hevent h.1) nofun
  | ok compiled =>
    rw [lastRecord_ok]
    constructor
    · rintro ⟨-, hcarries⟩
      have hcount : toString compiled.view.stages.length = toString count :=
        (Prod.mk.inj (List.cons.inj hcarries).1).2
      exact ⟨compiled, rfl, Nat.repr_inj.1 hcount⟩
    · rintro ⟨compiled', hresult, rfl⟩
      obtain rfl := Except.ok.inj hresult
      exact ⟨rfl, rfl⟩

theorem lastRecord_fails_iff (code message : String) :
    (lastRecord stamp dataset result).event = "VIEW_BUILD_FAILED" ∧
        (lastRecord stamp dataset result).Carries "code" code ∧
        (lastRecord stamp dataset result).Carries "reason" message ↔
      ∃ e, result = .error e ∧ e.code = code ∧ e.message = message := by
  cases result with
  | ok compiled =>
    have hevent : "VIEW_BUILD_COMPLETE" ≠ "VIEW_BUILD_FAILED" := by decide
    rw [lastRecord_ok]
    exact iff_of_false (fun h => hevent h.1) nofun
  | error e =>
    rw [lastRecord_error]
    constructor
    · rintro ⟨-, hcode, hreason⟩
      exact ⟨e, rfl, (Prod.mk.inj (List.cons.inj hcode).1).2,
        (Prod.mk.inj (List.cons.inj hreason).1).2⟩
    · rintro ⟨e', hresult, rfl, rfl⟩
      obtain rfl := Except.error.inj hresult
      exact ⟨rfl, rfl, rfl⟩

theorem lastRecord_event_ne_incomplete :
    (lastRecord stamp dataset result).event ≠ "VIEW_BUILD_INCOMPLETE" := by
  cases result with
  | ok compiled =>
    rw [lastRecord_ok]
    exact show "VIEW_BUILD_COMPLETE" ≠ "VIEW_BUILD_INCOMPLETE" by decide
  | error e =>
    rw [lastRecord_error]
    exact show "VIEW_BUILD_FAILED" ≠ "VIEW_BUILD_INCOMPLETE" by decide

theorem lastRecord_carries_scope :
    (lastRecord stamp dataset result).Carries "build_id" stamp.id ∧
      (lastRecord stamp dataset result).Carries "dataset" dataset := by
  cases result <;> exact ⟨rfl, rfl⟩

end LastRecord

/-- Each build logs one start and one outcome, which is that of its result, and nothing in between
is a start or an outcome. A writer with a higher threshold writes what passes it of this log, and
changes nothing else. -/
theorem compileOn_logs_start_and_outcome (c : Compiler) (stamp : BuildStamp) (r : ViewRequest) :
    let result := (c.compile stamp r).outcome
    let full := ((c.compileOn stamp r).run ⟨.trace, []⟩).2.written
    (c.compile stamp r).records = full ∧
    (∀ w, (c.compileOn stamp r).run w = (result,
      { w with written := w.written ++ full.filter fun record => w.threshold ≤ record.severity })) ∧
    ∃ start details outcome, full = start :: details ++ [outcome] ∧
      start.event = "VIEW_BUILD_START" ∧
      (∀ record ∈ details, record.event ∉ scopeEvents) ∧
      (∀ count : Nat,
        outcome.event = "VIEW_BUILD_COMPLETE" ∧ outcome.Carries "stages" (toString count) ↔
          ∃ compiled, result = .ok compiled ∧ compiled.view.stages.length = count) ∧
      (∀ code message, outcome.event = "VIEW_BUILD_FAILED" ∧ outcome.Carries "code" code ∧
          outcome.Carries "reason" message ↔
        ∃ e, result = .error e ∧ e.code = code ∧ e.message = message) ∧
      outcome.event ≠ "VIEW_BUILD_INCOMPLETE" ∧
      ∀ record ∈ [start, outcome],
        record.Carries "build_id" stamp.id ∧ record.Carries "dataset" r.dataset := by
  have hfull :
      ((c.compileOn stamp r).run ⟨.trace, []⟩).2.written = (c.compile stamp r).records := by
    rw [run_compileOn]
    exact LogRecord.atLeast_trace _
  dsimp only
  rw [hfull]
  let result := (c.compile stamp r).outcome
  refine ⟨rfl, c.run_compileOn stamp r, (scope stamp.id r.dataset).start, (c.build r).records,
    lastRecord stamp r.dataset result, rfl, rfl, fun record => event_not_mem_scopeEvents,
    lastRecord_completes_iff stamp r.dataset result, lastRecord_fails_iff stamp r.dataset result,
    lastRecord_event_ne_incomplete stamp r.dataset result, ?_⟩
  intro record hrecord
  rcases List.mem_cons.1 hrecord with rfl | hrecord
  · exact ⟨rfl, rfl⟩
  · obtain rfl := List.mem_singleton.1 hrecord
    exact lastRecord_carries_scope stamp r.dataset result

end Compiler
end MediaViews
