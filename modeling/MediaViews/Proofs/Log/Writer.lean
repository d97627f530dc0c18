import MediaViews.Log.Scope
import MediaViews.View.Trace

/-! Writing a log while a computation runs. Whether a record is written is decided when it is
logged, and a scope that is left without an outcome says so. It comes to the same to collect the
records first and to judge them afterwards. -/
namespace MediaViews

structure LogWriter where
  threshold : Severity
  written : List LogRecord

def LogWriter.log (w : LogWriter) (r : LogRecord) : LogWriter :=
  if w.threshold ≤ r.severity then { w with written := w.written ++ [r] } else w

theorem LogRecord.atLeast_trace (records : List LogRecord) : atLeast .trace records = records :=
  List.filter_eq_self.2 fun _ _ => decide_eq_true (Nat.zero_le _)

namespace LogWriter

theorem log_eq (w : LogWriter) (r : LogRecord) :
    w.log r = { w with written := w.written ++ LogRecord.atLeast w.threshold [r] } := by
  unfold log
  by_cases hpasses : w.threshold ≤ r.severity
  · have hkept : LogRecord.atLeast w.threshold [r] = [r] := by simp [LogRecord.atLeast, hpasses]
    rw [if_pos hpasses, hkept]
  · have hdropped : LogRecord.atLeast w.threshold [r] = [] := by simp [LogRecord.atLeast, hpasses]
    rw [if_neg hpasses, hdropped, List.append_nil]

theorem foldl_log (w : LogWriter) (records : List LogRecord) :
    records.foldl log w =
      { w with written := w.written ++ LogRecord.atLeast w.threshold records } := by
  induction records generalizing w with
  | nil =>
    show w = { w with written := w.written ++ [] }
    rw [List.append_nil]
  | cons r records ih =>
    have hsplit : LogRecord.atLeast w.threshold (r :: records) =
        LogRecord.atLeast w.threshold [r] ++ LogRecord.atLeast w.threshold records :=
      List.filter_append [r] records
    rw [List.foldl_cons, ih, log_eq, hsplit, ← List.append_assoc]

end LogWriter

namespace Traced

variable {α β : Type}

def perform (x : Traced α) : ExceptT ViewError (StateM LogWriter) α :=
  ExceptT.mk do
    modify fun w => x.records.foldl LogWriter.log w
    return x.outcome

theorem perform_bind (x : Traced α) (f : α → Traced β) :
    perform (x >>= f) = perform x >>= fun a => perform (f a) := by
  funext w
  show (perform (bind x f)).run w =
    ExceptT.bindCont (fun a => perform (f a)) x.outcome (x.records.foldl LogWriter.log w)
  unfold bind
  cases x.outcome with
  | error e => rfl
  | ok a =>
    show ((f a).outcome, (x.records ++ (f a).records).foldl LogWriter.log w) = _
    rw [List.foldl_append]
    rfl

end Traced

structure OpenScope where
  scope : LogScope
  isFinished : Bool

namespace OpenScope

def enter (scope : LogScope) : StateM LogWriter OpenScope := do
  modify (·.log scope.start)
  return ⟨scope, false⟩

def drop (s : OpenScope) : StateM LogWriter Unit :=
  if s.isFinished then pure () else modify (·.log (s.scope.finish .incomplete))

def conclude (s : OpenScope) (outcome : ScopeEnd) : StateM LogWriter Unit := do
  modify (·.log (s.scope.finish outcome))
  drop { s with isFinished := true }

def leave (s : OpenScope) : ScopeEnd → StateM LogWriter Unit
  | .incomplete => s.drop
  | outcome => s.conclude outcome

theorem leave_eq (scope : LogScope) (outcome : ScopeEnd) :
    leave ⟨scope, false⟩ outcome = modify (·.log (scope.finish outcome)) := by
  cases outcome <;> rfl

end OpenScope
end MediaViews
