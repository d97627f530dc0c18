import MediaViews.Log.Record

/-! Activities that are logged at their start and at their end. -/
namespace MediaViews

structure LogScope where
  name : String
  fields : LogFields

inductive ScopeEnd where
  | complete (elapsedMillis : Nat) (extra : LogFields)
  | failed (code reason : String)
  | incomplete

namespace LogScope

def record (scope : LogScope) (severity : Severity) (phase : String) (extra : LogFields) :
    LogRecord :=
  ⟨severity, scope.name ++ "_" ++ phase, scope.fields ++ extra⟩

def start (scope : LogScope) : LogRecord := scope.record .info "START" []

def finish (scope : LogScope) : ScopeEnd → LogRecord
  | .complete elapsedMillis extra =>
    scope.record .info "COMPLETE" (("elapsed_ms", toString elapsedMillis) :: extra)
  | .failed code reason => scope.record .error "FAILED" [("code", code), ("reason", reason)]
  | .incomplete => scope.record .warn "INCOMPLETE" []

end LogScope
end MediaViews
