import MediaViews.Log.Record
import MediaViews.View.Error

/-! Computations that log as they go and may fail. What they log is part of their value, in full
detail; what is written of it is decided afterwards. -/
namespace MediaViews

structure Traced (α : Type) where
  records : List LogRecord
  outcome : Except ViewError α

namespace Traced

variable {α β : Type}

def bind (x : Traced α) (f : α → Traced β) : Traced β :=
  match x.outcome with
  | .error e => ⟨x.records, .error e⟩
  | .ok a => ⟨x.records ++ (f a).records, (f a).outcome⟩

instance : Monad Traced where
  pure a := ⟨[], .ok a⟩
  bind := bind

def log (record : LogRecord) : Traced Unit := ⟨[record], .ok ()⟩

def lift (outcome : Except ViewError α) : Traced α := ⟨[], outcome⟩

end Traced
end MediaViews
