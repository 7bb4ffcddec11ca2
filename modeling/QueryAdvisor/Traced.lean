import QueryAdvisor.Log

/-!
# Traced computations

A traced computation ends with a value or a fault, and leaves the events it
came across on the way.  After a fault nothing more happens, but the events
before it remain.
-/

namespace QueryAdvisor

/-- The outcome of a computation and the events on the way to it. -/
structure Traced (α : Type) where
  outcome : Except Fault α
  events : List Event

namespace Traced

variable {α β : Type}

/-- Go on with the value, unless there is a fault. -/
def andThen
    (first : Traced α)
    (next : α → Traced β) : Traced β :=
  match first.outcome with
  | .error fault => ⟨.error fault, first.events⟩
  | .ok value => ⟨(next value).outcome, first.events ++ (next value).events⟩

instance : Monad Traced where
  pure value := ⟨.ok value, []⟩
  bind := andThen

@[simp] theorem pure_eq (value : α) : (pure value : Traced α) = ⟨.ok value, []⟩ := rfl

@[simp] theorem bind_ok
    (value : α)
    (events : List Event)
    (next : α → Traced β) :
    (Traced.mk (.ok value) events >>= next) =
      ⟨(next value).outcome, events ++ (next value).events⟩ := rfl

@[simp] theorem bind_error
    (fault : Fault)
    (events : List Event)
    (next : α → Traced β) :
    (Traced.mk (.error fault) events >>= next) = ⟨.error fault, events⟩ := rfl

/-- Note an event. -/
def note
    (level : Level)
    (message : Text)
    (fields : List (Text × Text)) : Traced Unit :=
  ⟨.ok (), [⟨level, message, fields⟩]⟩

/-- Note several events. -/
def noteAll (events : List Event) : Traced Unit :=
  ⟨.ok (), events⟩

/-- Stop with a fault. -/
def fail (fault : Fault) : Traced α :=
  ⟨.error fault, []⟩

/-- A computation without events. -/
def ofExcept (outcome : Except Fault α) : Traced α :=
  ⟨outcome, []⟩

end Traced
end QueryAdvisor
