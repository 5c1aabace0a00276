import ThreadCore.Halt
import ThreadCore.Refusal

/-!
# Busy locks

A busy lock guards a value. Whoever takes it gets a guard, reads and writes the value through the
guard, and frees the lock by unlocking the guard. A guard that is dropped instead halts the run, and
the lock stays held.
-/

namespace ThreadCore

/-- A busy lock around an `α`. -/
structure BusyLock (α : Type) where
  value : α
  held : Bool
deriving DecidableEq, Repr

namespace BusyLock

variable {α : Type}

/-- A free lock around `value`. -/
def free (value : α) : BusyLock α := ⟨value, false⟩

/-- Takes the lock if it is free. -/
def tryTake (l : BusyLock α) : Except WouldBlock (BusyLock α) :=
  if l.held then .error {} else .ok { l with held := true }

/-- Writes the value through the guard. -/
def write (l : BusyLock α) (value : α) : BusyLock α := { l with value := value }

/-- Frees the lock by its guard. -/
def unlock (l : BusyLock α) : BusyLock α := { l with held := false }

/-- What follows when a guard is dropped. -/
def dropGuard (_ : BusyLock α) : Halt := .guardDropped

end BusyLock

end ThreadCore
