import ThreadCore.Bench.Basic
import ThreadCore.Machine.BusyLock

/-!
# Trials of a busy lock

A busy lock around a number, and at most one guard of it.
-/

namespace ThreadCore.Bench.BusyLock

/-- A lock and whether its guard is at hand. -/
structure State where
  lock : ThreadCore.BusyLock Int
  guarded : Bool
deriving DecidableEq, Repr

/-- A free lock around `value`. -/
def start (value : Int) : State := ⟨.free value, false⟩

/-- An operation on a busy lock or on its guard. -/
inductive Op
  | lock
  | tryLock
  | get
  | set (value : Int)
  | unlock
  | drop
deriving DecidableEq, Repr

/-- What an operation returns. -/
inductive Reply
  | nothing
  | number (n : Int)
  | wouldBlock
  /-- The lock is held, and taking it would wait for ever. -/
  | wouldSpin
  /-- There is no guard. -/
  | noGuard
deriving DecidableEq, Repr

/-- Takes the lock and its guard, or answers `held`. -/
def take (held : Reply) : EStateM Halt State Reply := do
  match (← get).lock.tryTake with
  | .ok taken =>
    set (⟨taken, true⟩ : State)
    return .nothing
  | .error _ => return held

/-- Goes on with the guard, if it is at hand. -/
def withGuard (f : ThreadCore.BusyLock Int → EStateM Halt State Reply) :
    EStateM Halt State Reply := do
  let s ← get
  if s.guarded then f s.lock else return .noGuard

/-- Performs an operation. -/
def step : Op → EStateM Halt State Reply
  | .lock => take .wouldSpin
  | .tryLock => take .wouldBlock
  | .get => withGuard fun lock => return .number lock.value
  | .set value =>
      withGuard fun lock => do
        set (⟨lock.write value, true⟩ : State)
        return .nothing
  | .unlock =>
      withGuard fun lock => do
        set (⟨lock.unlock, false⟩ : State)
        return .nothing
  | .drop =>
      withGuard fun lock => do
        set (⟨lock, false⟩ : State)
        throw lock.dropGuard

end ThreadCore.Bench.BusyLock
