import ThreadCore.Core.Lock

/-!
# Condition variables

The holder of a lock gives it up and waits until another holder of the lock signals. A signalled
thread does not become ready: it goes on to wait for the lock, as if it had tried to acquire it, and
is ready only when the lock is handed to it. So it returns from its wait as the holder of the lock.
-/

namespace ThreadCore.Core

/-- Creates a condition variable that is bound to no lock. -/
def newCondition : CoreM ObjectId := do
  let c ← freshObject
  modify fun k =>
    { k with
      objects := { k.objects with conditions := k.objects.conditions.insert c ⟨none, .empty⟩ } }
  return c

/-- Halts unless the running thread holds lock `l`, which every use of a condition variable
needs. -/
def checkHeld (use : ConditionUse) (c l : ObjectId) : CoreM Unit := do
  demand (← ask (heldByCurrent l)) (.withoutLock use c l)

/-- Gives up lock `l` and waits for a signal. The first wait binds the condition variable to its
lock. -/
def await (c l : ObjectId) : CoreM Unit := do
  outsideHandler (.await c)
  checkHeld .wait c l
  let t := (← ask running).id
  masked do
    match (← ask (condition c)).lock with
    | some bound => demand (bound = l) (.twoLocks c bound l)
    | none => changeCondition c fun cond => { cond with lock := some l }
    let waiters ← ask fun k => do (← k.condition c).waiters.push t
    changeCondition c fun cond => { cond with waiters := waiters }
    let _ ← passOn l t
    say (.waits t (.condition c))
    endTurn .blocked

/-- Moves the most urgent waiter, which it returns, over to lock `l` of the running thread. -/
def signalOne (c l : ObjectId) : CoreM (Option ThreadId) := do
  let cond ← ask (condition c)
  match ← ask (mostUrgent cond.waiters) with
  | none => return none
  | some t =>
    changeCondition c fun cond => { cond with waiters := cond.waiters.remove t }
    waitForLock t l (← get).current
    say (.signals c t)
    return some t

/-- Signals as long as there is a waiter, at most `n` times, and counts. -/
def signalMany (c l : ObjectId) : (n : Nat) → CoreM Nat
  | 0 => return 0
  | n + 1 => do
    match ← signalOne c l with
    | none => return 0
    | some _ => return (← signalMany c l n) + 1

/-- Signals the most urgent waiter. Returns whether there was one. -/
def signal (c l : ObjectId) : CoreM Bool := do
  checkHeld .signal c l
  return (← masked (signalOne c l)).isSome

/-- Signals every waiter and returns their number. -/
def broadcast (c l : ObjectId) : CoreM Nat := do
  checkHeld .broadcast c l
  masked do
    signalMany c l (← ask (condition c)).waiters.size

/-- Destroys a condition variable on which nobody waits. -/
def destroyCondition (c : ObjectId) : CoreM (Except Refusal Unit) := do
  if (← ask (condition c)).waiters.isEmpty then
    modify fun k =>
      { k with objects := { k.objects with conditions := k.objects.conditions.erase c } }
    return .ok ()
  else
    return .error .busy

end ThreadCore.Core
