import ThreadCore.Core.Dispatch

/-!
# Semaphores

`down` takes a unit and waits while there is none; `up` brings one. A unit that is brought while
threads wait goes straight to the most urgent of them: it wakes up with the unit in its hands, and
nobody can take the unit away before it runs.
-/

namespace ThreadCore.Core

/-- Creates a semaphore with `value` units. -/
def newSemaphore (value : Nat) : CoreM ObjectId := do
  let s ← freshObject
  modify fun k =>
    { k with
      objects := { k.objects with semaphores := k.objects.semaphores.insert s ⟨value, .empty⟩ } }
  return s

/-- Takes a semaphore off the table. -/
def dropSemaphore (s : ObjectId) : CoreM Unit :=
  modify fun k =>
    { k with objects := { k.objects with semaphores := k.objects.semaphores.erase s } }

/-- Takes a unit, waiting until there is one. -/
def down (s : ObjectId) : CoreM Unit := do
  let t := (← ask running).id
  masked do
    let sema ← ask (semaphore s)
    if 0 < sema.value then
      changeSemaphore s fun sema => { sema with value := sema.value - 1 }
    else
      outsideHandler (.down s)
      let waiters ← ask fun _ => sema.waiters.push t
      changeSemaphore s fun sema => { sema with waiters := waiters }
      say (.waits t (.semaphore s))
      endTurn .blocked

/-- Takes a unit if there is one. -/
def tryDown (s : ObjectId) : CoreM (Except WouldBlock Unit) :=
  masked do
    let sema ← ask (semaphore s)
    if 0 < sema.value then
      changeSemaphore s fun sema => { sema with value := sema.value - 1 }
      return .ok ()
    else
      return .error {}

/-- Gives a unit to the most urgent waiter, which it returns, or adds it to the count. -/
def wakeOne (s : ObjectId) : CoreM (Option ThreadId) := do
  let sema ← ask (semaphore s)
  match ← ask (mostUrgent sema.waiters) with
  | some t =>
    changeSemaphore s fun sema => { sema with waiters := sema.waiters.remove t }
    unblock t
    return some t
  | none =>
    let value ← increment sema.value
    changeSemaphore s fun sema => { sema with value := value }
    return none

/-- Brings a unit, and gives way to the thread that got it if that is more urgent. -/
def up (s : ObjectId) : CoreM Unit := do
  let woken ← masked (wakeOne s)
  if woken.isSome then preempt

/-- Destroys a semaphore on which nobody waits. -/
def destroySemaphore (s : ObjectId) : CoreM (Except Refusal Unit) := do
  if (← ask (semaphore s)).waiters.isEmpty then
    dropSemaphore s
    return .ok ()
  else
    return .error .busy

end ThreadCore.Core
