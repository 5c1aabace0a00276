import ThreadCore.Core.Priority

/-!
# Locks and donation

A lock has one holder, who alone may release it. A thread that has to wait for a lock donates its
effective priority to the holder, and if the holder waits for a lock in turn, to the holder of that
one, and so on along the chain of waits. A holder thus runs at least as urgently as anybody behind
it.

A released lock goes straight to its most urgent waiter. The old holder loses the donations it had
through this lock, and the waiters that are left donate to the new holder.

A chain of waits that leads back to the thread that is about to wait is a deadlock and halts the
run.
-/

namespace ThreadCore.Core

/-- Creates a free lock. -/
def newLock : CoreM ObjectId := do
  let l ← freshObject
  modify fun k =>
    { k with objects := { k.objects with locks := k.objects.locks.insert l ⟨none, .empty⟩ } }
  return l

/-- Makes `donor` a donor of `t`. -/
def addDonor (t donor : ThreadId) : CoreM Unit := do
  let donors ← ask fun k => do (← k.thread t).donors.push donor
  changeThread t fun th => { th with donors := donors }

/-- Carries the priority of `donor` along the chain of waits that starts at `waiter`, over at most
`links` holders. -/
def donateAlong (donor : ThreadId) : (links : Nat) → (waiter : ThreadId) → CoreM Unit
  | links, waiter => do
    match (← ask (thread waiter)).waitsFor with
    | none => pure ()
    | some l =>
      match (← ask (lock l)).holder with
      | none => throw (.waitsForFree waiter l)
      | some holder =>
        demand (holder ≠ donor) (.deadlock donor l)
        match links with
        | 0 => throw (.endlessWait donor)
        | links + 1 =>
          let priority ← refreshPriority holder
          say (.donates waiter holder priority)
          donateAlong donor links holder

/-- Carries the priority of a thread that has begun to wait along its chain of waits. A chain
without a cycle has no more holders than there are live threads. -/
def donate (donor : ThreadId) : CoreM Unit := do
  donateAlong donor (← get).threads.size donor

/-- Lets `t` wait for lock `l`, which `holder` holds, and donate to the holder. -/
def waitForLock (t : ThreadId) (l : ObjectId) (holder : ThreadId) : CoreM Unit := do
  let waiters ← ask fun k => do (← k.lock l).waiters.push t
  changeLock l fun lk => { lk with waiters := waiters }
  changeThread t fun th => { th with waitsFor := some l }
  addDonor holder t
  donate t

/-- Acquires a lock, waiting until it is free. -/
def acquire (l : ObjectId) : CoreM Unit := do
  outsideHandler (.acquire l)
  let t := (← ask running).id
  masked do
    match (← ask (lock l)).holder with
    | none => changeLock l fun lk => { lk with holder := some t }
    | some holder =>
      demand (holder ≠ t) (.acquiredTwice t l)
      waitForLock t l holder
      say (.waitsForHolder t l holder)
      endTurn .blocked

/-- Acquires a lock if it is free. -/
def tryAcquire (l : ObjectId) : CoreM (Except WouldBlock Unit) := do
  let t := (← ask running).id
  masked do
    match (← ask (lock l)).holder with
    | none =>
      changeLock l fun lk => { lk with holder := some t }
      return .ok ()
    | some _ => return .error {}

/-- Takes lock `l` from `holder` and hands it to its most urgent waiter, which it returns. -/
def passOn (l : ObjectId) (holder : ThreadId) : CoreM (Option ThreadId) := do
  let lk ← ask (lock l)
  demand (lk.holder = some holder) (.releasedByOther holder l lk.holder)
  changeLock l fun lk => { lk with holder := none }
  changeThread holder fun th =>
    { th with donors := th.donors.keep fun donor => donor ∉ lk.waiters }
  let _ ← refreshPriority holder
  match ← ask (mostUrgent lk.waiters) with
  | none => return none
  | some next =>
    changeLock l fun lk => { lk with holder := some next, waiters := lk.waiters.remove next }
    changeThread next fun th => { th with waitsFor := none }
    (lk.waiters.entries.filter fun donor => donor ≠ next).forM (addDonor next)
    let _ ← refreshPriority next
    unblock next
    say (.handsOver l holder next)
    return some next

/-- Releases a lock, and gives way to a thread that is now more urgent. -/
def release (l : ObjectId) : CoreM Unit := do
  let t := (← ask running).id
  let _ ← masked (passOn l t)
  preempt

/-- Whether the running thread holds a lock. -/
def heldByCurrent (l : ObjectId) (k : Core) : Except Halt Bool := do
  let lk ← k.lock l
  return lk.holder = some (← k.running).id

/-- Destroys a lock that nobody holds. -/
def destroyLock (l : ObjectId) : CoreM (Except Refusal Unit) := do
  match (← ask (lock l)).holder with
  | some _ => return .error .busy
  | none =>
    modify fun k => { k with objects := { k.objects with locks := k.objects.locks.erase l } }
    return .ok ()

end ThreadCore.Core
