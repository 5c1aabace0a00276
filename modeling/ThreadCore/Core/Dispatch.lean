import ThreadCore.Core.Basic

/-!
# Dispatching

Which thread has the processor. A turn ends when the running thread yields, blocks or exits. Then
the stacks of threads that have exited earlier are reclaimed, the running thread takes its new
state, and the ready thread of the greatest effective priority is dispatched, the earliest to become
ready among equals, or the idle thread if none is ready. The idle thread is never in the ready
queue.

A thread that has become ready does not take the processor by itself. Whoever made it ready calls
`preempt`, which yields if the running thread is outranked, or, inside an interrupt handler, leaves
this to the end of the handler.
-/

namespace ThreadCore.Core

/-- Takes back the stacks of the first `n` threads that have exited. -/
def reclaim : (n : Nat) → CoreM Unit
  | 0 => pure ()
  | n + 1 => do
    match (← get).dead with
    | [] => pure ()
    | victim :: rest =>
      modify fun k => { k with dead := rest }
      say (.reclaims victim.id)
      record (.freed victim.stack.frame)
      onMachine Machine.freePage
      reclaim n

/-- Takes the thread to run next from the ready queue. -/
def takeNext : CoreM ThreadId := do
  match ← ask fun k => k.mostUrgent k.ready with
  | some t =>
    modify fun k => { k with ready := k.ready.remove t }
    return t
  | none => return (← get).idle

/-- Leaves thread `source` for thread `target`, another one. A thread that has exited is no longer
live once it is left; its stack is reclaimed at the end of a later turn. -/
def switchTo (source target : ThreadId) : CoreM Unit := do
  modify fun k => { k with current := target }
  say (.switches source target)
  let leaving ← ask (thread source)
  if leaving.state = .dying then
    modify fun k => { k with threads := k.threads.erase source, dead := k.dead ++ [leaving] }
  let resumed ← ask (thread target)
  record (.switched source target)
  let (context, entry) ← onMachine (Machine.switch leaving.context resumed.context)
  changeThread target fun th => { th with context := context }
  match entry with
  | some label => record (.launched label)
  | none => pure ()

/-- Chooses the thread to run next and gives it the processor with a fresh time slice. -/
def dispatch : CoreM Unit := do
  let source := (← get).current
  let target ← takeNext
  demand ((← get).machine.interruptsOn = false) .dispatchUnmasked
  demand ((← ask (thread source)).state ≠ .running) .turnNotEnded
  let th ← ask (thread target)
  demand th.intact (.canaryLostAtDispatch target th.stack.canary)
  changeThread target fun th => { th with state := .running }
  match th.task.bind Task.label? with
  | some label => record (.activated label)
  | none => pure ()
  modify fun k => { k with slice := 0 }
  if source ≠ target then switchTo source target

/-- Ends the turn of the running thread, which goes on in state `state`, and dispatches the next. -/
def endTurn (state : ThreadState) : CoreM Unit := do
  demand ((← get).machine.interruptsOn = false) .dispatchUnmasked
  let current := (← get).current
  let th ← ask (thread current)
  demand (th.state = .running) (.turnNotRunning th.state)
  reclaim (← get).dead.length
  changeThread current fun th => { th with state := state }
  dispatch

/-- Puts a thread into the ready queue. -/
def enqueueReady (t : ThreadId) : CoreM Unit := do
  let ready ← ask fun k => k.ready.push t
  modify fun k => { k with ready := ready }

/-- Blocks the running thread until it is unblocked. Interrupts must be disabled. -/
def block : CoreM Unit := do
  outsideHandler .block
  demand ((← get).machine.interruptsOn = false) .blockUnmasked
  endTurn .blocked

/-- Makes a blocked thread ready. The running thread goes on, however urgent the other is. -/
def unblock (t : ThreadId) : CoreM Unit := do
  demand (t ≠ (← get).idle) (.unblockIdle t)
  masked do
    let th ← ask (thread t)
    demand (th.state = .blocked) (.unblockNotBlocked t th.state)
    changeThread t fun th => { th with state := .ready }
    enqueueReady t

/-- Ends the turn of the running thread, which stays ready. -/
def yieldNow : CoreM Unit := do
  outsideHandler .yield
  let t := (← ask running).id
  masked do
    if t = (← get).idle then
      endTurn .blocked
    else
      enqueueReady t
      endTurn .ready

/-- Whether a ready thread should run in place of the current one. -/
def outranked (k : Core) : Except Halt Bool := do
  match ← k.mostUrgent k.ready with
  | none => return false
  | some best =>
    if k.current = k.idle then return true
    match k.threads[k.current]? with
    | none => throw .danglingEntry
    | some _ => return k.outranks best k.current

/-- Gives way to a ready thread that outranks the running one, at once or, inside a handler, when
the handler returns. -/
def preempt : CoreM Unit := do
  if ← ask outranked then
    if (← get).machine.inHandler then
      modify fun k => { k with yieldPending := true }
    else
      yieldNow

end ThreadCore.Core
