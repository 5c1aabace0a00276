import ThreadCore.Core.Family
import ThreadCore.Core.Priority

/-!
# The lifetime of threads and of the core

Booting makes a thread of the code that runs, called `main`, and creates the idle thread. Every
other thread is created by the running one, on a page of its own, and lives until it exits. When the
core shuts down all stacks are taken back.
-/

namespace ThreadCore.Core

/-- Takes a page for a stack. -/
def takeStack : CoreM (Option Page) := do
  match ← onMachine Machine.takePage with
  | some page =>
    record (.allocated page.frame)
    return some page
  | none =>
    record .refused
    return none

/-- Registers a new thread, which is blocked. -/
def register (name : String) (priority : Priority) (entry : Option String) (task : Option Task) :
    CoreM (Except Refusal ThreadId) := do
  match ← takeStack with
  | none => return .error .noMemory
  | some page =>
    let t := (← get).nextThread
    let next ← increment t
    let th := Thread.create t (Name.clip name) priority page entry task
    modify fun k => { k with nextThread := next, threads := k.threads.insert t th }
    return .ok t

/-- Creates a thread that starts with the function labelled `name`, and gives way to it if it is
more urgent than its creator. The name is cut as soon as it is given, and again when the thread is
made. -/
def spawn (name : String) (priority : Priority) (task : Option Task) :
    CoreM (Except Refusal ThreadId) := do
  checkPriority priority
  let creator := (← ask running).id
  match ← register (Name.clip name) priority (some name) task with
  | .error refusal =>
    say (.creationRefused creator (Name.clip name) refusal)
    return .error refusal
  | .ok t =>
    adopt creator t
    say (.created creator t (Name.clip name) priority)
    unblock t
    preempt
    return .ok t

/-- Ends the running thread. It holds no lock. -/
def exit : CoreM Unit := do
  outsideHandler .exit
  let t := (← ask running).id
  demand (t ≠ (← get).idle) (.exitIdle t)
  match (← get).objects.heldBy t with
  | some l => throw (.exitHolding t l)
  | none => pure ()
  leaveFamily t
  say (.exits t (← ask (thread t)).name)
  masked (endTurn .dying)

/-- Takes back the stacks of all threads: the dead in the order they exited, then the live by
number. -/
def shutDown : CoreM Unit :=
  masked do
    let k ← get
    modify fun k => { k with dead := [], threads := ∅ }
    (k.dead ++ k.threads.values).forM fun th => do
      record (.freed th.stack.frame)
      onMachine Machine.freePage

/-- Boots the core. Interrupts are disabled before and enabled after. If there is no page for a
stack, what was taken is given back. -/
def boot : CoreM (Except Refusal Unit) := do
  demand ((← get).machine.interruptsOn = false) .bootUnmasked
  match ← register "main" (← get).config.mainPriority none none with
  | .error refusal =>
    shutDown
    return .error refusal
  | .ok main =>
    changeThread main fun th => { th with state := .running }
    modify fun k => { k with current := main }
    match ← register "idle" 0 none none with
    | .error refusal =>
      shutDown
      return .error refusal
    | .ok idle =>
      modify fun k => { k with idle := idle }
      onMachine (modify (·.withInterrupts true))
      say (.booted main idle)
      return .ok ()

end ThreadCore.Core
