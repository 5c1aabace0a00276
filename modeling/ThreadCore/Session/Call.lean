import ThreadCore.Core.Audit
import ThreadCore.Core.Condition
import ThreadCore.Core.Interrupt
import ThreadCore.Core.Lifetime

/-!
# Calls

A session drives a core from outside. It keeps the handles of the objects it has created, by kind
and in order, and calls name an object by its position there, so a call can only reach what the
session created. A destroyed object keeps its position. The session also keeps a stack of explicit
guards, sections with interrupts disabled that it opens and closes by hand.

Every call acts in the name of the running thread, and after a switch the next call acts in the name
of the thread that got the processor.
-/

namespace ThreadCore

/-- A call on a session. -/
inductive Call
  -- Threads.
  | create (name : String) (priority : Priority)
  | spawn (name : String) (priority : Option Priority) (task : Option Task)
  | exit
  | yield
  | block
  | unblock (thread : ThreadId)
  | setPriority (priority : Priority)
  | getPriority
  | self
  | name
  | idle
  | current
  | thread (thread : ThreadId)
  /-- Overwrites a byte of the stack of a live thread. -/
  | overwrite (thread : ThreadId) (offset : Nat) (byte : UInt8)
  -- The core as a whole.
  | config
  | usage
  | printUsage
  | validate
  -- Time and interrupts.
  | sleepUntil (tick : Nat)
  | sleepFor (ticks : Nat)
  | wakeSleepers (now : Nat)
  | advance (ticks : Nat)
  | timer
  | tick (count : Nat)
  | yieldOnReturn
  | openGuard
  | closeGuard
  | enableInterrupts
  | disableInterrupts
  | setHandler (on : Bool)
  -- Semaphores.
  | newSemaphore (value : Nat)
  | down (semaphore : Nat)
  | tryDown (semaphore : Nat)
  | up (semaphore : Nat)
  | semaphoreValue (semaphore : Nat)
  | semaphoreWaiters (semaphore : Nat)
  | destroySemaphore (semaphore : Nat)
  -- Locks.
  | newLock
  | acquire (lock : Nat)
  | tryAcquire (lock : Nat)
  | release (lock : Nat)
  | heldByCurrent (lock : Nat)
  | holder (lock : Nat)
  | lockWaiters (lock : Nat)
  | destroyLock (lock : Nat)
  -- Condition variables.
  | newCondition
  | await (condition lock : Nat)
  | signal (condition lock : Nat)
  | broadcast (condition lock : Nat)
  | conditionWaiters (condition : Nat)
  | destroyCondition (condition : Nat)
  -- Families.
  | parent
  | children
  | exitStatus
  | setExitStatus (status : Int32)
  | reportFork
  | awaitFork (child : ThreadId)
  | awaitExit (child : ThreadId)
  | tryCollect (child : ThreadId)
  -- The console.
  | print (text : String)
  /-- Shows a line of a given severity unless the console is quiet. -/
  | announce (severity : Severity) (text : String)
  /-- Shows a line of a given severity as notices are shown. -/
  | log (severity : Severity) (text : String)
  | setThreshold (threshold : Option Severity)
  | setQuiet (on : Bool)
deriving DecidableEq, Repr

/-- What a call returns. -/
inductive Reply
  | nothing
  | number (n : Nat)
  | integer (n : Int)
  | flag (b : Bool)
  | text (s : String)
  | maybeThread (thread : Option ThreadId)
  | threads (threads : List ThreadId)
  /-- The name and the text of a thread. -/
  | description (name text : String)
  /-- There is no such thread. -/
  | absent
  | settings (config : Config)
  | child (status : ChildStatus)
deriving DecidableEq, Repr

/-- How a call that does not halt the run ends. -/
inductive Answer
  | done (reply : Reply)
  | refused (refusal : Refusal)
  | wouldBlock
  /-- The call names something the session does not have. -/
  | misused
deriving DecidableEq, Repr

namespace Answer

/-- The answer of a call that may be refused. -/
def ofExcept {α : Type} (reply : α → Reply) : Except Refusal α → Answer
  | .ok a => .done (reply a)
  | .error refusal => .refused refusal

/-- The answer of a call that may have to wait. -/
def ofTry : Except WouldBlock Unit → Answer
  | .ok () => .done .nothing
  | .error _ => .wouldBlock

end Answer

/-- A session. -/
structure Session where
  core : Core
  /-- The semaphores it has created. -/
  semaphores : Array ObjectId
  /-- The locks it has created. -/
  locks : Array ObjectId
  /-- The condition variables it has created. -/
  conditions : Array ObjectId
  /-- For each open guard, the last first, whether interrupts were enabled when it was opened. -/
  guards : List Bool

/-- A step of a session. -/
abbrev SessionM := EStateM Halt Session

namespace Session

/-- A session on a core that it has created nothing on. -/
def ofCore (core : Core) : Session := ⟨core, #[], #[], #[], []⟩

/-- Runs a step of the core. -/
def onCore {α : Type} (step : CoreM α) : SessionM α := fun s =>
  match step s.core with
  | .ok a k => .ok a { s with core := k }
  | .error h k => .error h { s with core := k }

/-- A step of the core that returns nothing. -/
def act (step : CoreM Unit) : SessionM Answer := do
  onCore step
  return .done .nothing

/-- A step of the core that returns a number. -/
def count (step : CoreM Nat) : SessionM Answer := return .done (.number (← onCore step))

/-- A question to the core. -/
def inquire {α : Type} (reply : α → Reply) (question : Core → Except Halt α) : SessionM Answer :=
  return .done (reply (← onCore (Core.ask question)))

/-- Goes on with the object at a position, if there is one. -/
def resolve (handles : Session → Array ObjectId) (i : Nat) (f : ObjectId → SessionM Answer) :
    SessionM Answer := do
  match (handles (← get))[i]? with
  | some id => f id
  | none => return .misused

/-- Goes on with the objects of a condition variable and a lock. -/
def resolveBoth (c l : Nat) (f : ObjectId → ObjectId → SessionM Answer) : SessionM Answer :=
  resolve conditions c fun cond => resolve locks l fun lk => f cond lk

/-- Overwrites a byte of the stack of a live thread. -/
def overwrite (t : ThreadId) (offset : Nat) (byte : UInt8) : SessionM Answer := do
  match (← get).core.threads[t]? with
  | none => return .misused
  | some th =>
    onCore do
      let stack ← Core.ask fun _ => th.stack.writeByte offset byte
      Core.changeThread t fun th => { th with stack := stack }
    return .done .nothing

/-- Executes a call. -/
def execute : Call → SessionM Answer
  | .create name priority =>
      return .ofExcept .number (← onCore (Core.spawn name priority none))
  | .spawn name priority task =>
      return .ofExcept .number (← onCore (Core.spawn name (priority.getD .usual) task))
  | .exit => act Core.exit
  | .yield => act Core.yieldNow
  | .block => act Core.block
  | .unblock t => act (Core.unblock t)
  | .setPriority p => act (Core.setPriority p)
  | .getPriority => inquire .number Core.getPriority
  | .self => inquire (.number ·.id) Core.running
  | .name => inquire (.text ·.name) Core.running
  | .idle => return .done (.number (← get).core.idle)
  | .current => inquire (.text ·.text) Core.running
  | .thread t => do
      match (← get).core.threads[t]? with
      | some th => return .done (.description th.name th.text)
      | none => return .done .absent
  | .overwrite t offset byte => overwrite t offset byte
  | .config => return .done (.settings (← get).core.config)
  | .usage => return .done (.text (← get).core.usage.text)
  | .printUsage => do act (Core.write ((← get).core.usage.text ++ "\n"))
  | .validate => inquire (fun _ => .nothing) Core.validate
  | .sleepUntil tick => act (Core.sleepUntil tick)
  | .sleepFor ticks => act (Core.sleepFor ticks)
  | .wakeSleepers now => count (Core.wakeSleepers now)
  | .advance ticks => count (Core.advance ticks)
  | .timer => act Core.timerInterrupt
  | .tick n => act (Core.ticks n)
  | .yieldOnReturn => act Core.yieldOnReturn
  | .openGuard => do
      let was ← onCore (Core.onMachine Machine.mask)
      modify fun s => { s with guards := was :: s.guards }
      return .done (.text (interruptText was))
  | .closeGuard => do
      match (← get).guards with
      | [] => return .misused
      | was :: guards =>
        modify fun s => { s with guards := guards }
        act (Core.onMachine (Machine.unmask was))
  | .enableInterrupts => act (Core.onMachine (modify (·.withInterrupts true)))
  | .disableInterrupts => act (Core.onMachine (modify (·.withInterrupts false)))
  | .setHandler on => act (Core.onMachine (Machine.setHandler on))
  | .newSemaphore value => do
      let id ← onCore (Core.newSemaphore value)
      modify fun s => { s with semaphores := s.semaphores.push id }
      return .done (.text (Handle.semaphore id).text)
  | .down i => resolve semaphores i fun s => act (Core.down s)
  | .tryDown i => resolve semaphores i fun s => return .ofTry (← onCore (Core.tryDown s))
  | .up i => resolve semaphores i fun s => act (Core.up s)
  | .semaphoreValue i => resolve semaphores i fun s => inquire (.number ·.value) (Core.semaphore s)
  | .semaphoreWaiters i =>
      resolve semaphores i fun s => inquire (.number ·.waiters.size) (Core.semaphore s)
  | .destroySemaphore i =>
      resolve semaphores i fun s =>
        return .ofExcept (fun _ => .nothing) (← onCore (Core.destroySemaphore s))
  | .newLock => do
      let id ← onCore Core.newLock
      modify fun s => { s with locks := s.locks.push id }
      return .done (.text (Handle.lock id).text)
  | .acquire i => resolve locks i fun l => act (Core.acquire l)
  | .tryAcquire i => resolve locks i fun l => return .ofTry (← onCore (Core.tryAcquire l))
  | .release i => resolve locks i fun l => act (Core.release l)
  | .heldByCurrent i => resolve locks i fun l => inquire .flag (Core.heldByCurrent l)
  | .holder i => resolve locks i fun l => inquire (.maybeThread ·.holder) (Core.lock l)
  | .lockWaiters i => resolve locks i fun l => inquire (.number ·.waiters.size) (Core.lock l)
  | .destroyLock i =>
      resolve locks i fun l =>
        return .ofExcept (fun _ => .nothing) (← onCore (Core.destroyLock l))
  | .newCondition => do
      let id ← onCore Core.newCondition
      modify fun s => { s with conditions := s.conditions.push id }
      return .done (.text (Handle.condition id).text)
  | .await i j => resolveBoth i j fun c l => act (Core.await c l)
  | .signal i j => resolveBoth i j fun c l => return .done (.flag (← onCore (Core.signal c l)))
  | .broadcast i j => resolveBoth i j fun c l => count (Core.broadcast c l)
  | .conditionWaiters i =>
      resolve conditions i fun c => inquire (.number ·.waiters.size) (Core.condition c)
  | .destroyCondition i =>
      resolve conditions i fun c =>
        return .ofExcept (fun _ => .nothing) (← onCore (Core.destroyCondition c))
  | .parent => inquire .maybeThread Core.parent
  | .children => inquire .threads Core.children
  | .exitStatus => inquire (.integer ·.toInt) Core.exitStatus
  | .setExitStatus status => act (Core.setExitStatus status)
  | .reportFork => return .ofExcept (fun _ => .nothing) (← onCore Core.reportFork)
  | .awaitFork child => return .ofExcept (fun _ => .nothing) (← onCore (Core.awaitFork child))
  | .awaitExit child => return .ofExcept (.integer ·.toInt) (← onCore (Core.awaitExit child))
  | .tryCollect child => return .ofExcept .child (← onCore (Core.tryCollect child))
  | .print text => act (Core.write text)
  | .announce severity text =>
      act do
        if !(← get).console.quiet then Core.write (Console.line severity text)
  | .log severity text => act (Core.writeLine severity text)
  | .setThreshold threshold =>
      act (modify fun k => { k with console := { k.console with threshold := threshold } })
  | .setQuiet on => act (modify fun k => { k with console := { k.console with quiet := on } })

end Session

end ThreadCore
