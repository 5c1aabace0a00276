import Std.Data.ExtTreeMap
import ThreadCore.Config
import ThreadCore.Journal
import ThreadCore.Machine.Basic
import ThreadCore.Object.Table
import ThreadCore.Thread.Basic

/-!
# The state of the core

`Core` is everything the thread core of one processor knows, the machine and the journal included.
`CoreM` is a step of it: a step ends with an answer or with a halt, and either way with a state, so
that what happened before a halt stays on record.

Two kinds of steps make up the rest. A question, `ask`, looks at the state and leaves it alone. A
change, `modify` and its kin for one thread or one object, replaces a part of it.
-/

namespace ThreadCore

/-- Ticks by what the processor did in them. -/
structure Usage where
  /-- In the idle thread. -/
  idle : Nat
  /-- In threads without a task. -/
  kernel : Nat
  /-- In threads with a task. -/
  user : Nat
deriving DecidableEq, Repr, Inhabited

/-- The text of the usage. -/
def Usage.text (u : Usage) : String :=
  s!"Thread: {u.idle} idle ticks, {u.kernel} kernel ticks, {u.user} user ticks"

/-- The state of the core. -/
structure Core where
  machine : Machine
  config : Config
  /-- The live threads. -/
  threads : Std.ExtTreeMap ThreadId Thread
  /-- The number of the next thread. -/
  nextThread : ThreadId
  /-- The thread that has the processor. -/
  current : ThreadId
  /-- The thread that runs when no other can. -/
  idle : ThreadId
  ready : Queue
  sleepers : Queue
  /-- Threads that have exited and whose stacks are not reclaimed, the earliest first. -/
  dead : List Thread
  objects : Objects
  /-- Ticks since the current thread was dispatched. -/
  slice : Nat
  /-- Whether the thread that was interrupted must yield when the handler returns. -/
  yieldPending : Bool
  usage : Usage
  console : Console
  journal : Journal

/-- A step of the core. -/
abbrev CoreM := EStateM Halt Core

namespace Core

/-- A core without threads on `machine`. -/
def bare (machine : Machine) (config : Config) (console : Console) : Core where
  machine := machine
  config := config
  threads := ∅
  nextThread := 1
  current := 0
  idle := 0
  ready := .empty
  sleepers := .empty
  dead := []
  objects := .empty
  slice := 0
  yieldPending := false
  usage := ⟨0, 0, 0⟩
  console := console
  journal := .empty

instance : Inhabited Core := ⟨bare default .standard default⟩

/-! ## Questions -/

/-- Looks at the state. The run halts if the question has no answer. -/
def ask {α : Type} (question : Core → Except Halt α) : CoreM α := fun k =>
  match question k with
  | .ok a => .ok a k
  | .error h => .error h k

/-- A live thread. -/
def thread (t : ThreadId) (k : Core) : Except Halt Thread :=
  match k.threads[t]? with
  | some th => .ok th
  | none => .error (.notRegistered t)

/-- The thread that has the processor, after a look at its canary and its state. -/
def running (k : Core) : Except Halt Thread := do
  let th ← k.thread k.current
  demand th.intact (.canaryLost th.id th.name)
  demand (th.state = .running) (.currentNotRunning th.id th.state)
  return th

/-- A semaphore. -/
def semaphore (s : ObjectId) (k : Core) : Except Halt Semaphore :=
  match k.objects.semaphores[s]? with
  | some sema => .ok sema
  | none => .error (.destroyed (.semaphore s))

/-- A lock. -/
def lock (l : ObjectId) (k : Core) : Except Halt Lock :=
  match k.objects.locks[l]? with
  | some lk => .ok lk
  | none => .error (.destroyed (.lock l))

/-- A condition variable. -/
def condition (c : ObjectId) (k : Core) : Except Halt Condition :=
  match k.objects.conditions[c]? with
  | some cond => .ok cond
  | none => .error (.destroyed (.condition c))

/-- The effective priority of a thread, and the least one of a number that is not live. -/
def priorityOf (k : Core) (t : ThreadId) : Priority :=
  match k.threads[t]? with
  | some th => th.priority
  | none => 0

/-- Whether `t` is to be served before `u`, had they arrived together. -/
def outranks (k : Core) (t u : ThreadId) : Bool := k.priorityOf u < k.priorityOf t

/-- Halts if a queue names a thread that is not live. -/
def checkLive (q : Queue) (k : Core) : Except Halt Unit :=
  demand (∀ t ∈ q.entries, t ∈ k.threads) .danglingEntry

/-- The entry of `q` that is served first: the earliest of the greatest effective priority. -/
def mostUrgent (q : Queue) (k : Core) : Except Halt (Option ThreadId) := do
  k.checkLive q
  return q.foremost k.outranks

/-- The ids of the threads whose state is running. -/
def runningThreads (k : Core) : List ThreadId :=
  (k.threads.values.filter fun th => th.state = .running).map Thread.id

theorem ask_eq_ok_iff {α : Type} {question : Core → Except Halt α} {k k' : Core} {a : α} :
    ask question k = .ok a k' ↔ question k = .ok a ∧ k' = k := by
  simp only [ask]
  split <;> simp_all [eq_comm]

theorem ask_eq_error_iff {α : Type} {question : Core → Except Halt α} {k k' : Core} {h : Halt} :
    ask question k = .error h k' ↔ question k = .error h ∧ k' = k := by
  simp only [ask]
  split <;> simp_all [eq_comm]

theorem thread_eq_ok_iff {t : ThreadId} {k : Core} {th : Thread} :
    k.thread t = .ok th ↔ k.threads[t]? = some th := by
  simp only [thread]
  split <;> simp_all

theorem semaphore_eq_ok_iff {s : ObjectId} {k : Core} {sema : Semaphore} :
    k.semaphore s = .ok sema ↔ k.objects.semaphores[s]? = some sema := by
  simp only [semaphore]
  split <;> simp_all

theorem lock_eq_ok_iff {l : ObjectId} {k : Core} {lk : Lock} :
    k.lock l = .ok lk ↔ k.objects.locks[l]? = some lk := by
  simp only [lock]
  split <;> simp_all

theorem condition_eq_ok_iff {c : ObjectId} {k : Core} {cond : Condition} :
    k.condition c = .ok cond ↔ k.objects.conditions[c]? = some cond := by
  simp only [condition]
  split <;> simp_all

/-! ## Changes -/

/-- Runs a step of the machine. -/
def onMachine {α : Type} (step : MachineM α) : CoreM α := fun k =>
  match step k.machine with
  | .ok a m => .ok a { k with machine := m }
  | .error h m => .error h { k with machine := m }

/-- Changes a live thread. -/
def changeThread (t : ThreadId) (f : Thread → Thread) : CoreM Unit := do
  let _ ← ask (thread t)
  modify fun k => { k with threads := k.threads.modify t f }

/-- Changes a semaphore. -/
def changeSemaphore (s : ObjectId) (f : Semaphore → Semaphore) : CoreM Unit := do
  let _ ← ask (semaphore s)
  modify fun k =>
    { k with objects := { k.objects with semaphores := k.objects.semaphores.modify s f } }

/-- Changes a lock. -/
def changeLock (l : ObjectId) (f : Lock → Lock) : CoreM Unit := do
  let _ ← ask (lock l)
  modify fun k => { k with objects := { k.objects with locks := k.objects.locks.modify l f } }

/-- Changes a condition variable. -/
def changeCondition (c : ObjectId) (f : Condition → Condition) : CoreM Unit := do
  let _ ← ask (condition c)
  modify fun k =>
    { k with objects := { k.objects with conditions := k.objects.conditions.modify c f } }

/-- The successor of a counter. -/
def increment (n : Nat) : CoreM Nat :=
  match Word.next? n with
  | some m => pure m
  | none => throw .overflow

/-- A new object number. -/
def freshObject : CoreM ObjectId := do
  let id ← increment (← get).objects.lastId
  modify fun k => { k with objects := { k.objects with lastId := id } }
  return id

/-- Records an event. -/
def record (e : Event) : CoreM Unit :=
  modify fun k => { k with journal := k.journal.addEvent e }

/-- Writes on the console. -/
def write (text : String) : CoreM Unit :=
  modify fun k => { k with journal := k.journal.addText text }

/-- Writes a line of a given severity on the console, if it is grave enough. -/
def writeLine (s : Severity) (text : String) : CoreM Unit := do
  if (← get).console.admits s then write (Console.line s text)

/-- Says something about the work of the core. -/
def say (n : Notice) : CoreM Unit := do
  if (← get).console.admits n.severity then write (Console.line n.severity n.text)

/-! ## Sections -/

/-- Runs `body` with interrupts disabled and restores the interrupt flag after it. -/
def masked {α : Type} (body : CoreM α) : CoreM α := do
  let was ← onMachine Machine.mask
  let a ← body
  onMachine (Machine.unmask was)
  return a

/-- Halts inside an interrupt handler, where `attempt` is out of place. -/
def outsideHandler (attempt : Attempt) : CoreM Unit := do
  demand ((← get).machine.inHandler = false) (.inHandler attempt)

end Core

end ThreadCore
