import ThreadCore.Core.Priority

/-!
# The audit

A check of the state against the rules it obeys:

- one thread runs, and it is the current one;
- the ready queue holds the ready threads and never the idle thread;
- sleepers and waiters are blocked, and no thread waits in two places;
- a thread that waits for a lock is in the queue of the lock;
- effective priorities are what base priorities and donors make them;
- every stack has its canary.

The audit halts with the first rule it finds broken.
-/

namespace ThreadCore.Core

/-- Adds a thread to those that are known to wait somewhere. -/
def enroll (seen : List (ThreadId × Place)) (t : ThreadId) (place : Place) :
    Except Halt (List (ThreadId × Place)) :=
  match seen.lookup t with
  | some other => .error (.auditTwoPlaces t other place)
  | none => .ok ((t, place) :: seen)

/-- Checks an entry of the ready queue. -/
def auditReady (k : Core) (t : ThreadId) : Except Halt Unit := do
  demand (t ≠ k.idle) (.auditIdleReady t)
  let th ← k.thread t
  demand (th.state = .ready) (.auditReadyState t th.state)

/-- Checks an entry of the sleep list. -/
def auditSleeper (k : Core) (t : ThreadId) : Except Halt Unit := do
  let th ← k.thread t
  demand (th.state = .blocked) (.auditSleeperState t th.state)
  demand th.wakeAt.isSome (.auditNoWakeTick t)

/-- Checks an entry of the queue of an object. -/
def auditWaiter (k : Core) (place : Place) (t : ThreadId) : Except Halt Unit := do
  let th ← k.thread t
  demand (th.state = .blocked) (.auditWaiterState t place th.state)

/-- Checks an entry of the queue of a given place. -/
def auditEntry (k : Core) (place : Place) : ThreadId → Except Halt Unit :=
  match place with
  | .readyQueue => k.auditReady
  | .sleepList => k.auditSleeper
  | _ => k.auditWaiter place

/-- Checks the entries of one queue and enrolls them. -/
def auditEntries (k : Core) (place : Place) (seen : List (ThreadId × Place)) :
    List ThreadId → Except Halt (List (ThreadId × Place))
  | [] => .ok seen
  | t :: ts => do
    k.auditEntry place t
    auditEntries k place (← enroll seen t place) ts

/-- Every queue with its place. -/
def queues (k : Core) : List (Place × Queue) :=
  (.readyQueue, k.ready) :: (.sleepList, k.sleepers) :: k.objects.waitLists

/-- Checks the entries of the queues. -/
def auditQueues (k : Core) (seen : List (ThreadId × Place)) :
    List (Place × Queue) → Except Halt Unit
  | [] => .ok ()
  | (place, q) :: rest => do
    auditQueues k (← k.auditEntries place seen q.entries) rest

/-- Checks a live thread. -/
def auditThread (k : Core) (th : Thread) : Except Halt Unit := do
  demand th.intact (.auditCanary th.id th.stack.canary)
  demand (th.state = .ready → th.id ∈ k.ready) (.auditNotQueued th.id)
  match th.waitsFor with
  | none => pure ()
  | some l => demand (th.id ∈ (← k.lock l).waiters) (.auditNotWaiting th.id l)
  let expected ← k.greatestPriority th.base th.donors.entries
  demand (th.priority = expected) (.auditPriority th.id th.priority expected)

/-- Checks the whole state. -/
def validate (k : Core) : Except Halt Unit := do
  demand (k.runningThreads = [k.current]) (.auditRunning k.runningThreads k.current)
  k.auditQueues [] k.queues
  k.threads.values.forM k.auditThread

end ThreadCore.Core
