import ThreadCore.Session.Call

/-!
# Snapshots

What a session shows of the state between two calls.
-/

namespace ThreadCore

/-- What is shown of a live thread. -/
structure ThreadView where
  id : ThreadId
  state : ThreadState
  priority : Priority
  base : Priority
  /-- The position of the lock it waits for. -/
  lock : Option Nat
  donors : List ThreadId
  wakeAt : Option Nat
deriving DecidableEq, Repr

/-- What is shown of the state. -/
structure Snapshot where
  /-- The thread whose state is running. -/
  running : Option ThreadId
  interruptsOn : Bool
  inHandler : Bool
  ticks : Nat
  switches : Nat
  pages : Nat
  live : Nat
  dying : Nat
  ready : List ThreadId
  sleepers : List ThreadId
  usage : Usage
  /-- The live threads by number. -/
  threads : List ThreadView
  /-- Units and waiters of each semaphore, by position; nothing for a destroyed one. -/
  semaphores : List (Option (Nat × Nat))
  /-- Holder and waiters of each lock. -/
  locks : List (Option (Option ThreadId × Nat))
  /-- Waiters of each condition variable. -/
  conditions : List (Option Nat)
deriving DecidableEq, Repr

namespace Session

/-- What is shown of a live thread. -/
def view (s : Session) (th : Thread) : ThreadView where
  id := th.id
  state := th.state
  priority := th.priority
  base := th.base
  lock := th.waitsFor.bind fun l => s.locks.toList.idxOf? l
  donors := th.donors.entries
  wakeAt := th.wakeAt

/-- What is shown of the state. -/
def snapshot (s : Session) : Snapshot where
  running := s.core.runningThreads.head?
  interruptsOn := s.core.machine.interruptsOn
  inHandler := s.core.machine.inHandler
  ticks := s.core.machine.ticks
  switches := s.core.machine.switches
  pages := s.core.machine.pool.inUse
  live := s.core.threads.size
  dying := s.core.dead.length
  ready := s.core.ready.entries
  sleepers := s.core.sleepers.entries
  usage := s.core.usage
  threads := s.core.threads.values.map s.view
  semaphores := s.semaphores.toList.map fun id =>
    (s.core.objects.semaphores[id]?).map fun o => (o.value, o.waiters.size)
  locks := s.locks.toList.map fun id =>
    (s.core.objects.locks[id]?).map fun o => (o.holder, o.waiters.size)
  conditions := s.conditions.toList.map fun id =>
    (s.core.objects.conditions[id]?).map fun o => o.waiters.size

end Session

end ThreadCore
