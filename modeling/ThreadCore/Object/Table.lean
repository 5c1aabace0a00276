import Std.Data.ExtTreeMap
import ThreadCore.Queue

/-!
# Synchronization objects

The states behind the handles. A semaphore is a count of units and the threads that wait for one. A
lock has at most one holder, and threads wait for it only while it is held. A condition variable is
bound to the lock of its first waiter. All objects live in one table with one count of numbers.
-/

namespace ThreadCore

/-- A counting semaphore. -/
structure Semaphore where
  value : Nat
  waiters : Queue
deriving DecidableEq, Repr, Inhabited

/-- A lock. -/
structure Lock where
  holder : Option ThreadId
  waiters : Queue
deriving DecidableEq, Repr, Inhabited

/-- A condition variable. -/
structure Condition where
  /-- The lock that every waiter uses. -/
  lock : Option ObjectId
  waiters : Queue
deriving DecidableEq, Repr, Inhabited

/-- The table of objects. -/
structure Objects where
  /-- The number given last. -/
  lastId : ObjectId
  semaphores : Std.ExtTreeMap ObjectId Semaphore
  locks : Std.ExtTreeMap ObjectId Lock
  conditions : Std.ExtTreeMap ObjectId Condition

namespace Objects

/-- The table without objects. -/
def empty : Objects := ⟨0, ∅, ∅, ∅⟩

instance : Inhabited Objects := ⟨empty⟩

/-- The lock with the least number that `t` holds. -/
def heldBy (o : Objects) (t : ThreadId) : Option ObjectId :=
  (o.locks.toList.find? fun (_, l) => l.holder = some t).map Prod.fst

/-- The queues of all objects, by kind and by number. -/
def waitLists (o : Objects) : List (Place × Queue) :=
  (o.semaphores.toList.map fun (_, s) => (Place.semaphore, s.waiters)) ++
  (o.locks.toList.map fun (_, l) => (Place.lock, l.waiters)) ++
  (o.conditions.toList.map fun (_, c) => (Place.condition, c.waiters))

end Objects

end ThreadCore
