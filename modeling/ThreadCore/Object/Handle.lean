/-!
# Handles

Semaphores, locks and condition variables are named by number. The three kinds share one count, so a
number stands for one object only, of one kind, for ever.
-/

namespace ThreadCore

/-- The number of a synchronization object. -/
abbrev ObjectId := Nat

/-- A synchronization object as it is shown: its kind and its number. -/
inductive Handle
  | semaphore (id : ObjectId)
  | lock (id : ObjectId)
  | condition (id : ObjectId)
deriving DecidableEq, Repr

/-- The text of a handle. -/
def Handle.text : Handle → String
  | semaphore id => s!"Semaphore \x7b id: {id} \x7d"
  | lock id => s!"Lock \x7b id: {id} \x7d"
  | condition id => s!"ConditionVariable \x7b id: {id} \x7d"

end ThreadCore
