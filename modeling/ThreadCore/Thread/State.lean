/-!
# Thread identity and state

Threads are numbered in the order they are created and no number is used twice. At any moment a live
thread runs, is ready to run, waits for an event, or has just exited and waits for its stack to be
reclaimed.
-/

namespace ThreadCore

/-- The number of a thread. -/
abbrev ThreadId := Nat

/-- Urgency: a thread of greater priority runs before one of lesser priority. -/
abbrev Priority := Nat

namespace Priority

/-- The greatest priority a thread may be given. -/
def greatest : Priority := 63

/-- The priority of a thread that asks for none. -/
def usual : Priority := 31

end Priority

/-- What a live thread is doing. -/
inductive ThreadState
  /-- It has the processor. -/
  | running
  /-- It could run and waits in the ready queue. -/
  | ready
  /-- It waits for an event. -/
  | blocked
  /-- It has exited and its stack is not yet reclaimed. -/
  | dying
deriving DecidableEq, Repr

/-- The name of a state. -/
def ThreadState.text : ThreadState → String
  | running => "Running"
  | ready => "Ready"
  | blocked => "Blocked"
  | dying => "Dying"

end ThreadCore
