import ThreadCore.Core.Dispatch

/-!
# Priorities

The effective priority of a thread is the greatest of its base priority and the effective priorities
of its donors. It is kept with the thread and computed again whenever one of these changes.
-/

namespace ThreadCore.Core

/-- The greatest of `least` and the effective priorities of `ts`. -/
def greatestPriority (k : Core) (least : Priority) : List ThreadId → Except Halt Priority
  | [] => .ok least
  | t :: ts => do
    let th ← k.thread t
    greatestPriority k (max least th.priority) ts

/-- What the effective priority of a thread has to be. -/
def effectivePriority (t : ThreadId) (k : Core) : Except Halt Priority := do
  let th ← k.thread t
  k.greatestPriority th.base th.donors.entries

/-- Computes the effective priority of `t` again and returns it. -/
def refreshPriority (t : ThreadId) : CoreM Priority := do
  let priority ← ask (effectivePriority t)
  changeThread t fun th => { th with priority := priority }
  return priority

/-- Halts if a priority is out of range. -/
def checkPriority (p : Priority) : CoreM Unit :=
  demand (p ≤ Priority.greatest) (.priorityOutOfRange p)

/-- Gives the running thread another base priority. -/
def setPriority (p : Priority) : CoreM Unit := do
  checkPriority p
  let t := (← ask running).id
  masked do
    changeThread t fun th => { th with base := p }
    let _ ← refreshPriority t
  preempt

/-- The effective priority of the running thread. -/
def getPriority (k : Core) : Except Halt Priority := do
  return (← k.running).priority

end ThreadCore.Core
