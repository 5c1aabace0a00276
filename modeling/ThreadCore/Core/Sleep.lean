import ThreadCore.Core.Dispatch

/-!
# Sleep

A sleeping thread is blocked until the timer reaches its tick. The sleep list holds sleepers in the
order they went to sleep; they are woken by tick, the earliest first, and in the order of the list
among equal ticks.
-/

namespace ThreadCore.Core

/-- Whether the tick of `t` comes before that of `u`. A thread without a tick comes before all. -/
def earlier (k : Core) (t u : ThreadId) : Bool :=
  match (k.threads[t]?).bind Thread.wakeAt, (k.threads[u]?).bind Thread.wakeAt with
  | some a, some b => a < b
  | none, some _ => true
  | _, none => false

/-- The sleeper that is to wake first. -/
def earliestSleeper (k : Core) : Except Halt (Option ThreadId) := do
  k.checkLive k.sleepers
  return k.sleepers.foremost k.earlier

/-- Blocks the running thread until the timer reaches `tick`. Neither a tick that has come nor the
idle thread waits. -/
def sleepUntil (tick : Nat) : CoreM Unit := do
  outsideHandler .sleep
  let t := (← ask running).id
  let k ← get
  if t = k.idle ∨ tick ≤ k.machine.ticks then return ()
  masked do
    changeThread t fun th => { th with wakeAt := some tick }
    let sleepers ← ask fun k => k.sleepers.push t
    modify fun k => { k with sleepers := sleepers }
    say (.sleeps t tick)
    endTurn .blocked

/-- Blocks the running thread for a number of ticks. -/
def sleepFor (ticks : Nat) : CoreM Unit := do
  sleepUntil (Word.addSaturating (← get).machine.ticks ticks)

/-- Wakes sleepers whose tick is at or before `now`, at most `n` of them, and counts them. -/
def wakeDue (now : Nat) : (n : Nat) → CoreM Nat
  | 0 => return 0
  | n + 1 => do
    match ← ask earliestSleeper with
    | none => return 0
    | some t =>
      if (← ask (thread t)).wakeAt.any fun tick => now < tick then return 0
      modify fun k => { k with sleepers := k.sleepers.remove t }
      changeThread t fun th => { th with wakeAt := none }
      unblock t
      say (.wakes t now)
      return (← wakeDue now n) + 1

/-- Wakes every sleeper whose tick is at or before `now`, gives way to a woken thread that is more
urgent than the running one, and returns how many were woken. -/
def wakeSleepers (now : Nat) : CoreM Nat := do
  let woken ← masked do wakeDue now (← get).sleepers.size
  if 0 < woken then preempt
  return woken

end ThreadCore.Core
