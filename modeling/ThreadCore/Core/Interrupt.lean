import ThreadCore.Core.Sleep

/-!
# Interrupt handlers

A handler runs with interrupts disabled, in the name of the thread it interrupted. It may wake
threads but nothing in it waits. The switch it calls for, because a time slice is over or because a
woken thread is more urgent, takes place when it returns. The idle thread, when it was interrupted,
always goes through dispatching again.
-/

namespace ThreadCore.Core

/-- Enters a handler. Returns whether interrupts were enabled. -/
def enterHandler : CoreM Bool := do
  let was ← onMachine Machine.mask
  onMachine (Machine.setHandler true)
  return was

/-- Leaves a handler, and makes the switch that it called for. -/
def leaveHandler (was : Bool) : CoreM Unit := do
  onMachine (Machine.setHandler false)
  let pending := (← get).yieldPending
  modify fun k => { k with yieldPending := false }
  let k ← get
  if k.current = k.idle then
    endTurn .blocked
  else if pending then
    yieldNow
  onMachine (Machine.unmask was)

/-- Runs `handler` as an interrupt handler. -/
def handleInterrupt {α : Type} (handler : CoreM α) : CoreM α := do
  let was ← enterHandler
  let a ← handler
  leaveHandler was
  return a

/-- Asks for a yield when the running handler returns. -/
def yieldOnReturn : CoreM Unit := do
  demand (← get).machine.inHandler .noReturn
  modify fun k => { k with yieldPending := true }

/-- Counts a tick for the thread that was interrupted. -/
def countTick : CoreM Unit := do
  let k ← get
  if k.current = k.idle then
    let idle ← increment k.usage.idle
    modify fun k => { k with usage := { k.usage with idle := idle } }
  else if (← ask (thread k.current)).task.isSome then
    let user ← increment k.usage.user
    modify fun k => { k with usage := { k.usage with user := user } }
  else
    let kernel ← increment k.usage.kernel
    modify fun k => { k with usage := { k.usage with kernel := kernel } }

/-- Counts a tick of the time slice, and asks for a yield when the slice is over. -/
def countSlice : CoreM Unit := do
  let slice ← increment (← get).slice
  modify fun k => { k with slice := slice }
  if (← get).config.timeSlice ≤ slice then
    modify fun k => { k with yieldPending := true }

/-- Handles a timer interrupt. -/
def timerInterrupt : CoreM Unit :=
  handleInterrupt do
    let now := (← get).machine.ticks
    countTick
    countSlice
    let _ ← wakeSleepers now
    return ()

/-- Moves the timer by one tick and handles its interrupt. -/
def tick : CoreM Unit := do
  let _ ← onMachine Machine.advance
  timerInterrupt

/-- Moves the timer by `n` ticks and handles an interrupt for each. -/
def ticks : (n : Nat) → CoreM Unit
  | 0 => pure ()
  | n + 1 => do
    tick
    ticks n

/-- Moves the timer by `n` ticks without an interrupt and returns its count. -/
def advance : (n : Nat) → CoreM Nat
  | 0 => return (← get).machine.ticks
  | n + 1 => do
    let _ ← onMachine Machine.advance
    advance n

end ThreadCore.Core
