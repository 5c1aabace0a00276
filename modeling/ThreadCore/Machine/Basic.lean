import ThreadCore.Machine.Context
import ThreadCore.Machine.Flags
import ThreadCore.Machine.Page
import ThreadCore.Machine.Pool

/-!
# The machine

One processor with its flags, its timer and its page pool. The timer moves only when it is told to.
A switch does not transfer control: it counts, starts the function of a context that has never run,
and returns to its caller, who goes on in the name of the thread that was resumed.
-/

namespace ThreadCore

/-- The state of the machine. -/
structure Machine where
  flags : Flags
  /-- Whether an interrupt handler runs. -/
  inHandler : Bool
  /-- Timer ticks since reset. -/
  ticks : Nat
  /-- Context switches since reset; the count wraps. -/
  switches : Nat
  pool : Pool
  /-- Pages handed out since reset; the next page is numbered by its successor. -/
  handedOut : Nat

/-- A step of the machine. -/
abbrev MachineM := EStateM Halt Machine

namespace Machine

/-- A machine out of reset with a given pool. -/
def reset (pool : Pool) : Machine := ⟨Flags.reset, false, 0, 0, pool, 0⟩

/-- A machine out of reset with `pages` pages, or with no bound on them. -/
def ofPages (pages : Option Nat) : Machine :=
  reset (match pages with
    | none => Pool.unbounded
    | some n => Pool.ofCapacity n)

instance : Inhabited Machine := ⟨reset Pool.unbounded⟩

/-- Whether interrupts are enabled. -/
def interruptsOn (m : Machine) : Bool := m.flags.isOn .interrupt

/-- The machine with interrupts enabled or disabled. -/
def withInterrupts (m : Machine) (on : Bool) : Machine :=
  { m with flags := m.flags.set .interrupt on }

/-- Disables interrupts and returns whether they were enabled. -/
def mask : MachineM Bool := do
  let was := (← get).interruptsOn
  modify (·.withInterrupts false)
  return was

/-- Enables interrupts again if they were enabled before `mask`. -/
def unmask (was : Bool) : MachineM Unit :=
  if was then modify (·.withInterrupts true) else pure ()

/-- Enters an interrupt handler or leaves it. Handlers do not nest. -/
def setHandler (on : Bool) : MachineM Unit := do
  demand ((← get).inHandler ≠ on) (.unbalanced on)
  modify fun m => { m with inHandler := on }

/-- Moves the timer by one tick and returns the new count. -/
def advance : MachineM Nat := do
  match Word.next? (← get).ticks with
  | none => throw .overflow
  | some now =>
    modify fun m => { m with ticks := now }
    return now

/-- A step of the machine's pool. -/
def onPool {α : Type} (step : PoolM α) : MachineM α := fun m =>
  match step m.pool with
  | .ok a pool => .ok a { m with pool := pool }
  | .error e pool => .error e { m with pool := pool }

/-- Takes a page of zeros, if one is left. -/
def takePage : MachineM (Option Page) := do
  if ← onPool Pool.take then
    let frame := (← get).handedOut + 1
    modify fun m => { m with handedOut := frame }
    return some (.blank frame)
  else
    return none

/-- Takes a page back. -/
def freePage : MachineM Unit := onPool Pool.giveBack

/-- Leaves context `running` for `next`. Returns `next` as it is once it runs, and the function that
starts with this. -/
def switch (running next : Context) : MachineM (Context × Option String) := do
  demand ((← get).interruptsOn = false) .switchUnmasked
  demand (running.sp ≠ next.sp) (.switchInPlace running.sp)
  modify fun m => { m with switches := Word.nextWrapping m.switches }
  return ({ next with entry := none }, next.entry)

end Machine

end ThreadCore
