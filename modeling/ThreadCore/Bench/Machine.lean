import ThreadCore.Bench.Basic
import ThreadCore.Machine.Basic

/-!
# Trials of a machine

A machine with contexts of its own, without threads. Contexts are named by the order in which they
were made.
-/

namespace ThreadCore.Bench.Machine

/-- A machine and what is tried on it. -/
structure State where
  machine : ThreadCore.Machine
  contexts : Array Context
  /-- The pages that are out. -/
  pages : Nat
  /-- For each open guard, the last first, whether interrupts were enabled when it was opened. -/
  guards : List Bool
  /-- The functions that the last operation started. -/
  started : List String

/-- A machine out of reset. -/
def start (capacity : Option Nat) : State := ⟨.ofPages capacity, #[], 0, [], []⟩

/-- An operation on a machine. -/
inductive Op
  | enableInterrupts
  | disableInterrupts
  | advance
  | setHandler (on : Bool)
  | take
  /-- Gives back the page taken last. -/
  | free
  | openGuard
  | closeGuard
  | context (sp : Nat) (entry : Option String)
  | launched (context : Nat)
  /-- Starts the function of a context without a switch. -/
  | takeEntry (context : Nat)
  | switch (source target : Nat)

/-- What an operation returns. -/
inductive Reply
  | nothing
  | flag (b : Bool)
  | number (n : Nat)
  | text (s : String)
  /-- The operation names something that is not there. -/
  | misused

/-- Runs a step of the machine. -/
def onMachine {α : Type} (action : MachineM α) : EStateM Halt State α := fun s =>
  match action s.machine with
  | .ok a m => .ok a { s with machine := m }
  | .error halt m => .error halt { s with machine := m }

/-- Goes on with a context, if it is there. -/
def withContext (i : Nat) (f : Context → EStateM Halt State Reply) : EStateM Halt State Reply := do
  match (← get).contexts[i]? with
  | some c => f c
  | none => return .misused

/-- Puts a context in its place and notes the function that has started. -/
def putContext (i : Nat) (c : Context) (entry : Option String) : EStateM Halt State Unit :=
  modify fun s =>
    { s with contexts := s.contexts.setIfInBounds i c, started := s.started ++ entry.toList }

/-- Performs an operation. -/
def perform : Op → EStateM Halt State Reply
  | .enableInterrupts => do
      onMachine (modify (·.withInterrupts true))
      return .nothing
  | .disableInterrupts => do
      onMachine (modify (·.withInterrupts false))
      return .nothing
  | .advance => return .number (← onMachine ThreadCore.Machine.advance)
  | .setHandler on => do
      onMachine (ThreadCore.Machine.setHandler on)
      return .nothing
  | .take => do
      let page ← onMachine ThreadCore.Machine.takePage
      if page.isSome then modify fun s => { s with pages := s.pages + 1 }
      return .flag page.isSome
  | .free => do
      if (← get).pages = 0 then return .misused
      modify fun s => { s with pages := s.pages - 1 }
      onMachine ThreadCore.Machine.freePage
      return .nothing
  | .openGuard => do
      let was ← onMachine ThreadCore.Machine.mask
      modify fun s => { s with guards := was :: s.guards }
      return .text (interruptText was)
  | .closeGuard => do
      match (← get).guards with
      | [] => return .misused
      | was :: guards =>
        modify fun s => { s with guards := guards }
        onMachine (ThreadCore.Machine.unmask was)
        return .nothing
  | .context sp entry => do
      let c : Context := ⟨sp, entry⟩
      modify fun s => { s with contexts := s.contexts.push c }
      return .text c.text
  | .launched i => withContext i fun c => return .flag c.launched
  | .takeEntry i =>
      withContext i fun c => do
        putContext i { c with entry := none } c.entry
        return .flag c.entry.isSome
  | .switch i j =>
      withContext i fun source => withContext j fun target => do
        let (resumed, entry) ← onMachine (ThreadCore.Machine.switch source target)
        putContext j resumed entry
        return .nothing

/-- Performs an operation and notes only what it starts. -/
def step (op : Op) : EStateM Halt State Reply := do
  modify fun s => { s with started := [] }
  perform op

end ThreadCore.Bench.Machine
