import ThreadCore.Session.Snapshot

/-!
# Runs

A run boots a core and performs operations on it, one after the other, until they are done or one
halts. An operation is a call, or an interrupt whose handler is a list of operations. Each leaves a
record: how it ended, the events and the console text that it added, and, unless it halted, the
state after it. The record of an interrupt covers what happens when its handler has returned; what
happens in the handler is in the records of the operations there.

A run that did not halt ends with an audit, after which the core is shut down.
-/

namespace ThreadCore

/-- An operation of a run. -/
inductive Operation
  | call (call : Call)
  /-- An interrupt and its handler. -/
  | interrupt (handler : List Operation)

/-- What an operation leaves behind. -/
structure Record where
  /-- The answer, or why the run halted. -/
  outcome : Except Halt Answer
  events : List Event
  output : String
  /-- The state after the operation, unless it halted. -/
  after : Option Snapshot

/-- A record with those of the handler, if the operation has one. -/
inductive Step
  | call (record : Record)
  | interrupt (handler : List Step) (record : Record)

namespace Journal

/-- The events of `later` that are not in `earlier`. -/
def newEvents (earlier later : Journal) : List Event := later.events.toList.drop earlier.events.size

/-- The console text of `later` that is not in `earlier`. -/
def newText (earlier later : Journal) : String :=
  String.join (later.output.toList.drop earlier.output.size)

end Journal

namespace Session

/-- The record of an operation that led from `s` to the state of `result`. -/
def recordOf (s : Session) : EStateM.Result Halt Session Answer → Record
  | .ok answer s' =>
      ⟨.ok answer, s.core.journal.newEvents s'.core.journal, s.core.journal.newText s'.core.journal,
        some s'.snapshot⟩
  | .error halt s' =>
      ⟨.error halt, s.core.journal.newEvents s'.core.journal,
        s.core.journal.newText s'.core.journal, none⟩

/-- What is left of the result of a step besides its answer. -/
def outcomeOf {α : Type} : EStateM.Result Halt Session α → Session × Option Halt
  | .ok _ s => (s, none)
  | .error halt s => (s, some halt)

mutual

/-- Performs an operation. Returns its records, the session after it, and why it halted. -/
def perform (s : Session) : Operation → Step × Session × Option Halt
  | .call c =>
      let result := execute c s
      (.call (s.recordOf result), outcomeOf result)
  | .interrupt handler =>
      match onCore Core.enterHandler s with
      | .error halt s' => (.interrupt [] (s.recordOf (.error halt s')), s', some halt)
      | .ok was entered =>
        let (steps, returned, halted) := performAll entered handler
        let result :=
          match halted with
          | some halt => .error halt returned
          | none => act (Core.leaveHandler was) returned
        (.interrupt steps (returned.recordOf result), outcomeOf result)

/-- Performs operations until they are done or one halts. -/
def performAll (s : Session) : List Operation → List Step × Session × Option Halt
  | [] => ([], s, none)
  | op :: ops =>
      let (step, s', halted) := perform s op
      match halted with
      | some halt => ([step], s', some halt)
      | none =>
        let (steps, s'', halted) := performAll s' ops
        (step :: steps, s'', halted)

end

end Session

/-- What a run starts from. -/
structure Setup where
  timeSlice : Option Nat
  mainPriority : Option Priority
  /-- The pages of the machine, if they are bounded. -/
  pages : Option Nat
  /-- Whether interrupts are enabled before the core is booted. -/
  interruptsOn : Bool
  threshold : Option Severity
deriving DecidableEq, Repr

/-- How a run that did not halt ends. -/
structure Ending where
  audit : Except Halt Unit
  events : List Event
  output : String
  interruptsOn : Bool
  pages : Nat

/-- A whole run. -/
inductive Transcript
  /-- There is no such configuration. -/
  | misconfigured (refusal : Refusal)
  /-- The core was refused its pages; `pages` are out after that. -/
  | notBooted (refusal : Refusal) (pages : Nat) (events : List Event) (output : String)
  /-- The core halted while it was booted. -/
  | bootHalted (halt : Halt) (events : List Event) (output : String)
  /-- The core was booted. A run without an ending has halted. -/
  | ran (boot : Record) (steps : List Step) (ending : Option Ending)

namespace Session

/-- Audits the core of a session and shuts it down. -/
def finish (s : Session) : Ending :=
  let k := (outcomeOf (onCore Core.shutDown s)).1.core
  ⟨s.core.validate, s.core.journal.newEvents k.journal, s.core.journal.newText k.journal,
    k.machine.interruptsOn, k.machine.pool.inUse⟩

end Session

namespace Setup

/-- The core that is about to be booted with `config`. -/
def core (setup : Setup) (config : Config) : Core :=
  .bare ((Machine.ofPages setup.pages).withInterrupts setup.interruptsOn) config
    ⟨setup.threshold, false⟩

/-- Boots a core and performs operations on it. -/
def run (setup : Setup) (ops : List Operation) : Transcript :=
  match Config.build setup.timeSlice setup.mainPriority with
  | .error refusal => .misconfigured refusal
  | .ok config =>
    let bare := setup.core config
    match Core.boot bare with
    | .error halt k =>
      .bootHalted halt k.journal.events.toList (String.join k.journal.output.toList)
    | .ok (.error refusal) k =>
      .notBooted refusal k.machine.pool.inUse k.journal.events.toList
        (String.join k.journal.output.toList)
    | .ok (.ok ()) k =>
      let booted := Session.ofCore k
      let (steps, final, halted) := booted.performAll ops
      .ran ((Session.ofCore bare).recordOf (.ok (.done .nothing) booted)) steps
        (match halted with
          | some _ => none
          | none => some final.finish)

end Setup

end ThreadCore
