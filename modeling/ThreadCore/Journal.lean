import ThreadCore.Thread.State
import ThreadCore.Object.Handle
import ThreadCore.Refusal

/-!
# The journal

What the outside sees of a run: events of the machine and of attached tasks, and the text on the
console. Both only grow. Notices are what the core says about its own work; each has a severity, and
the console shows those that are severe enough.
-/

namespace ThreadCore

/-- Something that happened to the machine or to a task. -/
inductive Event
  /-- A page was handed out. -/
  | allocated (frame : Nat)
  /-- No page was left. -/
  | refused
  /-- A page was taken back. -/
  | freed (frame : Nat)
  /-- The processor goes from one thread to another. -/
  | switched (source target : ThreadId)
  /-- A thread function starts. -/
  | launched (label : String)
  /-- The thread of a task was given the processor. -/
  | activated (task : String)
  /-- The thread of a task exits. -/
  | taskExited (task : String) (status : Int32)
deriving DecidableEq, Repr

/-- How much a notice matters, the gravest first. -/
inductive Severity
  | error
  | warn
  | info
  | debug
  | trace
deriving DecidableEq, Repr

namespace Severity

/-- Position in the order, the gravest first. -/
def rank : Severity → Nat
  | error => 1
  | warn => 2
  | info => 3
  | debug => 4
  | trace => 5

/-- The word that a notice starts with. -/
def label : Severity → String
  | error => "ERROR"
  | warn => "WARN"
  | info => "INFO"
  | debug => "DEBUG"
  | trace => "TRACE"

end Severity

/-- What the core says about its work. -/
inductive Notice
  | booted (main idle : ThreadId)
  | creationRefused (creator : ThreadId) (name : String) (refusal : Refusal)
  | created (creator thread : ThreadId) (name : String) (priority : Priority)
  | exits (thread : ThreadId) (name : String)
  | reclaims (thread : ThreadId)
  | switches (source target : ThreadId)
  | sleeps (thread : ThreadId) (wakeAt : Nat)
  | wakes (thread : ThreadId) (now : Nat)
  | waits (thread : ThreadId) (handle : Handle)
  | waitsForHolder (thread : ThreadId) (lock : ObjectId) (holder : ThreadId)
  | donates (waiter holder : ThreadId) (priority : Priority)
  | handsOver (lock : ObjectId) (source target : ThreadId)
  | signals (condition : ObjectId) (thread : ThreadId)
  | reports (thread : ThreadId) (status : Int32) (parent : ThreadId)
deriving DecidableEq, Repr

namespace Notice

/-- The severity of a notice. -/
def severity : Notice → Severity
  | booted .. => .info
  | creationRefused .. => .warn
  | created .. | exits .. | reports .. => .debug
  | reclaims .. | switches .. | sleeps .. | wakes .. | waits .. | waitsForHolder .. | donates ..
  | handsOver .. | signals .. => .trace

/-- The text of a notice. -/
def text : Notice → String
  | booted main idle => s!"threads: main is {main}, idle is {idle}"
  | creationRefused creator name refusal =>
      s!"thread {creator}: cannot create {name}: {refusal.name}"
  | created creator thread name priority =>
      s!"thread {creator} created {thread} ({name}), priority {priority}"
  | exits thread name => s!"thread {thread} ({name}) exits"
  | reclaims thread => s!"reclaiming the stack of thread {thread}"
  | switches source target => s!"switch {source} -> {target}"
  | sleeps thread wakeAt => s!"thread {thread} sleeps until tick {wakeAt}"
  | wakes thread now => s!"thread {thread} wakes up at tick {now}"
  | waits thread handle => s!"thread {thread} waits on {handle.text}"
  | waitsForHolder thread lock holder =>
      s!"thread {thread} waits on {(Handle.lock lock).text} held by {holder}"
  | donates waiter holder priority =>
      s!"thread {waiter} donates to {holder}, now at priority {priority}"
  | handsOver lock source target =>
      s!"{(Handle.lock lock).text} handed from thread {source} to {target}"
  | signals condition thread => s!"{(Handle.condition condition).text} signals thread {thread}"
  | reports thread status parent =>
      s!"thread {thread} reports exit status {status.toInt} to {parent}"

end Notice

/-- Which notices the console shows. -/
structure Console where
  /-- The least grave severity that is shown; `none` shows nothing. -/
  threshold : Option Severity
  /-- Shows no notice at all. -/
  quiet : Bool
deriving DecidableEq, Repr, Inhabited

namespace Console

/-- Whether a notice of severity `s` is shown. -/
def admits (c : Console) (s : Severity) : Bool :=
  !c.quiet && c.threshold.any fun limit => s.rank ≤ limit.rank

/-- The line of a notice. -/
def line (s : Severity) (text : String) : String := s!"[{s.label}] {text}\n"

end Console

/-- Events and console text, in order. -/
structure Journal where
  events : Array Event
  output : Array String
deriving DecidableEq, Repr

namespace Journal

/-- The journal in which nothing is written. -/
def empty : Journal := ⟨#[], #[]⟩

instance : Inhabited Journal := ⟨empty⟩

/-- The journal with one more event. -/
def addEvent (j : Journal) (e : Event) : Journal := { j with events := j.events.push e }

/-- The journal with more console text. -/
def addText (j : Journal) (text : String) : Journal := { j with output := j.output.push text }

end Journal

end ThreadCore
