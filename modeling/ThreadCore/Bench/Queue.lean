import ThreadCore.Bench.Basic
import ThreadCore.Queue

/-!
# Trials of a wait queue

The queue is tried with ranks from a table that may change between any two operations.
-/

namespace ThreadCore.Bench.Queue

/-- A queue and the ranks of threads; the rank given last counts, and zero if none was given. -/
structure State where
  queue : ThreadCore.Queue
  ranks : List (ThreadId × Int)

/-- A queue without entries and a table without ranks. -/
def start : State := ⟨.empty, []⟩

/-- The rank of a thread. -/
def State.rank (s : State) (t : ThreadId) : Int := (s.ranks.lookup t).getD 0

/-- Whether `t` comes before `u`: by greater rank, or in reverse by lesser rank. -/
def State.outranks (s : State) (reverse : Bool) (t u : ThreadId) : Bool :=
  if reverse then s.rank t < s.rank u else s.rank u < s.rank t

/-- An operation on a queue. -/
inductive Op
  | push (t : ThreadId)
  | remove (t : ThreadId)
  | contains (t : ThreadId)
  | rank (t : ThreadId) (rank : Int)
  | peek (reverse : Bool)
  | pop (reverse : Bool)
  /-- Keeps the threads whose number leaves `remainder` modulo `modulus`. -/
  | retain (modulus remainder : Nat)
  | text

/-- What an operation returns. -/
inductive Reply
  | nothing
  | flag (b : Bool)
  | thread (t : Option ThreadId)
  | text (s : String)

/-- Performs an operation. -/
def step (op : Op) : EStateM Halt State Reply := do
  let s ← get
  match op with
  | .push t =>
    match s.queue.push t with
    | .error halt => throw halt
    | .ok q =>
      set { s with queue := q }
      return .nothing
  | .remove t =>
    set { s with queue := s.queue.remove t }
    return .flag (t ∈ s.queue)
  | .contains t => return .flag (t ∈ s.queue)
  | .rank t rank =>
    set { s with ranks := (t, rank) :: s.ranks }
    return .nothing
  | .peek reverse => return .thread (s.queue.foremost (s.outranks reverse))
  | .pop reverse =>
    match s.queue.takeForemost (s.outranks reverse) with
    | none => return .thread none
    | some (t, q) =>
      set { s with queue := q }
      return .thread (some t)
  | .retain modulus remainder =>
    set { s with queue := s.queue.keep fun t => t % modulus = remainder }
    return .nothing
  | .text => return .text s.queue.text

end ThreadCore.Bench.Queue
