import ThreadCore.Bench.Basic
import ThreadCore.Machine.Page
import ThreadCore.Machine.Pool

/-!
# Trials of a page pool

Pages are named by the order in which they turned up, from the pool or from elsewhere. A page that
is handed to the pool is gone, whether or not the pool takes it.
-/

namespace ThreadCore.Bench.Pool

/-- A pool and the pages that turned up, without those that are gone. -/
structure State where
  pool : ThreadCore.Pool
  pages : Array (Option Page)

/-- A pool that nothing was taken from. -/
def start (capacity : Option Nat) : State :=
  ⟨match capacity with
    | none => .unbounded
    | some n => .ofCapacity n, #[]⟩

/-- An operation on a pool or on a page. -/
inductive Op
  | take
  /-- A page turns up that is not from the pool. -/
  | foreign
  | free (page : Nat)
  | writeWord (page offset value : Nat)
  | readWord (page offset : Nat)
  | writeByte (page offset : Nat) (value : UInt8)
  | nonzero (page : Nat)
  | aligned (page : Nat)

/-- What an operation returns. -/
inductive Reply
  | nothing
  | flag (b : Bool)
  | word (n : Nat)
  | bytes (bs : List (Nat × UInt8))
  /-- There is no such page. -/
  | misused

/-- Adds a page of zeros to those that turned up. -/
def State.addPage (s : State) : State :=
  { s with pages := s.pages.push (some (.blank (s.pages.size + 1))) }

/-- Runs a step of the pool. -/
def onPool {α : Type} (action : PoolM α) : EStateM Halt State α := fun s =>
  match action s.pool with
  | .ok a pool => .ok a { s with pool := pool }
  | .error halt pool => .error halt { s with pool := pool }

/-- Goes on with a page, if it is there. -/
def withPage (i : Nat) (f : Page → EStateM Halt State Reply) : EStateM Halt State Reply := do
  match (← get).pages[i]? with
  | some (some page) => f page
  | _ => return .misused

/-- Puts another page in the place of one, unless there is none. -/
def putPage (i : Nat) : Except Halt Page → EStateM Halt State Reply
  | .error halt => throw halt
  | .ok page => do
    modify fun s => { s with pages := s.pages.setIfInBounds i (some page) }
    return .nothing

/-- Performs an operation. -/
def step : Op → EStateM Halt State Reply
  | .take => do
      let taken ← onPool ThreadCore.Pool.take
      if taken then modify State.addPage
      return .flag taken
  | .foreign => do
      modify State.addPage
      return .nothing
  | .free i =>
      withPage i fun _ => do
        modify fun s => { s with pages := s.pages.setIfInBounds i none }
        onPool ThreadCore.Pool.giveBack
        return .nothing
  | .writeWord i offset value => withPage i fun page => putPage i (page.writeWord offset value)
  | .readWord i offset =>
      withPage i fun page =>
        match page.readWord offset with
        | .ok word => return .word word
        | .error halt => throw halt
  | .writeByte i offset value => withPage i fun page => putPage i (page.writeByte offset value)
  | .nonzero i => withPage i fun page => return .bytes page.nonzero
  | .aligned i => withPage i fun page => return .flag (page.address % pageSize = 0)

end ThreadCore.Bench.Pool
