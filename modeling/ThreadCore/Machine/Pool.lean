import ThreadCore.Halt
import ThreadCore.Word

/-!
# The page pool

A pool counts the pages it has out and hands out no more than its capacity. The count is a word: it
is lowered before it is looked at, so a page returned to a pool that has none out leaves the
greatest word behind.
-/

namespace ThreadCore

/-- A pool of pages. -/
structure Pool where
  /-- The most pages that may be out. -/
  capacity : Nat
  /-- The pages that are out. -/
  inUse : Nat
deriving DecidableEq, Repr

/-- A step of a pool. -/
abbrev PoolM := EStateM Halt Pool

namespace Pool

/-- A pool of `capacity` pages, none of them out. -/
def ofCapacity (capacity : Nat) : Pool := ⟨capacity, 0⟩

/-- A pool that does not run out. -/
def unbounded : Pool := ofCapacity Word.greatest

instance : Inhabited Pool := ⟨unbounded⟩

/-- Takes a page out, if one is left. -/
def take : PoolM Bool := do
  let pool ← get
  match Word.next? pool.inUse with
  | none => throw .overflow
  | some next =>
    if pool.inUse < pool.capacity then
      set { pool with inUse := next }
      return true
    else
      return false

/-- Takes a page back. -/
def giveBack : PoolM Unit := do
  let pool ← get
  if pool.inUse = 0 then
    set { pool with inUse := Word.greatest }
    throw .poolEmpty
  else
    set { pool with inUse := pool.inUse - 1 }

end Pool

end ThreadCore
