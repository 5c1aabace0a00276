import ThreadCore.Thread.State
import ThreadCore.Refusal

/-!
# Configuration

The settings that are fixed when the core is booted: the length of a time slice and the priority of
the thread that boots. A slice has at least one tick and the priority is in range.
-/

namespace ThreadCore

/-- The settings of a core. -/
structure Config where
  /-- The ticks a thread may run before it makes room for its equals. -/
  timeSlice : Nat
  /-- The priority of the thread that boots. -/
  mainPriority : Priority
deriving DecidableEq, Repr

namespace Config

/-- The settings of a core that is given none. -/
def standard : Config := ⟨4, Priority.usual⟩

/-- A configuration that a core can be booted with. -/
def Valid (c : Config) : Prop := c.timeSlice ≠ 0 ∧ c.mainPriority ≤ Priority.greatest

instance (c : Config) : Decidable c.Valid := inferInstanceAs (Decidable (_ ∧ _))

/-- The standard settings with those that are given in their place, unless one is out of range. -/
def build (timeSlice : Option Nat) (mainPriority : Option Priority) : Except Refusal Config :=
  let c : Config :=
    ⟨timeSlice.getD standard.timeSlice, mainPriority.getD standard.mainPriority⟩
  if c.Valid then .ok c else .error .invalidArgument

/-- The text of a configuration. -/
def text (c : Config) : String :=
  s!"SystemConfiguration \x7b time_slice: {c.timeSlice}, main_priority: {c.mainPriority} \x7d"

theorem valid_of_build {s : Option Nat} {p : Option Priority} {c : Config}
    (h : build s p = .ok c) : c.Valid := by
  simp only [build] at h
  split at h
  · rename_i hc
    cases h
    exact hc
  · cases h

end Config

end ThreadCore
