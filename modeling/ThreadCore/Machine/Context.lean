import ThreadCore.Text.Quoted

/-!
# Contexts

A context is what a thread that is off the processor leaves behind: its stack pointer and, until it
has run for the first time, the function it starts with. A function is known by its label.
-/

namespace ThreadCore

/-- A saved context. -/
structure Context where
  /-- The stack pointer. -/
  sp : Nat
  /-- The function that has not started yet. -/
  entry : Option String
deriving DecidableEq, Repr, Inhabited

namespace Context

/-- Whether the function has started. -/
def launched (c : Context) : Bool := c.entry.isNone

/-- The text of a context. -/
def text (c : Context) : String :=
  s!"Context \x7b sp: 0x{Text.hex c.sp}, launched: {c.launched} \x7d"

end Context

end ThreadCore
