/-!
# The flags register

The register of processor flags, as the set of flags that are on. Each flag has a position in the
register word; the positions between them belong to no flag and are dropped when a word is read.
-/

namespace ThreadCore

/-- A processor flag. -/
inductive Flag
  | carry
  /-- Reserved, on from reset. -/
  | reserved
  | parity
  | adjust
  | zero
  | sign
  | trap
  /-- Interrupts are delivered while it is on. -/
  | interrupt
  | direction
  | overflow
deriving DecidableEq, Repr

namespace Flag

/-- Every flag, by position. -/
def all : List Flag :=
  [carry, reserved, parity, adjust, zero, sign, trap, interrupt, direction, overflow]

/-- The bit of a flag in the register word. -/
def position : Flag → Nat
  | carry => 0
  | reserved => 1
  | parity => 2
  | adjust => 4
  | zero => 6
  | sign => 7
  | trap => 8
  | interrupt => 9
  | direction => 10
  | overflow => 11

/-- The short name of a flag. -/
def label : Flag → String
  | carry => "CF"
  | reserved => "_RSVD_1"
  | parity => "PF"
  | adjust => "AF"
  | zero => "ZF"
  | sign => "SF"
  | trap => "TF"
  | interrupt => "IF"
  | direction => "DF"
  | overflow => "OF"

end Flag

/-- The flags that are on. -/
structure Flags where
  isOn : Flag → Bool

namespace Flags

/-- The flags of a register word. -/
def ofWord (w : Nat) : Flags := ⟨fun f => w.testBit f.position⟩

/-- The register word of the flags. -/
def toWord (s : Flags) : Nat :=
  (Flag.all.filter s.isOn).foldl (fun w f => w ||| 1 <<< f.position) 0

/-- The register after reset: interrupts are off. -/
def reset : Flags := ⟨fun f => f = .reserved⟩

/-- The flags with `f` switched to `on`. -/
def set (s : Flags) (f : Flag) (on : Bool) : Flags := ⟨fun g => if g = f then on else s.isOn g⟩

/-- The flags that are off. -/
def complement (s : Flags) : Flags := ⟨fun f => !s.isOn f⟩

/-- Whether no flag is on. -/
def isEmpty (s : Flags) : Bool := Flag.all.all fun f => !s.isOn f

/-- Whether every flag is on. -/
def isFull (s : Flags) : Bool := Flag.all.all s.isOn

/-- Whether a word has no bit outside the flags. -/
def fits (w : Nat) : Bool := (ofWord w).toWord = w

/-- The names of the flags that are on. -/
def text (s : Flags) : String :=
  if s.isEmpty then "(empty)" else " | ".intercalate ((Flag.all.filter s.isOn).map Flag.label)

@[simp] theorem isOn_ofWord (w : Nat) (f : Flag) : (ofWord w).isOn f = w.testBit f.position := rfl

@[simp] theorem isOn_set_self (s : Flags) (f : Flag) (on : Bool) : (s.set f on).isOn f = on := by
  simp [set]

@[simp] theorem set_set (s : Flags) (f : Flag) (a b : Bool) : (s.set f a).set f b = s.set f b := by
  simp only [set, mk.injEq]
  funext g
  split <;> rfl

theorem set_isOn (s : Flags) (f : Flag) : s.set f (s.isOn f) = s := by
  cases s
  simp only [set, mk.injEq]
  funext g
  split
  · simp_all
  · rfl

end Flags

end ThreadCore
