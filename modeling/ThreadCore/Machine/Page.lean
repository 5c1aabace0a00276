import ThreadCore.Halt
import ThreadCore.Word

/-!
# Pages

A page is a frame of 4096 bytes. Bytes are read and written one by one, or eight at a time as a
word, at any offset, the least significant byte first.
-/

namespace ThreadCore

/-- A frame and what it holds. -/
structure Page where
  /-- The number of the frame. -/
  frame : Nat
  /-- The bytes of the frame. -/
  bytes : Fin pageSize → UInt8

namespace Page

/-- The number of bytes of a word. -/
def wordSize : Nat := 8

/-- A page of zeros. -/
def blank (frame : Nat) : Page := ⟨frame, fun _ => 0⟩

instance : Inhabited Page := ⟨blank 0⟩

/-- The address of the first byte. -/
def address (p : Page) : Nat := p.frame * pageSize

/-- The address of the last word. -/
def lastWord (p : Page) : Nat := p.address + pageSize - wordSize

/-- The number that bytes spell, the least significant first. -/
def littleEndian : List UInt8 → Nat
  | [] => 0
  | b :: bs => b.toNat + 256 * littleEndian bs

/-- The byte of weight `256 ^ i` of a number. -/
def byteOf (value i : Nat) : UInt8 := UInt8.ofNat (value >>> (8 * i))

/-- Why there is no word at `offset`. -/
def wordFault (offset : Nat) : Halt :=
  if Word.limit ≤ offset + wordSize then .overflow
  else if pageSize < offset then .wordStartsOutside offset
  else .wordEndsOutside (offset + wordSize)

/-- The word at `offset`, where there is one. -/
def wordAt (p : Page) (offset : Nat) (h : offset + wordSize ≤ pageSize) : Nat :=
  littleEndian (List.ofFn fun i : Fin wordSize => p.bytes ⟨offset + i, by omega⟩)

/-- The page with `value` as the word at `offset`, as far as the page goes. -/
def withWord (p : Page) (offset value : Nat) : Page :=
  { p with
    bytes := fun j =>
      if offset ≤ j ∧ j < offset + wordSize then byteOf value (j - offset) else p.bytes j }

/-- Reads the word at `offset`. -/
def readWord (p : Page) (offset : Nat) : Except Halt Nat :=
  if h : offset + wordSize ≤ pageSize then .ok (p.wordAt offset h) else .error (wordFault offset)

/-- Writes `value` as the word at `offset`. -/
def writeWord (p : Page) (offset value : Nat) : Except Halt Page :=
  if offset + wordSize ≤ pageSize then .ok (p.withWord offset value)
  else .error (wordFault offset)

/-- Writes `value` as the byte at `offset`. -/
def writeByte (p : Page) (offset : Nat) (value : UInt8) : Except Halt Page :=
  if offset < pageSize then
    .ok { p with bytes := fun j => if j.val = offset then value else p.bytes j }
  else .error (.byteOutside offset)

/-- The offsets of the bytes that are not zero, with their bytes. -/
def nonzero (p : Page) : List (Nat × UInt8) :=
  (List.finRange pageSize).filterMap fun i =>
    if p.bytes i = 0 then none else some (i.val, p.bytes i)

/-- The word at the base of a page, where a stack keeps its canary. -/
def canary (p : Page) : Nat := p.wordAt 0 (by decide)

/-- The page with the magic word at its base. -/
def asStack (p : Page) : Page := p.withWord 0 stackMagic

end Page

end ThreadCore
