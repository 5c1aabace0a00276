import ThreadCore.Word

/-!
# Refusals

A refusal is a failure that the caller can recover from: the call did not happen. Every refusal has
a name and a code; across a system call the code travels as the word that represents it modulo
`2 ^ 64`.
-/

namespace ThreadCore

/-- Why a call was refused. -/
inductive Refusal
  /-- The caller may not do this. -/
  | notPermitted
  /-- What the call names is not there. -/
  | noSuchEntry
  /-- No page is left. -/
  | noMemory
  /-- The object is in use, or the answer is not there yet. -/
  | busy
  /-- A setting is out of range. -/
  | invalidArgument
deriving DecidableEq, Repr

namespace Refusal

/-- Every refusal. -/
def all : List Refusal := [notPermitted, noSuchEntry, noMemory, busy, invalidArgument]

/-- The name of a refusal. -/
def name : Refusal → String
  | notPermitted => "OperationNotPermitted"
  | noSuchEntry => "NoSuchEntry"
  | noMemory => "NoMemory"
  | busy => "Busy"
  | invalidArgument => "InvalidArgument"

/-- The code of a refusal. -/
def code : Refusal → Int
  | notPermitted => -1
  | noSuchEntry => -2
  | noMemory => -12
  | busy => -16
  | invalidArgument => -22

/-- The word that carries the code of a refusal. -/
def toWord (r : Refusal) : Nat := (r.code % (Word.limit : Int)).toNat

/-- The refusal with a given name. -/
def ofName? (s : String) : Option Refusal := all.find? fun r => r.name = s

/-- The refusal with a given code. -/
def ofCode? (n : Int) : Option Refusal := all.find? fun r => r.code = n

/-- What is said of a number that is no code. -/
def unknownCode (n : Int) : String := s!"TryFromError \x7b e: {n} \x7d"

theorem mem_all (r : Refusal) : r ∈ all := by cases r <;> decide

theorem ofCode?_code (r : Refusal) : ofCode? r.code = some r := by cases r <;> rfl

theorem ofName?_name (r : Refusal) : ofName? r.name = some r := by cases r <;> rfl

end Refusal

/-- The call could only have succeeded by waiting, and its caller does not wait. -/
structure WouldBlock where
deriving DecidableEq, Repr

end ThreadCore
