/-!
# Thread names

A thread keeps at most sixteen bytes of its name. A name that is too long is cut between characters,
never inside one.
-/

namespace ThreadCore.Name

/-- The room for a name, in bytes. -/
def room : Nat := 16

/-- The longest beginning of `cs` whose characters take at most `room` bytes. -/
def fitting : (room : Nat) → List Char → List Char
  | _, [] => []
  | room, c :: cs => if c.utf8Size ≤ room then c :: fitting (room - c.utf8Size) cs else []

/-- The part of `name` that a thread keeps. -/
def clip (name : String) : String := String.ofList (fitting room name.toList)

end ThreadCore.Name
