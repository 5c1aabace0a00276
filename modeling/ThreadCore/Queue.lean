import ThreadCore.Halt

/-!
# Wait queues

A wait queue holds threads in the order they arrived. It does not rank them: whoever takes an entry
out says which threads outrank which, so a priority that changes while its thread waits counts with
its value at that moment. Among entries that nobody outranks, the earliest arrival comes first.
-/

namespace ThreadCore

/-- Threads in arrival order. -/
structure Queue where
  entries : List ThreadId
deriving DecidableEq, Repr

namespace Queue

/-- The queue without entries. -/
def empty : Queue := ⟨[]⟩

instance : Inhabited Queue := ⟨empty⟩

instance : Membership ThreadId Queue := ⟨fun q t => t ∈ q.entries⟩

instance (t : ThreadId) (q : Queue) : Decidable (t ∈ q) :=
  inferInstanceAs (Decidable (t ∈ q.entries))

theorem mem_def {t : ThreadId} {q : Queue} : t ∈ q ↔ t ∈ q.entries := Iff.rfl

/-- The number of entries. -/
def size (q : Queue) : Nat := q.entries.length

/-- Whether there is no entry. -/
def isEmpty (q : Queue) : Bool := q.entries.isEmpty

/-- The queue after `t` has arrived. A thread that waits already cannot arrive. -/
def push (q : Queue) (t : ThreadId) : Except Halt Queue :=
  if t ∈ q then .error (.queuedTwice t) else .ok ⟨q.entries ++ [t]⟩

/-- The queue without `t`. -/
def remove (q : Queue) (t : ThreadId) : Queue := ⟨q.entries.erase t⟩

/-- The entries that satisfy `p`. -/
def keep (q : Queue) (p : ThreadId → Bool) : Queue := ⟨q.entries.filter p⟩

/-- The first of `ts` that no later one outranks and that outranks, or came before, all others. -/
def foremostOf (outranks : ThreadId → ThreadId → Bool) : List ThreadId → Option ThreadId
  | [] => none
  | t :: ts =>
      match foremostOf outranks ts with
      | none => some t
      | some u => if outranks u t then some u else some t

/-- The entry to take out first: no other outranks it, and of several such it arrived first. -/
def foremost (q : Queue) (outranks : ThreadId → ThreadId → Bool) : Option ThreadId :=
  foremostOf outranks q.entries

/-- The entry to take out first, and the queue without it. -/
def takeForemost (q : Queue) (outranks : ThreadId → ThreadId → Bool) :
    Option (ThreadId × Queue) :=
  (q.foremost outranks).map fun t => (t, q.remove t)

/-- The text of a queue. -/
def text (q : Queue) : String :=
  s!"WaitQueue \x7b entries: {Text.listing (q.entries.map toString)} \x7d"

@[simp] theorem entries_empty : empty.entries = [] := rfl

@[simp] theorem entries_remove (q : Queue) (t : ThreadId) :
    (q.remove t).entries = q.entries.erase t := rfl

@[simp] theorem entries_keep (q : Queue) (p : ThreadId → Bool) :
    (q.keep p).entries = q.entries.filter p := rfl

theorem push_eq_ok_iff {q r : Queue} {t : ThreadId} :
    q.push t = .ok r ↔ t ∉ q ∧ r.entries = q.entries ++ [t] := by
  cases r
  by_cases h : t ∈ q <;> simp [push, h, eq_comm]

theorem mem_keep {q : Queue} {p : ThreadId → Bool} {t : ThreadId} :
    t ∈ q.keep p ↔ t ∈ q ∧ p t := by
  simp [mem_def]

theorem foremostOf_eq_none_iff {outranks : ThreadId → ThreadId → Bool} {ts : List ThreadId} :
    foremostOf outranks ts = none ↔ ts = [] := by
  cases ts with
  | nil => simp [foremostOf]
  | cons t ts =>
    simp only [foremostOf]
    split
    · simp
    · split <;> simp

theorem mem_of_foremostOf {outranks : ThreadId → ThreadId → Bool} {ts : List ThreadId}
    {t : ThreadId} (h : foremostOf outranks ts = some t) : t ∈ ts := by
  induction ts with
  | nil => simp [foremostOf] at h
  | cons u us ih =>
    simp only [foremostOf] at h
    split at h
    · simp_all
    · split at h <;> simp_all

end Queue

end ThreadCore
