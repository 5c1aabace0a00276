import Mathlib.Algebra.BigOperators.Fin
import ThreadCore.Bench.Pool
import ThreadCore.Proofs.Lifetimes

/-!
# Words of a page

A word is the number that eight bytes of a page spell, wherever in the page it starts
(`Page.readWord_eq_sum`). So a word that was written is read again at its offset, and any other word
is read off the bytes that are there now, whether or not they overlap with it
(`Page.words_are_windows`). Where there is no word, nothing is read and nothing written.

The canary of a stack is the word at its base. It is intact exactly if the eight bytes there are
those that were written when the thread was made.
-/

namespace ThreadCore

namespace Page

variable {p q : Page} {offset : Nat}

/-! ## Numbers and their bytes -/

theorem toNat_byteOf (value i : Nat) : (byteOf value i).toNat = value / 256 ^ i % 256 := by
  rw [byteOf, UInt8.toNat_ofNat', Nat.shiftRight_eq_div_pow, Nat.pow_mul]

/-- The bytes of greater weight are those of the quotient. -/
theorem byteOf_succ (value i : Nat) : byteOf value (i + 1) = byteOf (value / 256) i := by
  apply UInt8.toNat_inj.mp
  rw [toNat_byteOf, toNat_byteOf, Nat.div_div_eq_div_mul, pow_succ']

theorem littleEndian_ofFn {n : Nat} (f : Fin n → UInt8) :
    littleEndian (List.ofFn f) = ∑ i : Fin n, (f i).toNat * 256 ^ (i : Nat) := by
  induction n with
  | zero => rfl
  | succ n ih =>
    rw [List.ofFn_succ, littleEndian, ih, Fin.sum_univ_succ, Fin.val_zero, pow_zero, mul_one,
      Finset.mul_sum]
    congr 1
    refine Finset.sum_congr rfl fun i _ => ?_
    rw [Fin.val_succ, pow_succ]
    ring

/-- The bytes of a number spell what is left of it in so many bytes. -/
theorem littleEndian_byteOf (n value : Nat) :
    littleEndian (List.ofFn fun i : Fin n => byteOf value i) = value % 256 ^ n := by
  induction n generalizing value with
  | zero => simp [littleEndian, Nat.mod_one]
  | succ n ih =>
    have htail : (fun i : Fin n => byteOf value (i.succ : Fin (n + 1))) =
        fun i : Fin n => byteOf (value / 256) i :=
      funext fun i => byteOf_succ value i
    have hhead : (byteOf value (0 : Fin (n + 1))).toNat = value % 256 := rfl
    rw [List.ofFn_succ, littleEndian, htail, hhead, ih, pow_succ', Nat.mod_mul]

/-- The number that bytes spell has these bytes. -/
theorem byteOf_littleEndian {n : Nat} (f : Fin n → UInt8) (i : Fin n) :
    byteOf (littleEndian (List.ofFn f)) i = f i := by
  induction n with
  | zero => exact i.elim0
  | succ n ih =>
    rw [List.ofFn_succ, littleEndian]
    have hlt : (f 0).toNat < 256 := (f 0).toNat_lt
    cases i using Fin.cases with
    | zero =>
      apply UInt8.toNat_inj.mp
      rw [Fin.val_zero, toNat_byteOf, pow_zero, Nat.div_one]
      omega
    | succ i =>
      rw [Fin.val_succ, byteOf_succ, show ∀ m, ((f 0).toNat + 256 * m) / 256 = m by omega]
      exact ih (fun i => f i.succ) i

/-! ## Reading and writing -/

theorem within (h : offset + wordSize ≤ pageSize) (i : Fin wordSize) : offset + i < pageSize :=
  Nat.lt_of_lt_of_le (Nat.add_lt_add_left i.isLt offset) h

/-- Where byte `i` of the word at `offset` is. -/
def place (h : offset + wordSize ≤ pageSize) (i : Fin wordSize) : Fin pageSize :=
  ⟨offset + i, within h i⟩

theorem wordAt_eq (p : Page) (h : offset + wordSize ≤ pageSize) :
    p.wordAt offset h = littleEndian (List.ofFn fun i => p.bytes (place h i)) :=
  rfl

theorem readWord_of_le (h : offset + wordSize ≤ pageSize) :
    p.readWord offset = .ok (p.wordAt offset h) :=
  dif_pos h

theorem writeWord_of_le (h : offset + wordSize ≤ pageSize) (value : Nat) :
    p.writeWord offset value = .ok (p.withWord offset value) :=
  if_pos h

/-- A word is the number that the bytes from its offset on spell. -/
theorem readWord_eq_sum (p : Page) (h : offset + wordSize ≤ pageSize) :
    p.readWord offset = .ok (∑ i, (p.bytes (place h i)).toNat * 256 ^ (i : Nat)) := by
  rw [readWord_of_le h, wordAt_eq, littleEndian_ofFn]

/-- Inside the word are the bytes of the value. -/
theorem bytes_withWord (p : Page) (h : offset + wordSize ≤ pageSize) (value : Nat)
    (i : Fin wordSize) : (p.withWord offset value).bytes (place h i) = byteOf value i := by
  have hin : offset ≤ offset + (i : Nat) ∧ offset + (i : Nat) < offset + wordSize := by omega
  exact (if_pos hin).trans (congrArg (byteOf value) (Nat.add_sub_cancel_left offset i))

theorem wordAt_withWord (p : Page) (h : offset + wordSize ≤ pageSize) (v : UInt64) :
    (p.withWord offset v.toNat).wordAt offset h = v.toNat := by
  have hbytes : (fun i => (p.withWord offset v.toNat).bytes (place h i)) =
      fun i : Fin wordSize => byteOf v.toNat i :=
    funext (bytes_withWord p h v.toNat)
  rw [wordAt_eq, hbytes, littleEndian_byteOf]
  exact Nat.mod_eq_of_lt v.toNat_lt

/-- What was read can be written back. -/
theorem withWord_wordAt (p : Page) (h : offset + wordSize ≤ pageSize) :
    p.withWord offset (p.wordAt offset h) = p := by
  have hbytes : (p.withWord offset (p.wordAt offset h)).bytes = p.bytes := by
    funext j
    show (if _ then _ else _) = _
    by_cases hj : offset ≤ (j : Nat) ∧ (j : Nat) < offset + wordSize
    · rw [if_pos hj]
      have hbyte := byteOf_littleEndian (fun i => p.bytes (place h i)) ⟨j - offset, by omega⟩
      refine hbyte.trans (congrArg p.bytes (Fin.ext ?_))
      show offset + (j - offset) = (j : Nat)
      omega
    · rw [if_neg hj]
  cases p
  exact congrArg (Page.mk _) hbytes

/-- Two words are the same exactly if their bytes are. -/
theorem wordAt_eq_iff (h : offset + wordSize ≤ pageSize) : p.wordAt offset h = q.wordAt offset h ↔
    ∀ i, p.bytes (place h i) = q.bytes (place h i) := by
  constructor
  · intro heq i
    have hp := byteOf_littleEndian (fun i => p.bytes (place h i)) i
    have hq := byteOf_littleEndian (fun i => q.bytes (place h i)) i
    exact hp.symm.trans ((congrArg (byteOf · i) heq).trans hq)
  · intro heq
    exact congrArg littleEndian (congrArg List.ofFn (funext heq))

/-- The bytes of the word at the base. -/
def atBase (i : Fin wordSize) : Fin pageSize := i.castLE (by decide)

theorem canary_eq_iff : p.canary = q.canary ↔ ∀ i, p.bytes (atBase i) = q.bytes (atBase i) := by
  have hroom : 0 + wordSize ≤ pageSize := by decide
  have hbase : ∀ i, place hroom i = atBase i := fun i => Fin.ext (Nat.zero_add _)
  rw [canary, canary, wordAt_eq_iff]
  simp only [hbase]

/-! ## Windows -/

/-- `q` is `p` with `v` as the word at `offset`. -/
structure Written (p : Page) (offset : Nat) (v : UInt64) (q : Page) : Prop where
  frame : q.frame = p.frame
  /-- The word is there. -/
  word : q.readWord offset = .ok v.toNat
  /-- The bytes outside it are as before. -/
  outside : ∀ j : Fin pageSize, ¬(offset ≤ j ∧ j < offset + wordSize) → q.bytes j = p.bytes j
  /-- Every word is the number that the bytes there spell now. -/
  words : ∀ other (h : other + wordSize ≤ pageSize), q.readWord other =
    .ok (∑ i, (q.bytes (place h i)).toNat * 256 ^ (i : Nat))

theorem written_withWord (p : Page) (h : offset + wordSize ≤ pageSize) (v : UInt64) :
    p.Written offset v (p.withWord offset v.toNat) where
  frame := rfl
  word := (readWord_of_le h).trans (congrArg Except.ok (wordAt_withWord p h v))
  outside _ hj := if_neg hj
  words _ h := readWord_eq_sum _ h

end Page

namespace Bench.Pool

variable {s : State} {i offset value : Nat} {p : Page}

theorem withPage_of_some (hp : s.pages[i]? = some (some p)) (f : Page → EStateM Halt State Reply) :
    withPage i f s = f p s := by
  unfold withPage
  rw [get_bind_eq, hp]

/-- Where there is no word, a trial halts and all its pages are as before. -/
theorem step_word_of_lt (hp : s.pages[i]? = some (some p)) (h : pageSize < offset + Page.wordSize) :
    step (.readWord i offset) s = .error (Page.wordFault offset) s ∧
      step (.writeWord i offset value) s = .error (Page.wordFault offset) s := by
  constructor
  · refine (withPage_of_some hp _).trans ?_
    rw [Page.readWord, dif_neg (by omega)]
    rfl
  · refine (withPage_of_some hp _).trans ?_
    rw [Page.writeWord, if_neg (by omega)]
    rfl

end Bench.Pool

open Bench.Pool (State) in
/-- **Words are windows on the bytes.** A word that is written is there, at any offset, no byte
outside it has changed, and all words are read off the bytes that are there now. To write what was
read changes nothing. If the page ends before the word does, both operations halt, and a trial has
its pages as before. So a canary is intact exactly if the first eight bytes of the stack are those
of a new thread. -/
theorem Page.words_are_windows (p : Page) (offset : Nat) (v : UInt64) (th : Thread) (id : ThreadId)
    (name : String) (priority : Priority) (page : Page) (entry : Option String)
    (task : Option Task) :
    (offset + wordSize ≤ pageSize →
      (∃ q, p.writeWord offset v.toNat = .ok q ∧ p.Written offset v q) ∧
        ∃ w, p.readWord offset = .ok w ∧ p.writeWord offset w = .ok p) ∧
    (pageSize < offset + wordSize →
      p.readWord offset = .error (wordFault offset) ∧
        p.writeWord offset v.toNat = .error (wordFault offset) ∧
        ∀ (s : State) (i : Nat), s.pages[i]? = some (some p) →
          Bench.Pool.step (.readWord i offset) s = .error (wordFault offset) s ∧
            Bench.Pool.step (.writeWord i offset v.toNat) s = .error (wordFault offset) s) ∧
    (th.intact = true ↔ ∀ i, th.stack.bytes (atBase i) =
      (Thread.create id name priority page entry task).stack.bytes (atBase i)) := by
  refine ⟨fun h => ⟨⟨_, writeWord_of_le h _, written_withWord p h v⟩, _, readWord_of_le h, ?_⟩,
    fun h => ⟨dif_neg (by omega), if_neg (by omega), fun s i hp => Bench.Pool.step_word_of_lt hp h⟩,
      ?_⟩
  · rw [writeWord_of_le h, withWord_wordAt]
  · have hmagic : (Thread.create id name priority page entry task).stack.canary = stackMagic :=
      canary_asStack page
    rw [Thread.intact, decide_eq_true_iff, ← hmagic, canary_eq_iff]

/-- A word is written at the end of a page, at an odd offset, and read back together with the three
bytes before it. One byte further there is no room. -/
theorem Page.words_are_windows_unaligned :
    4087 + wordSize ≤ pageSize ∧ pageSize < 4089 + wordSize ∧
      (∃ q, (blank 1).writeWord 4087 0x1122334455667788 = .ok q ∧
        q.readWord 4087 = .ok 0x1122334455667788 ∧
        q.readWord 4084 = .ok 0x4455667788000000 ∧ q.bytes ⟨4095, by decide⟩ = 0) ∧
      (blank 1).readWord 4089 = .error (.wordEndsOutside 4097) := by
  have hroom : 4087 + wordSize ≤ pageSize := by decide
  have hnone : pageSize < 4089 + wordSize := by decide
  obtain ⟨⟨q, hq, hw⟩, -⟩ :=
    (words_are_windows (blank 1) 4087 0x1122334455667788 default 1 "" 0 default none none).1 hroom
  obtain ⟨hread, -, -⟩ :=
    (words_are_windows (blank 1) 4089 0 default 1 "" 0 default none none).2.1 hnone
  refine ⟨hroom, hnone, ⟨q, hq, hw.word, ?_, hw.outside ⟨4095, by decide⟩ (by decide)⟩, hread⟩
  rw [writeWord_of_le hroom] at hq
  obtain rfl := Except.ok.inj hq
  rfl

end ThreadCore
