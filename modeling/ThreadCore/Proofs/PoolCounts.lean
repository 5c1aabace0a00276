import Mathlib.Data.Nat.ModEq
import ThreadCore.Proofs.PageWords
import ThreadCore.Proofs.Steps
import ThreadCore.Proofs.Trials

/-!
# The count of a page pool

A trial of a pool is read as a list of entries: pages handed out, taken back or refused. The counter
of the pool is what was handed out less what was taken back and what was refused, up to a multiple
of the number of words. Refusing a page lowers the counter too. So the count is exact, and within
the capacity, until the first page is refused (`Bench.Pool.Counted`), and from the counter alone one
can tell what the next call does (`Bench.Pool.Serving`).
-/

namespace ThreadCore.Bench.Pool

/-- What an operation is in the books of a pool. -/
inductive Entry
  | handedOut
  | takenBack
  /-- A page was handed to the pool, and the pool halted. -/
  | refused
  | other
deriving DecidableEq

/-- The entry of an operation that ended in a certain way. -/
def entry : Op × Except Halt Reply → Entry
  | (.take, .ok (.flag true)) => .handedOut
  | (.free _, .ok .nothing) => .takenBack
  | (.free _, .error _) => .refused
  | _ => .other

/-- The books of a trial. -/
def books (capacity : Option UInt64) (ops : List Op) : List Entry :=
  (log step (start (capacity.map UInt64.toNat)) ops).map entry

/-- The state in the end of a trial. -/
def final (capacity : Option UInt64) (ops : List Op) : State :=
  finish step (start (capacity.map UInt64.toNat)) ops

/-- The most pages that may be out. -/
def limit (capacity : Option UInt64) : Nat := capacity.elim Word.greatest UInt64.toNat

variable {p p' : ThreadCore.Pool} {s : State} {done : List Entry} {e : Entry}

/-! ## One call -/

/-- What an operation does to a pool, by its entry. -/
inductive Moves (p : ThreadCore.Pool) : Entry → ThreadCore.Pool → Prop
  | handedOut (room : p.inUse < p.capacity) (next : p.inUse < Word.greatest) :
      Moves p .handedOut { p with inUse := p.inUse + 1 }
  | takenBack (some : 0 < p.inUse) : Moves p .takenBack { p with inUse := p.inUse - 1 }
  | refused (none : p.inUse = 0) : Moves p .refused { p with inUse := Word.greatest }
  | other : Moves p .other p

theorem onPool_of_ok {α : Type} {action : PoolM α} {a : α} (h : action s.pool = .ok a p) :
    onPool action s = .ok a { s with pool := p } := by
  unfold onPool
  rw [h]

theorem onPool_of_error {α : Type} {action : PoolM α} {halt : Halt}
    (h : action s.pool = .error halt p) : onPool action s = .error halt { s with pool := p } := by
  unfold onPool
  rw [h]

theorem line_take_of_lt (hroom : s.pool.inUse < s.pool.capacity)
    (hnext : s.pool.inUse < Word.greatest) : line step s .take =
      ⟨.ok (.flag true),
        ({ s with pool := { s.pool with inUse := s.pool.inUse + 1 } } : State).addPage⟩ :=
  line_of_ok (bind_eq_ok.mpr ⟨_, _, onPool_of_ok (ThreadCore.Pool.take_of_lt hroom hnext), rfl⟩)

theorem line_take_of_le (hfull : s.pool.capacity ≤ s.pool.inUse)
    (hnext : s.pool.inUse < Word.greatest) : line step s .take = ⟨.ok (.flag false), s⟩ :=
  line_of_ok (bind_eq_ok.mpr ⟨_, _, onPool_of_ok (ThreadCore.Pool.take_of_le hfull hnext), rfl⟩)

theorem line_take_of_greatest (hlast : Word.greatest ≤ s.pool.inUse) :
    line step s .take = ⟨.error .overflow, s⟩ :=
  line_of_error
    (bind_eq_error.mpr (.inl (onPool_of_error (ThreadCore.Pool.take_of_greatest hlast))))

variable {i : Nat} {page : Page} {f : Page → EStateM Halt State Reply}

theorem withPage_of_absent (h : ∀ page, s.pages[i]? ≠ some (some page))
    (f : Page → EStateM Halt State Reply) : withPage i f s = .ok .misused s := by
  unfold withPage
  rw [get_bind_eq]
  cases hi : s.pages[i]? with
  | none => rfl
  | some entry =>
    cases entry with
    | none => rfl
    | some page => exact absurd hi (h page)

theorem page_cases (s : State) (i : Nat) :
    (∃ page, s.pages[i]? = some (some page)) ∨ ∀ page, s.pages[i]? ≠ some (some page) :=
  Classical.or_iff_not_imp_left.mpr not_exists.mp

theorem line_free_of_pos (hpage : s.pages[i]? = some (some page)) (h : 0 < s.pool.inUse) :
    line step s (.free i) =
      ⟨.ok .nothing,
        { pages := s.pages.setIfInBounds i none,
          pool := { s.pool with inUse := s.pool.inUse - 1 } }⟩ := by
  refine line_of_ok ((withPage_of_some hpage _).trans ?_)
  exact modify_bind_eq_ok.mpr
    (bind_eq_ok.mpr ⟨(), _, onPool_of_ok (ThreadCore.Pool.giveBack_of_pos h), rfl⟩)

/-- The page is gone, and so is the count. -/
theorem line_free_of_zero (hpage : s.pages[i]? = some (some page)) (h : s.pool.inUse = 0) :
    line step s (.free i) =
      ⟨.error .poolEmpty,
        { pages := s.pages.setIfInBounds i none,
          pool := { s.pool with inUse := Word.greatest } }⟩ := by
  refine line_of_error ((withPage_of_some hpage _).trans ?_)
  let t : State := { s with pages := s.pages.setIfInBounds i none }
  have hgive : onPool ThreadCore.Pool.giveBack t = .error .poolEmpty _ :=
    onPool_of_error (ThreadCore.Pool.giveBack_of_zero h)
  exact bind_eq_error.mpr (.inr ⟨⟨⟩, t, rfl, bind_eq_error.mpr (.inl hgive)⟩)

theorem line_free_of_absent (h : ∀ page, s.pages[i]? ≠ some (some page)) :
    line step s (.free i) = ⟨.ok .misused, s⟩ :=
  line_of_ok (withPage_of_absent h _)

theorem pool_withPage (hf : ∀ page s, (Line.ofResult (f page s)).after.pool = s.pool) :
    (Line.ofResult (withPage i f s)).after.pool = s.pool := by
  rcases page_cases s i with ⟨page, hpage⟩ | habsent
  · rw [withPage_of_some hpage]
    exact hf page s
  · rw [withPage_of_absent habsent]
    rfl

theorem pool_putPage (r : Except Halt Page) :
    (Line.ofResult (putPage i r s)).after.pool = s.pool := by
  cases r with
  | error halt => rfl
  | ok page => rfl

/-- What one operation does to the pool. -/
theorem moves_line (s : State) (op : Op) :
    Moves s.pool (entry (op, (line step s op).outcome)) (line step s op).after.pool := by
  have haside : (∀ r, entry (op, r) = .other) → (line step s op).after.pool = s.pool →
      Moves s.pool (entry (op, (line step s op).outcome)) (line step s op).after.pool := by
    intro hentry hpool
    rw [hentry, hpool]
    exact .other
  cases op with
  | take =>
    rcases Nat.lt_or_ge s.pool.inUse Word.greatest with hnext | hlast
    · rcases Nat.lt_or_ge s.pool.inUse s.pool.capacity with hroom | hfull
      · rw [line_take_of_lt hroom hnext]
        exact .handedOut hroom hnext
      · rw [line_take_of_le hfull hnext]
        exact .other
    · rw [line_take_of_greatest hlast]
      exact .other
  | free i =>
    rcases page_cases s i with ⟨page, hpage⟩ | habsent
    · rcases Nat.eq_zero_or_pos s.pool.inUse with hzero | hpos
      · rw [line_free_of_zero hpage hzero]
        exact .refused hzero
      · rw [line_free_of_pos hpage hpos]
        exact .takenBack hpos
    · rw [line_free_of_absent habsent]
      exact .other
  | foreign => exact haside (fun _ => rfl) rfl
  | writeWord i offset value =>
    exact haside (fun _ => rfl) (pool_withPage fun page s => pool_putPage _)
  | writeByte i offset value =>
    exact haside (fun _ => rfl) (pool_withPage fun page s => pool_putPage _)
  | readWord i offset =>
    refine haside (fun _ => rfl) (pool_withPage fun page s => ?_)
    cases page.readWord offset with
    | ok word => rfl
    | error halt => rfl
  | nonzero i => exact haside (fun _ => rfl) (pool_withPage fun _ _ => rfl)
  | aligned i => exact haside (fun _ => rfl) (pool_withPage fun _ _ => rfl)

/-! ## A whole trial -/

/-- What the counter of a pool of so many pages is, by the books. -/
structure Counted (limit : Nat) (done : List Entry) (p : ThreadCore.Pool) : Prop where
  capacity : p.capacity = limit
  word : p.inUse ≤ Word.greatest
  /-- A page that was refused is counted off like one that was taken back. -/
  modEq : p.inUse + done.count .takenBack + done.count .refused ≡ done.count .handedOut
    [MOD Word.limit]
  /-- The count is exact as long as no page has been refused. -/
  exact : Entry.refused ∉ done → p.inUse + done.count .takenBack = done.count .handedOut
  within : Entry.refused ∉ done → p.inUse ≤ limit

theorem counted_start (capacity : Option UInt64) :
    Counted (limit capacity) [] (start (capacity.map UInt64.toNat)).pool := by
  have hcapacity : (start (capacity.map UInt64.toNat)).pool = .ofCapacity (limit capacity) := by
    cases capacity with
    | none => rfl
    | some n => rfl
  rw [hcapacity]
  exact ⟨rfl, Nat.zero_le _, rfl, fun _ => rfl, fun _ => Nat.zero_le _⟩

theorem count_concat (done : List Entry) (e a : Entry) :
    (done ++ [e]).count a = done.count a + if e = a then 1 else 0 := by
  rw [List.count_append, List.count_singleton]
  simp only [beq_iff_eq]

theorem Counted.moves {capacity : Nat} (h : Counted capacity done p) (hm : Moves p e p') :
    Counted capacity (done ++ [e]) p' := by
  have hold : Entry.refused ∉ done ++ [e] → Entry.refused ∉ done := mt (List.mem_append_left _)
  have hmod := h.modEq
  cases hm with
  | handedOut hroom hnext =>
    refine ⟨h.capacity, hnext, ?_, fun hno => ?_, fun _ => h.capacity ▸ hroom⟩
    · have hsum : p.inUse + 1 + done.count .takenBack + done.count .refused =
          p.inUse + done.count .takenBack + done.count .refused + 1 := by omega
      simpa only [count_concat, reduceCtorEq, if_false, if_true, Nat.add_zero,
        hsum] using hmod.add_right 1
    · have hexact := h.exact (hold hno)
      simp only [count_concat, reduceCtorEq, if_false, if_true]
      omega
  | takenBack hsome =>
    have hsum : p.inUse - 1 + (done.count .takenBack + 1) = p.inUse + done.count .takenBack := by
      omega
    have hle : p.inUse - 1 ≤ p.inUse := Nat.sub_le _ _
    refine ⟨h.capacity, hle.trans h.word, ?_, fun hno => ?_,
      fun hno => hle.trans (h.within (hold hno))⟩
    · simpa only [count_concat, reduceCtorEq, if_false, if_true, Nat.add_zero, hsum] using hmod
    · simpa only [count_concat, reduceCtorEq, if_false, if_true, Nat.add_zero, hsum] using h.exact
        (hold hno)
  | refused hnone =>
    have hin : Entry.refused ∈ done ++ [.refused] :=
      List.mem_append_right _ (List.mem_singleton_self _)
    -- The greatest word and the page that is counted off make up the number of words.
    have hsum : Word.greatest + done.count .takenBack + (done.count .refused + 1) =
        p.inUse + done.count .takenBack + done.count .refused + Word.limit := by
      have hlast : Word.greatest + 1 = Word.limit := rfl
      omega
    refine ⟨h.capacity, le_rfl, ?_, fun hno => absurd hin hno, fun hno => absurd hin hno⟩
    simp only [count_concat, reduceCtorEq, if_false, if_true, Nat.add_zero, hsum]
    exact Nat.add_modEq_right.trans hmod
  | other =>
    refine ⟨h.capacity, h.word, ?_, fun hno => ?_, fun hno => h.within (hold hno)⟩
    · simpa only [count_concat, reduceCtorEq, if_false, Nat.add_zero] using hmod
    · simpa only [count_concat, reduceCtorEq, if_false, Nat.add_zero] using h.exact (hold hno)

theorem counted_final (capacity : Option UInt64) (ops : List Op) :
    Counted (limit capacity) (books capacity ops) (final capacity ops).pool := by
  refine log_induction
    (P := fun done (s : State) => Counted (limit capacity) (done.map entry) s.pool)
    (counted_start capacity) (fun done s op h => ?_) ops
  rw [List.map_append, List.map_singleton]
  exact h.moves (moves_line s op)

/-- What the next call does, whatever was called before. -/
structure Serving (s : State) : Prop where
  /-- A page is handed out exactly if the count is below the capacity. -/
  take : s.pool.inUse < Word.greatest →
    (line step s .take).outcome = .ok (.flag (s.pool.inUse < s.pool.capacity))
  /-- At the greatest word nothing is handed out, and nothing is answered. -/
  take_last : s.pool.inUse = Word.greatest → line step s .take = ⟨.error .overflow, s⟩
  free : ∀ i page, s.pages[i]? = some (some page) → 0 < s.pool.inUse →
    (line step s (.free i)).outcome = .ok .nothing
  /-- A page that is refused takes the count with it. -/
  free_none : ∀ i page, s.pages[i]? = some (some page) → s.pool.inUse = 0 →
    (line step s (.free i)).outcome = .error .poolEmpty ∧
      (line step s (.free i)).after.pool.inUse = Word.greatest
  /-- What the call is in the books says how the count moves. -/
  moves : ∀ op, Moves s.pool (entry (op, (line step s op).outcome)) (line step s op).after.pool

theorem serving (s : State) : Serving s where
  take hnext := by
    rcases Nat.lt_or_ge s.pool.inUse s.pool.capacity with hroom | hfull
    · rw [line_take_of_lt hroom hnext, decide_eq_true hroom]
    · rw [line_take_of_le hfull hnext, decide_eq_false (Nat.not_lt.mpr hfull)]
  take_last hlast := line_take_of_greatest hlast.ge
  free _ _ hpage hpos := by rw [line_free_of_pos hpage hpos]
  free_none _ _ hpage hzero := by
    rw [line_free_of_zero hpage hzero]
    exact ⟨rfl, rfl⟩
  moves := moves_line s

/-- **The count of a page pool.** Whatever its capacity and whatever was called before, also calls
that halted, the counter is what was handed out less what was taken back and what was refused, up to
a multiple of the number of words, and the next call goes by the counter. As long as no page has
been refused, the count is exact and within the capacity, and only a pool that has all of its pages
out, as many as there are words but one, halts instead of answering. -/
theorem final_accounts (capacity : Option UInt64) (ops : List Op) :
    Counted (limit capacity) (books capacity ops) (final capacity ops).pool ∧
      Serving (final capacity ops) ∧ (.refused ∉ books capacity ops →
        (line step (final capacity ops) .take).outcome =
            .ok (.flag ((final capacity ops).pool.inUse < limit capacity)) ∨
          (final capacity ops).pool.inUse = limit capacity ∧ limit capacity = Word.greatest) := by
  have hcounted := counted_final capacity ops
  refine ⟨hcounted, serving _, fun hno => ?_⟩
  rcases hcounted.word.lt_or_eq with hnext | hlast
  · refine .inl (((serving _).take hnext).trans ?_)
    rw [hcounted.capacity]
  · have hlimit : limit capacity ≤ Word.greatest := by
      cases capacity with
      | none => exact le_rfl
      | some n => exact Nat.le_sub_one_of_lt n.toNat_lt
    have hwithin := hcounted.within hno
    exact .inr ⟨by omega, by omega⟩

/-- Of a pool of two pages, a third is taken only after one has been given back. -/
theorem final_accounts_recovered :
    books (some 2) [.take, .take, .take, .free 0, .take] =
        [.handedOut, .handedOut, .other, .takenBack, .handedOut] ∧
      (final (some 2) [.take, .take, .take, .free 0, .take]).pool.inUse + 1 = 3 ∧
      (final (some 2) [.take, .take, .take, .free 0, .take]).pool.inUse ≤ 2 := by
  obtain ⟨hcounted, -, -⟩ := final_accounts (some 2) [.take, .take, .take, .free 0, .take]
  have hbooks : books (some 2) [.take, .take, .take, .free 0, .take] =
      [.handedOut, .handedOut, .other, .takenBack, .handedOut] := rfl
  rw [hbooks] at hcounted
  exact ⟨hbooks, hcounted.exact (by decide), hcounted.within (by decide)⟩

/-- A page from elsewhere is refused by a pool that has none out. The count is past the capacity
then, and the next page that somebody wants is not handed out: the pool halts. -/
theorem refused_page_spoils :
    (final (some 1) [.foreign]).pool.inUse = 0 ∧
      (line step (final (some 1) [.foreign]) (.free 0)).outcome = .error .poolEmpty ∧
      (final (some 1) [.foreign, .free 0]).pool = ⟨1, Word.greatest⟩ ∧
      (line step (final (some 1) [.foreign, .free 0]) .take).outcome = .error .overflow :=
  ⟨rfl, rfl, rfl, rfl⟩

end ThreadCore.Bench.Pool
