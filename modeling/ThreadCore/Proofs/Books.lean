import ThreadCore.Proofs.Steadiness

/-!
# The books of the pages

`Core.books` is what the core says of its pages: how many are in use, whose stacks they are, which
stacks wait to be reclaimed, and what the events tell about it. The books are in order
(`Books.Sound`) if every page that was handed out is in use or was taken back, and none was taken
back twice or before the processor had left its thread.

An act changes nothing in the books, a birth enters a page, and the end of a turn takes back the
stacks that waited and may put one more on the list (`Books.Sound.move`).
-/

namespace ThreadCore

/-- The frame that is handed out. -/
def Event.allocated? : Event → Option Nat
  | .allocated frame => some frame
  | _ => none

/-- The frame that is taken back. -/
def Event.freed? : Event → Option Nat
  | .freed frame => some frame
  | _ => none

/-- Neither a page nor the processor changes hands. -/
def Event.isNote : Event → Bool
  | .refused | .launched _ | .activated _ | .taskExited _ _ => true
  | _ => false

/-- The frames that were handed out. -/
def allocations (es : List Event) : List Nat := es.filterMap Event.allocated?

/-- The frames that were taken back. -/
def frees (es : List Event) : List Nat := es.filterMap Event.freed?

/-- The processor has left `t` and has not come back. -/
def Left (es : List Event) (t : ThreadId) : Prop :=
  ∃ before u after, es = before ++ .switched t u :: after ∧ ∀ v, Event.switched v t ∉ after

variable {es es' before after : List Event} {e : Event} {t s f : Nat}

theorem allocations_append (es es' : List Event) :
    allocations (es ++ es') = allocations es ++ allocations es' := List.filterMap_append

theorem frees_append (es es' : List Event) : frees (es ++ es') = frees es ++ frees es' :=
  List.filterMap_append

theorem allocations_notes (h : ∀ e ∈ es, e.isNote = true) : allocations es = [] := by
  refine List.filterMap_eq_nil_iff.mpr fun e he => ?_
  have := h e he
  cases e <;> simp_all [Event.isNote, Event.allocated?]

theorem frees_notes (h : ∀ e ∈ es, e.isNote = true) : frees es = [] := by
  refine List.filterMap_eq_nil_iff.mpr fun e he => ?_
  have := h e he
  cases e <;> simp_all [Event.isNote, Event.freed?]

theorem Left.append (h : Left es t) (hno : ∀ v, Event.switched v t ∉ es') : Left (es ++ es') t := by
  obtain ⟨before, u, after, rfl, hafter⟩ := h
  refine ⟨before, u, after ++ es', by simp, fun v hv => ?_⟩
  rcases List.mem_append.mp hv with hv | hv
  · exact hafter v hv
  · exact hno v hv

/-- An event that takes a page back and is not among the last ones is among the first. -/
theorem exists_split_of_append (h : es ++ es' = before ++ .freed f :: after)
    (hno : .freed f ∉ es') : ∃ after', es = before ++ .freed f :: after' := by
  rcases List.append_eq_append_iff.mp h with ⟨as, -, rfl⟩ | ⟨bs, rfl, hbs⟩
  · simp at hno
  · cases bs with
    | nil =>
      simp only [List.nil_append] at hbs
      simp [← hbs] at hno
    | cons x bs =>
      obtain ⟨rfl, -⟩ := List.cons.inj hbs
      exact ⟨bs, rfl⟩

/-- The books of the pages. -/
@[ext] structure Books where
  /-- The most pages that may be in use. -/
  capacity : Nat
  inUse : Nat
  /-- The pages handed out so far, which are numbered in this order. -/
  handedOut : Nat
  nextThread : Nat
  /-- The frame of the stack of each live thread. -/
  stack : Nat → Option Nat
  /-- The number of live threads. -/
  live : Nat
  /-- The threads whose stacks wait to be reclaimed, with the frames. -/
  dead : List (Nat × Nat)
  events : List Event

namespace Books

variable {b : Books}

/-- More events of other kinds. -/
def note (b : Books) (es : List Event) : Books := { b with events := b.events ++ es }

/-- A new thread gets a page. -/
def enlist (b : Books) : Books :=
  { b with
    inUse := b.inUse + 1
    handedOut := b.handedOut + 1
    nextThread := b.nextThread + 1
    stack := Function.update b.stack b.nextThread (some (b.handedOut + 1))
    live := b.live + 1
    events := b.events ++ [.allocated (b.handedOut + 1)] }

/-- The stacks that wait are taken back. -/
def reclaim (b : Books) : Books :=
  { b with
    inUse := b.inUse - b.dead.length
    dead := []
    events := b.events ++ b.dead.map fun e => .freed e.2 }

/-- The processor goes from `s` to `t`, and `s` may have exited. -/
def switch (b : Books) (s t : Nat) (dies : Prop) [Decidable dies] : Books :=
  { b with
    stack := if dies then Function.update b.stack s none else b.stack
    live := if dies then b.live - 1 else b.live
    dead := if dies then b.dead ++ [(s, (b.stack s).getD 0)] else b.dead
    events := b.events ++ [.switched s t] }

/-- The books are in order. -/
structure Sound (b : Books) : Prop where
  /-- Threads and pages are numbered alike. -/
  numbered : b.nextThread = b.handedOut + 1
  bound : b.nextThread ≤ Word.greatest
  frame : ∀ t f, b.stack t = some f → f = t ∧ 0 < t ∧ t ≤ b.handedOut
  dead_frame : ∀ e ∈ b.dead, e.2 = e.1 ∧ 0 < e.1 ∧ e.1 ≤ b.handedOut ∧ b.stack e.1 = none
  one_dead : b.dead.length ≤ 1
  inUse : b.inUse = b.live + b.dead.length
  inUse_le : b.inUse ≤ b.capacity
  conserved : b.inUse + (frees b.events).length = b.handedOut
  allocated : allocations b.events = List.range' 1 b.handedOut
  freed_once : (frees b.events).Nodup
  freed_iff : ∀ f, f ∈ frees b.events ↔
    0 < f ∧ f ≤ b.handedOut ∧ b.stack f = none ∧ ∀ e ∈ b.dead, e.1 ≠ f
  dead_left : ∀ e ∈ b.dead, Left b.events e.1
  freed_left : ∀ before f after, b.events = before ++ .freed f :: after → Left before f

namespace Sound

theorem note (h : b.Sound) (hes : ∀ e ∈ es, e.isNote = true) : (b.note es).Sound := by
  have hswitch : ∀ v u, Event.switched v u ∉ es :=
    fun v u hm => by simpa [Event.isNote] using hes _ hm
  have hfrees : frees (b.events ++ es) = frees b.events := by
    rw [frees_append, frees_notes hes, List.append_nil]
  refine ⟨h.numbered, h.bound, h.frame, h.dead_frame, h.one_dead, h.inUse, h.inUse_le, ?_, ?_, ?_,
    ?_, fun e he => (h.dead_left e he).append fun v => hswitch v _, fun before f after hs => ?_⟩
  · exact (congrArg (fun l : List Nat => b.inUse + l.length) hfrees).trans h.conserved
  · exact (allocations_append _ _).trans
      (by rw [allocations_notes hes, List.append_nil]; exact h.allocated)
  · exact hfrees ▸ h.freed_once
  · exact fun f => hfrees ▸ h.freed_iff f
  · obtain ⟨after', hs'⟩ :=
      exists_split_of_append hs fun hm => by simpa [Event.isNote] using hes _ hm
    exact h.freed_left before f after' hs'

theorem enlist (h : b.Sound) (hroom : b.inUse < b.capacity) (hnext : b.nextThread < Word.greatest) :
    b.enlist.Sound := by
  have hfrees : frees (b.events ++ [.allocated (b.handedOut + 1)]) = frees b.events := by
    rw [frees_append]
    simp [frees, Event.freed?]
  obtain ⟨h₁, h₂, h₃, h₄, h₅, h₆, h₇, h₈, h₉, h₁₀, h₁₁, h₁₂, h₁₃⟩ := h
  have hnew : b.stack b.nextThread = none := by
    cases hs : b.stack b.nextThread with
    | none => rfl
    | some f =>
      have := (h₃ _ _ hs).2.2
      omega
  constructor <;> simp only [Books.enlist, hfrees]
  · omega
  · omega
  · intro t f hf
    rw [Function.update_apply] at hf
    split at hf
    · obtain rfl := Option.some.inj hf
      omega
    · have := h₃ t f hf
      omega
  · intro e he
    obtain ⟨hf, hpos, hle, hs⟩ := h₄ e he
    refine ⟨hf, hpos, by omega, ?_⟩
    rw [Function.update_of_ne (by omega)]
    exact hs
  · exact h₅
  · omega
  · omega
  · omega
  · rw [allocations_append, h₉, List.range'_concat]
    simp [allocations, Event.allocated?, Nat.add_comm]
  · exact h₁₀
  · intro f
    rw [h₁₁, Function.update_apply]
    split
    · rename_i he
      subst he
      simp [hnew]
      omega
    · grind
  · intro e he
    exact (h₁₂ e he).append (by simp)
  · intro before f after hs
    obtain ⟨after', hs'⟩ := exists_split_of_append hs (by simp)
    exact h₁₃ before f after' hs'

theorem reclaim (h : b.Sound) : b.reclaim.Sound := by
  obtain ⟨h₁, h₂, h₃, h₄, h₅, h₆, h₇, h₈, h₉, h₁₀, h₁₁, h₁₂, h₁₃⟩ := h
  cases hd : b.dead with
  | nil =>
    have hsame : b.reclaim = b := by
      ext <;> simp [Books.reclaim, hd]
    rw [hsame]
    exact ⟨h₁, h₂, h₃, h₄, h₅, h₆, h₇, h₈, h₉, h₁₀, h₁₁, h₁₂, h₁₃⟩
  | cons e rest =>
    obtain rfl : rest = [] := by
      rw [hd, List.length_cons] at h₅
      exact List.length_eq_zero_iff.mp (by omega)
    obtain ⟨t, f⟩ := e
    obtain ⟨hf, hpos, hle, hstack⟩ := h₄ (t, f) (by simp [hd])
    have hleft := h₁₂ (t, f) (by simp [hd])
    simp only at hf hpos hle hstack hleft
    subst hf
    have hnot : f ∉ frees b.events := fun hm => ((h₁₁ f).mp hm).2.2.2 (f, f) (by simp [hd]) rfl
    have hfrees : frees (b.events ++ [.freed f]) = frees b.events ++ [f] := frees_append _ _
    have hallocated : allocations (b.events ++ [.freed f]) = allocations b.events :=
      (allocations_append _ _).trans (List.append_nil _)
    rw [hd, List.length_singleton] at h₆
    constructor <;> simp only [Books.reclaim, hd, List.map_cons, List.map_nil, hfrees, hallocated,
      List.length_singleton, List.length_nil, List.length_append]
    · exact h₁
    · exact h₂
    · exact h₃
    · simp
    · omega
    · omega
    · omega
    · omega
    · exact h₉
    · refine List.nodup_append.mpr ⟨h₁₀, List.nodup_singleton _, fun a ha b hb he => hnot ?_⟩
      rwa [← List.mem_singleton.mp hb, ← he]
    · intro x
      rw [List.mem_append, h₁₁, List.mem_singleton]
      simp only [hd]
      grind
    · simp
    · intro before x after hs
      by_cases hx : x = f
      · -- The page that is taken back now, or an earlier event of this kind.
        rcases List.append_eq_append_iff.mp hs with ⟨as, rfl, has⟩ | ⟨bs, hbs, hafter⟩
        · have has' : as = [] := by
            cases as with
            | nil => rfl
            | cons y as => simp at has
          rw [hx, has', List.append_nil]
          exact hleft
        · cases bs with
          | nil =>
            rw [List.append_nil] at hbs
            exact hx ▸ hbs ▸ hleft
          | cons y bs =>
            obtain ⟨rfl, -⟩ := List.cons.inj hafter
            exact h₁₃ before x bs hbs
      · obtain ⟨after', hs'⟩ := exists_split_of_append hs (by simpa using hx)
        exact h₁₃ before x after' hs'

theorem switch (h : b.Sound) (hdead : b.dead = []) (hs : ∃ f, b.stack s = some f)
    (hlive : 0 < b.live) (t : Nat) (dies : Prop) [Decidable dies] : (b.switch s t dies).Sound := by
  obtain ⟨h₁, h₂, h₃, h₄, h₅, h₆, h₇, h₈, h₉, h₁₀, h₁₁, h₁₂, h₁₃⟩ := h
  have hfrees : frees (b.events ++ [.switched s t]) = frees b.events :=
    (frees_append _ _).trans (List.append_nil _)
  have hallocated : allocations (b.events ++ [.switched s t]) = allocations b.events :=
    (allocations_append _ _).trans (List.append_nil _)
  obtain ⟨f, hf⟩ := hs
  obtain ⟨rfl, hpos, hle⟩ := h₃ s f hf
  rw [hdead, List.length_nil] at h₆
  have hsplit : ∀ before x after, b.events ++ [.switched f t] = before ++ .freed x :: after →
      Left before x := by
    intro before x after hs
    obtain ⟨after', hs'⟩ := exists_split_of_append hs (by simp)
    exact h₁₃ before x after' hs'
  by_cases hd : dies
  · constructor <;>
      simp only [Books.switch, hd, if_true, hfrees, hallocated, hdead, List.nil_append,
      List.length_singleton]
    · exact h₁
    · exact h₂
    · intro x g hx
      rw [Function.update_apply] at hx
      split at hx
      · cases hx
      · exact h₃ x g hx
    · intro e he
      obtain rfl := List.mem_singleton.mp he
      simp [hf, hpos, hle]
    · exact le_rfl
    · omega
    · exact h₇
    · exact h₈
    · exact h₉
    · exact h₁₀
    · intro x
      rw [h₁₁, Function.update_apply, hdead]
      by_cases hx : x = f
      · simp [hx, hf]
      · simp [hx, Ne.symm hx]
    · intro e he
      obtain rfl := List.mem_singleton.mp he
      exact ⟨b.events, t, [], rfl, fun v hv => by cases hv⟩
    · exact hsplit
  · constructor <;>
      simp only [Books.switch, hd, if_false, hfrees, hallocated, hdead, List.length_nil]
    · exact h₁
    · exact h₂
    · exact h₃
    · simp
    · exact Nat.zero_le 1
    · exact h₆
    · exact h₇
    · exact h₈
    · exact h₉
    · exact h₁₀
    · exact fun x => by rw [h₁₁, hdead]
    · simp
    · exact hsplit

end Sound

end Books

namespace Core

open Relation (ReflTransGen)

variable {α β : Type} {k k' m : Core} {σ τ : ThreadState} {u : Unit}

/-- What the core says of its pages. -/
def books (k : Core) : Books where
  capacity := k.machine.pool.capacity
  inUse := k.machine.pool.inUse
  handedOut := k.machine.handedOut
  nextThread := k.nextThread
  stack t := (k.threads[t]?).map fun th => th.stack.frame
  live := k.threads.size
  dead := k.dead.map fun th => (th.id, th.stack.frame)
  events := k.journal.events.toList

theorem books_mapThread {f : Thread → Thread} (hf : ∀ th, (f th).stack.frame = th.stack.frame) :
    (k.mapThread t f).books = k.books := by
  have hstack :=
    map_getElem?_mapThread (k := k) (t := t) (f := f) (g := fun th => th.stack.frame) hf
  ext1
  · rfl
  · rfl
  · rfl
  · rfl
  · exact funext hstack
  · exact Std.ExtTreeMap.size_modify
  · rfl
  · rfl

/-! ## Acts and births -/

/-- An act leaves the books as they are, up to events of other kinds. -/
theorem Act.books (h : Act k k') :
    ∃ es, (∀ e ∈ es, e.isNote = true) ∧ k'.books = k.books.note es := by
  have hnone : ∀ {b : Books}, b = k.books → ∃ es, (∀ e ∈ es, e.isNote = true) ∧
      b = k.books.note es := by
    rintro b rfl
    exact ⟨[], by simp, by simp [Books.note]⟩
  cases h with
  | clerical w console usage output slice pending hp ho =>
    refine hnone ?_
    ext1 <;> simp only [Core.books, hp, ho]
  | taskExited task status =>
    refine ⟨[.taskExited task status], by simp [Event.isNote], ?_⟩
    simp [Core.books, Books.note, Journal.addEvent]
  | reassess t f hf =>
    exact hnone (books_mapThread fun th => (congrArg (fun th => th.stack.frame) (hf th) :))
  | overwrite t th stack hth hframe =>
    have hstack :
        ∀ v : ThreadId, ((k.mapThread t fun th => { th with stack := stack }).threads[v]?).map
        (fun th => th.stack.frame) = (k.threads[v]?).map fun th => th.stack.frame := by
      intro v
      rw [getElem?_mapThread]
      split
      · rename_i he
        simp [he, hth, hframe]
      · rfl
    refine hnone ?_
    ext1
    · rfl
    · rfl
    · rfl
    · rfl
    · exact funext hstack
    · exact Std.ExtTreeMap.size_modify
    · rfl
    · rfl
  | family t f =>
    exact hnone (books_mapThread (f := fun th => { th with family := f th.family }) fun _ => rfl)
  | sleepers q => exact hnone rfl
  | objects o => exact hnone rfl
  | awaken t th =>
    exact hnone (books_mapThread (k := k) (t := t) (f := fun th => { th with state := .ready })
      fun _ => rfl)

/-- A birth enters a page for the next thread, or leaves a note that there was none. -/
theorem Birth.books (h : Birth k k') (hfresh : k.threads[k.nextThread]? = none) :
    k'.books = k.books.note [.refused] ∨
      k.books.inUse < k.books.capacity ∧ k.books.nextThread < Word.greatest ∧
        k'.books = k.books.enlist := by
  cases h with
  | refused =>
    refine .inl ?_
    simp [Core.books, Books.note, Journal.addEvent]
  | enlisted name priority entry task hroom hnext =>
    refine .inr ⟨hroom, hnext, ?_⟩
    ext1
    · rfl
    · rfl
    · rfl
    · rfl
    · funext t
      refine (congrArg (Option.map fun th => th.stack.frame)
        (getElem?_enlist k.pageTaken _ t)).trans ?_
      exact (apply_ite _ _ _ _).trans (Function.update_apply k.books.stack _ _ t).symm
    · refine Std.ExtTreeMap.size_insert.trans (if_neg fun hm => ?_)
      have hlive : k.nextThread ∈ k.threads := hm
      simp [Std.ExtTreeMap.mem_iff_isSome_getElem?, hfresh] at hlive
    · rfl
    · exact Array.toList_push

/-! ## The end of a turn -/

theorem books_say {n : Notice} (h : say n k = .ok u k') : k'.books = k.books := by
  unfold say at h
  rw [get_bind_eq_ok] at h
  split at h
  · exact modify_eq_ok.mp h ▸ rfl
  · exact (pure_eq_ok.mp h).2 ▸ rfl

theorem books_record {e : Event} (h : record e k = .ok u k') : k'.books = k.books.note [e] := by
  rw [record, modify_eq_ok] at h
  subst h
  simp [Core.books, Books.note, Journal.addEvent]

theorem books_freePage (h : onMachine Machine.freePage k = .ok u k') :
    k'.books = { k.books with inUse := k.books.inUse - 1 } := by
  obtain ⟨w, hw, rfl⟩ := onMachine_eq_ok.mp h
  rw [Machine.freePage_eq_ok hw]
  rfl

theorem freePage_ok (h : k.books.inUse ≠ 0) : ∃ k', onMachine Machine.freePage k = .ok () k' :=
  ⟨_, onMachine_eq_ok.mpr ⟨_, Machine.freePage_of_pos (Nat.pos_of_ne_zero h), rfl⟩⟩

/-- The stacks of the threads that have exited are taken back. -/
theorem books_reclaim (h : reclaim k.dead.length k = .ok u k') : k'.books = k.books.reclaim := by
  suffices ∀ n, n = k.dead.length → reclaim n k = .ok u k' → k'.books = k.books.reclaim from
    this _ rfl h
  clear h
  intro n hn h
  induction n generalizing k with
  | zero =>
    obtain ⟨-, rfl⟩ := pure_eq_ok.mp h
    have hnil : k.dead = [] := List.length_eq_zero_iff.mp hn.symm
    simp [Core.books, Books.reclaim, hnil]
  | succ n ih =>
    rw [reclaim, get_bind_eq_ok] at h
    cases hd : k.dead with
    | nil => simp [hd] at hn
    | cons victim rest =>
      simp only [hd, modify_bind_eq_ok] at h
      simp only [bind_eq_ok] at h
      obtain ⟨_, k₁, h₁, _, k₂, h₂, _, k₃, h₃, h⟩ := h
      -- What one round does to the books.
      have hround : k₃.books = { k.books with
          inUse := k.books.inUse - 1
          dead := rest.map fun th => (th.id, th.stack.frame)
          events := k.books.events ++ [.freed victim.stack.frame] } := by
        rw [books_freePage h₃, books_record h₂, books_say h₁]
        rfl
      have hrest : n = k₃.dead.length := by
        have hlen := congrArg (fun b : Books => b.dead.length) hround
        simp only [Core.books, List.length_map] at hlen
        rw [hd, List.length_cons] at hn
        omega
      rw [ih hrest h, hround]
      simp only [Books.reclaim, Core.books, hd, Books.mk.injEq, true_and, List.length_map,
        List.length_cons, List.map_cons, List.append_assoc, List.cons_append, List.nil_append,
        and_true]
      omega

theorem books_resume {running resumed : Context} (h : resume s t running resumed k = .ok u k') :
    ∃ es, (∀ e ∈ es, e.isNote = true) ∧ k'.books = (k.books.note [.switched s t]).note es := by
  simp only [resume, bind_eq_ok, changeThread_eq_ok] at h
  obtain ⟨_, k₁, h₁, r, k₂, h₂, _, _, ⟨-, rfl⟩, h⟩ := h
  have hloaded : (k₂.mapThread t fun th => { th with context := r.1 }).books =
      k.books.note [.switched s t] := by
    refine (books_mapThread ?_).trans ?_
    · exact fun _ => rfl
    rw [← books_record h₁]
    obtain ⟨w, hw, rfl⟩ := onMachine_eq_ok.mp h₂
    unfold Machine.switch at hw
    simp only [get_bind_eq_ok, demand_bind_eq_ok, modify_bind_eq_ok, pure_eq_ok] at hw
    obtain ⟨-, -, -, rfl⟩ := hw
    rfl
  cases he : r.2 with
  | some label =>
    simp only [he] at h
    exact ⟨[.launched label], by simp [Event.isNote], hloaded ▸ books_record h⟩
  | none =>
    simp only [he] at h
    obtain ⟨-, rfl⟩ := pure_eq_ok.mp h
    exact ⟨[], by simp, by rw [hloaded]; simp [Books.note]⟩

/-- The processor goes from `s` to `t`, and `s` goes on the list of those whose stacks wait if it
has exited. -/
theorem books_switchTo {th : Thread} (hth : k.threads[s]? = some th) (hid : th.id = s)
    (h : switchTo s t k = .ok u k') :
    ∃ es, (∀ e ∈ es, e.isNote = true) ∧
      k'.books = (k.books.switch s t (th.state = .dying)).note es := by
  unfold switchTo at h
  rw [modify_bind_eq_ok, bind_eq_ok] at h
  obtain ⟨_, k₁, h₁, h⟩ := h
  have hbooks : k₁.books = k.books := (books_say h₁).trans rfl
  have hthreads : k₁.threads = k.threads := (quiet_say h₁).threads
  simp only [ask_bind_eq_ok, thread_eq_ok_iff] at h
  obtain ⟨th', hth', h⟩ := h
  obtain rfl : th' = th := Option.some.inj (hth'.symm.trans (hthreads ▸ hth))
  split at h
  · rename_i hdying
    simp only [modify_bind_eq_ok, ask_bind_eq_ok] at h
    obtain ⟨resumed, -, h⟩ := h
    obtain ⟨es, hes, hrest⟩ := books_resume h
    refine ⟨es, hes, hrest.trans ?_⟩
    have hstack : k.books.stack s = some th'.stack.frame := by simp [Core.books, hth]
    have hmem : s ∈ k₁.threads := by
      rw [Std.ExtTreeMap.mem_iff_isSome_getElem?, hth']
      rfl
    have hleft : ({ k₁ with
        threads := k₁.threads.erase s, dead := k₁.dead ++ [th'] } : Core).books =
          { k.books with
            stack := Function.update k.books.stack s none
            live := k.books.live - 1
            dead := k.books.dead ++ [(s, th'.stack.frame)] } := by
      rw [← hbooks]
      ext1
      · rfl
      · rfl
      · rfl
      · rfl
      · funext v
        simp only [Core.books, Std.ExtTreeMap.getElem?_erase, compare_eq_iff_eq,
          Function.update_apply]
        by_cases hv : s = v
        · rw [if_pos hv, if_pos hv.symm]
          rfl
        · rw [if_neg hv, if_neg (Ne.symm hv)]
      · exact Std.ExtTreeMap.size_erase.trans (if_pos hmem)
      · exact List.map_append.trans
          (congrArg (fun v => k₁.books.dead ++ [(v, th'.stack.frame)]) hid)
      · rfl
    rw [hleft]
    simp only [Books.switch, hdying, if_true, hstack, Option.getD_some]
    rfl
  · rename_i hdying
    simp only [ask_bind_eq_ok] at h
    obtain ⟨resumed, -, h⟩ := h
    obtain ⟨es, hes, hrest⟩ := books_resume h
    refine ⟨es, hes, hrest.trans ?_⟩
    rw [hbooks]
    simp [Books.switch, Books.note, hdying]

/-- A note about a task leaves a note in the books. -/
theorem books_note {label? : Option String} {event : String → Event} {rest : CoreM α} {a : α}
    (hevent : ∀ label, (event label).isNote = true)
    (h : (match label? with
      | some label => record (event label) >>= fun _ => rest
      | none => rest) k = .ok a k') :
    ∃ m es, Quiet k m ∧ (∀ e ∈ es, e.isNote = true) ∧ m.books = k.books.note es ∧
      rest m = .ok a k' := by
  cases label? with
  | some label =>
    obtain ⟨_, m, hm, h⟩ := bind_eq_ok.mp h
    exact ⟨m, [event label], quiet_record hm, by simp [hevent], books_record hm, h⟩
  | none => exact ⟨k, [], .refl k, by simp, by simp [Books.note], h⟩

/-- After a dispatch the current thread goes on, or the processor has gone to another one. -/
theorem books_dispatch {th : Thread} (hth : k.threads[k.current]? = some th)
    (hid : th.id = k.current) (h : dispatch k = .ok u k') :
    ∃ es, (∀ e ∈ es, e.isNote = true) ∧
      (k'.books = k.books.note es ∨
        ∃ t es', (∀ e ∈ es', e.isNote = true) ∧
          k'.books = ((k.books.note es).switch k.current t (th.state = .dying)).note es') := by
  unfold dispatch at h
  rw [get_bind_eq_ok, bind_eq_ok] at h
  obtain ⟨t, _, h₁, h⟩ := h
  obtain ⟨-, rfl⟩ := takeNext_eq_ok h₁
  rw [get_bind_eq_ok, demand_bind_eq_ok] at h
  simp only [ask_bind_eq_ok, demand_bind_eq_ok, changeThread_bind_eq_ok] at h
  obtain ⟨-, _, -, -, _, -, -, -, h⟩ := h
  obtain ⟨m, es, hq, hes, hm, h⟩ := books_note (fun _ => rfl) h
  have hchosen : (({ k with ready := k.ready.remove t } : Core).mapThread t
      fun th => { th with state := .running }).books = k.books := books_mapThread fun _ => rfl
  have hbooks : m.books = k.books.note es := hchosen ▸ hm
  rw [modify_bind_eq_ok] at h
  split at h
  · rename_i hne
    have hth' : ({ m with slice := 0 } : Core).threads[k.current]? = some th := by
      show m.threads[k.current]? = some th
      rw [hq.threads, getElem?_mapThread, if_neg hne]
      exact hth
    obtain ⟨es', hes', hrest⟩ := books_switchTo hth' hid h
    refine ⟨es, hes, .inr ⟨t, es', hes', hrest.trans ?_⟩⟩
    rw [← hbooks]
    rfl
  · obtain ⟨-, rfl⟩ := pure_eq_ok.mp h
    exact ⟨es, hes, .inl hbooks⟩

/-- The end of a turn takes back the stacks that wait. Then the current thread goes on, or the
processor goes to another one. -/
theorem books_endTurn {th : Thread} (hth : k.threads[k.current]? = some th)
    (hid : th.id = k.current) (h : endTurn σ k = .ok u k') :
    ∃ es, (∀ e ∈ es, e.isNote = true) ∧
      (k'.books = k.books.reclaim.note es ∨
        ∃ t es', (∀ e ∈ es', e.isNote = true) ∧
          k'.books = ((k.books.reclaim.note es).switch k.current t (σ = .dying)).note es') := by
  unfold endTurn at h
  rw [get_bind_eq_ok, demand_bind_eq_ok, get_bind_eq_ok] at h
  simp only [ask_bind_eq_ok, demand_bind_eq_ok, get_bind_eq_ok] at h
  obtain ⟨-, _, -, -, h⟩ := h
  obtain ⟨_, m, hm, h⟩ := bind_eq_ok.mp h
  have hq := quiet_reclaim hm
  rw [changeThread_bind_eq_ok] at h
  obtain ⟨-, h⟩ := h
  let ended := m.mapThread k.current fun th => { th with state := σ }
  have hended : ended.books = m.books := books_mapThread fun _ => rfl
  have hbooks : ended.books = k.books.reclaim := hended.trans (books_reclaim hm)
  have hth' : ended.threads[ended.current]? = some { th with state := σ } := by
    show ended.threads[m.current]? = _
    rw [hq.current, getElem?_mapThread, if_pos rfl, hq.threads, hth]
    rfl
  have hrest := books_dispatch hth' (show th.id = m.current from hq.current ▸ hid) h
  rw [hbooks, show ended.current = k.current from hq.current] at hrest
  exact hrest

/-! ## Moves -/

namespace Steered

theorem live_pos (h : k.Steered σ) : 0 < k.books.live := by
  obtain ⟨th, hth⟩ := h.live_current
  refine Nat.pos_of_ne_zero fun hz => ?_
  have hempty : k.threads = ∅ := Std.ExtTreeMap.eq_empty_iff_size_eq_zero.mpr hz
  simp [hempty] at hth

/-- The end of a turn takes back the stacks that waited, and these only. -/
theorem endTurn_books (h : k.Steered τ) (hb : k.books.Sound) (he : Core.endTurn σ k = .ok u k') :
    k'.books.Sound ∧ k'.books.capacity = k.books.capacity ∧
      frees k'.books.events = frees k.books.events ++ k.books.dead.map Prod.snd := by
  obtain ⟨th, hth⟩ := h.live_current
  have hfrees : ∀ es, (∀ e ∈ es, e.isNote = true) →
      frees (k.books.reclaim.note es).events =
        frees k.books.events ++ k.books.dead.map Prod.snd := by
    intro es hes
    simp only [Books.note, Books.reclaim, frees_append, frees_notes hes, List.append_nil]
    simp [frees, List.filterMap_map, Function.comp_def, Event.freed?]
  obtain ⟨es, hes, hk' | ⟨t, es', hes', hk'⟩⟩ := books_endTurn hth (h.current_id hth) he
  · rw [hk']
    exact ⟨hb.reclaim.note hes, rfl, hfrees es hes⟩
  · have hstack : ∃ f, (k.books.reclaim.note es).stack k.current = some f :=
      ⟨th.stack.frame, by simp [Books.note, Books.reclaim, Core.books, hth]⟩
    have hs := (hb.reclaim.note hes).switch rfl hstack h.live_pos t (σ = .dying)
    rw [hk']
    refine ⟨hs.note hes', rfl, ?_⟩
    rw [← hfrees es hes]
    simp only [Books.note, Books.switch, frees_append, frees_notes hes', List.append_nil]
    simp [frees, Event.freed?]

theorem turn_books (h : k.Steered .running) (hb : k.books.Sound) (ht : Turn k k') :
    k'.books.Sound ∧ k'.books.capacity = k.books.capacity ∧
      frees k'.books.events = frees k.books.events ++ k.books.dead.map Prod.snd := by
  cases ht with
  | block he => exact h.endTurn_books hb he
  | lineUp hth hi hm he =>
    rw [h.current_id hth] at hi hm
    have hlined := h.lineUp hi hm
    obtain ⟨-, rfl⟩ := enqueueReady_eq_ok.mp hm
    exact hlined.endTurn_books hb he
  | die _ he => exact h.endTurn_books hb he

end Steered

/-- A birth takes nothing back. -/
theorem Birth.books_sound (h : Birth k k') (hb : k.books.Sound) :
    k'.books.Sound ∧ k'.books.capacity = k.books.capacity ∧
      frees k'.books.events = frees k.books.events := by
  have hfresh : k.threads[k.nextThread]? = none := by
    cases hth : k.threads[k.nextThread]? with
    | none => rfl
    | some th =>
      have hle := (hb.frame k.nextThread th.stack.frame (by simp [Core.books, hth])).2.2
      have hnumbered := hb.numbered
      simp only [Core.books] at hle hnumbered
      omega
  rcases h.books hfresh with hk' | ⟨hroom, hnext, hk'⟩
  · rw [hk']
    exact ⟨hb.note (by simp [Event.isNote]), rfl, (frees_append _ _).trans (List.append_nil _)⟩
  · rw [hk']
    exact ⟨hb.enlist hroom hnext, rfl, (frees_append _ _).trans (List.append_nil _)⟩

/-- Nor does an act. -/
theorem Act.books_sound (h : Act k k') (hb : k.books.Sound) :
    k'.books.Sound ∧ k'.books.capacity = k.books.capacity ∧
      frees k'.books.events = frees k.books.events := by
  obtain ⟨es, hes, hk'⟩ := h.books
  rw [hk']
  exact ⟨hb.note hes, rfl, (frees_append _ _).trans (by rw [frees_notes hes, List.append_nil])⟩

/-- The scheduler is in order, and so are the books of a machine with `limit` pages. -/
structure Booked (k : Core) (limit : Nat) : Prop where
  steered : k.Steered .running
  books : k.books.Sound
  capacity : k.books.capacity = limit

/-- **The books.** Every move keeps them in order. -/
theorem Booked.move {limit : Nat} (h : k.Booked limit) (hm : Move k k') : k'.Booked limit := by
  obtain ⟨hs, hb, rfl⟩ := h
  refine ⟨hs.move hm, ?_, ?_⟩
  · cases hm with
    | act ha => exact (ha.books_sound hb).1
    | birth hbirth => exact (hbirth.books_sound hb).1
    | turn ht => exact (hs.turn_books hb ht).1
    | handler on => exact hb
  · cases hm with
    | act ha => exact (ha.books_sound hb).2.1
    | birth hbirth => exact (hbirth.books_sound hb).2.1
    | turn ht => exact (hs.turn_books hb ht).2.1
    | handler on => rfl

theorem Booked.course {limit : Nat} (h : k.Booked limit) (hc : Course k k') : k'.Booked limit :=
  hc.keeps h fun _ _ => move

end Core

end ThreadCore
