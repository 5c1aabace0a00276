import ThreadCore.Proofs.Deadlock
import ThreadCore.Proofs.Handoffs
import ThreadCore.Proofs.Raises
import ThreadCore.Proofs.Regaining

/-!
# Who holds a lock next

A thread gives up a lock by a release or by a wait on a condition variable. A lock without waiters
is free then. Otherwise it goes to the most urgent waiter, the earliest among equals, who becomes
ready; the others keep their order and donate to the new holder (`Core.HandsOver`).

1. The new holder was as urgent as any waiter, so its effective priority does not change, and the
   old holder, who waits for nothing, is the only thread whose priority does
   (`Waits.priority_handOver`).
2. In good order a hand-over never fails (`Sound.passOn_ok`), so `release` and `await` do nothing
   but a hand-over and what the scheduler makes of it.
3. No other call takes a lock from its holder or a waiter from its queue (`execute_holds`). So a
   thread that waits for a lock is blocked until it holds the lock (`logged_successions`).
-/

namespace ThreadCore

open Relation

namespace Waits

variable {w : Waits} {a s n : ThreadId} {l : ObjectId}

theorem priority_handOver_of_ne (hs : a ≠ s) (hn : a ≠ n) :
    (w.handOver l s n).priority a = w.priority a := by
  simp [handOver, Waits.bestow, Waits.withdraw, setPriority, setDonors, setWaitsFor, setWaiters,
    setHolder, hs, hn]

/-- Every donor of the new holder was its donor or its rival before, so none is more urgent. -/
theorem priority_donor_handOver (h : w.Sound) (hs : w.waitsFor s = none) (hn : n ∈ w.waiters l)
    (hmax : ∀ u ∈ w.waiters l, w.priority u ≤ w.priority n) (ha : a ∈ (w.handOver l s n).donors n) :
    (w.handOver l s n).priority a = w.priority a ∧ w.priority a ≤ w.priority n := by
  rw [donors_handOver h hs hn n, if_pos rfl, List.mem_append, List.mem_filter] at ha
  have hne : a ≠ s := by
    rintro rfl
    rcases ha with ha | ⟨ha, -⟩
    · exact not_awaits hs n ((h.wired.mem_donors n a).mp ha)
    · exact target_ne_source h hs ha rfl
  rcases ha with ha | ⟨ha, hother⟩
  · have hself : a ≠ n := by
      rintro rfl
      exact h.wired.not_awaits_self a ((h.wired.mem_donors a a).mp ha)
    exact ⟨priority_handOver_of_ne hne hself, h.balanced n ▸ priority_le_due ha⟩
  · exact ⟨priority_handOver_of_ne hne (by simpa using hother), hmax a ha⟩

/-- **Priorities in a hand-over.** If the lock goes to a waiter of the greatest priority, nobody's
priority changes but that of the old holder. -/
theorem priority_handOver (h : w.Sound) (hl : w.holder l = some s) (hs : w.waitsFor s = none)
    (hn : n ∈ w.waiters l) (hnd : (w.waiters l).Nodup)
    (hmax : ∀ u ∈ w.waiters l, w.priority u ≤ w.priority n) (ha : a ≠ s) :
    (w.handOver l s n).priority a = w.priority a := by
  by_cases han : a = n
  swap
  · exact priority_handOver_of_ne ha han
  subst han
  have hbase : (w.handOver l s a).base a = w.base a := rfl
  rw [(h.handOver hl hs hn hnd).balanced a]
  apply le_antisymm
  · refine due_le ?_ fun d hd => ?_
    · rw [hbase, h.balanced a]
      exact base_le_due w a
    · obtain ⟨heq, hle⟩ := priority_donor_handOver h hs hn hmax hd
      exact heq.le.trans hle
  · rw [h.balanced a]
    refine due_le (base_le_due (w.handOver l s a) a) fun d hd => ?_
    have hd' : d ∈ (w.handOver l s a).donors a := by
      rw [donors_handOver h hs hn a, if_pos rfl]
      exact List.mem_append_left _ hd
    rw [← (priority_donor_handOver h hs hn hmax hd').1]
    exact priority_le_due hd'

end Waits

namespace Core

variable {k k' m : Core} {g : Stage} {t d holder : ThreadId} {l c : ObjectId} {u : Unit}
  {r : Option ThreadId}

/-! ## A hand-over -/

/-- `holder` gives up lock `l`. -/
structure HandsOver (k m : Core) (l : ObjectId) (holder : ThreadId) : Prop where
  /-- Without waiters the lock is free. -/
  free : ∀ o, k.objects.locks[l]? = some o → o.waiters.entries = [] →
    m.objects.locks[l]? = some { o with holder := none } ∧ m.ready.entries = k.ready.entries
  /-- Otherwise the earliest of the most urgent waiters holds it and is ready, and the other waiters
  donate to it. -/
  heir : ∀ o, k.objects.locks[l]? = some o → o.waiters.entries ≠ [] →
    ∃ before next after th th', o.waiters.entries = before ++ next :: after ∧
      (∀ u ∈ before, k.priorityOf u < k.priorityOf next) ∧
      (∀ u ∈ after, k.priorityOf u ≤ k.priorityOf next) ∧
      m.objects.locks[l]? = some ⟨some next, ⟨before ++ after⟩⟩ ∧
      m.ready.entries = k.ready.entries ++ [next] ∧
      k.threads[next]? = some th ∧ m.threads[next]? = some th' ∧
      th'.state = .ready ∧ th'.waitsFor = none ∧
      th'.donors.entries = th.donors.entries ++ (before ++ after)
  elsewhere : ∀ i : ObjectId, i ≠ l → m.objects.locks[i]? = k.objects.locks[i]?
  /-- The old holder keeps the donors that wait for its other locks. -/
  donors : ∀ th, k.threads[holder]? = some th → ∃ th', m.threads[holder]? = some th' ∧
    ∀ d, d ∈ th'.donors ↔ d ∈ th.donors ∧ ∃ (i : ObjectId) (o : Lock), i ≠ l ∧
      k.objects.locks[i]? = some o ∧ o.holder = some holder ∧ d ∈ o.waiters
  /-- The old holder is as urgent as its base priority and the waiters of the locks that it still
  holds make it. -/
  lowered : ∀ th, k.threads[holder]? = some th → ∃ th', m.threads[holder]? = some th' ∧
    th'.base = th.base ∧
    IsGreatest {p | p = th.base ∨ ∃ (i : ObjectId) (o : Lock) (d : ThreadId) (dth : Thread),
      m.objects.locks[i]? = some o ∧ o.holder = some holder ∧ d ∈ o.waiters ∧
      m.threads[d]? = some dth ∧ dth.priority = p} th'.priority
  kept : ∀ t th, t ≠ holder → k.threads[t]? = some th → ∃ th', m.threads[t]? = some th' ∧
    th'.priority = th.priority

theorem HandsOver.congr_left {k₁ : Core} (h : HandsOver k m l holder) (ht : k.threads = k₁.threads)
    (ho : k.objects.locks = k₁.objects.locks) (hr : k.ready = k₁.ready) :
    HandsOver k₁ m l holder := by
  have hp : ∀ t, k.priorityOf t = k₁.priorityOf t := fun t => by rw [priorityOf, priorityOf, ht]
  obtain ⟨h₁, h₂, h₃, h₄, h₅, h₆⟩ := h
  constructor <;> simp only [← ht, ← ho, ← hr, ← hp] <;> assumption

theorem HandsOver.quiet_right {m₁ : Core} (h : HandsOver k m l holder) (hq : Quiet m m₁) :
    HandsOver k m₁ l holder := by
  obtain ⟨h₁, h₂, h₃, h₄, h₅, h₆⟩ := h
  constructor <;> simp only [hq.threads, hq.objects, hq.ready] <;> assumption

/-- The effective priority of a thread is its base priority or that of a waiter of one of its locks,
and no less than any of these. -/
theorem Sound.isGreatest_waiters (hk : k.Sound g) {th : Thread} (hth : k.threads[t]? = some th) :
    IsGreatest {p | p = th.base ∨ ∃ (i : ObjectId) (o : Lock) (d : ThreadId) (dth : Thread),
      k.objects.locks[i]? = some o ∧ o.holder = some t ∧ d ∈ o.waiters ∧
      k.threads[d]? = some dth ∧ dth.priority = p} th.priority := by
  have hp : th.priority = k.waits.due t := by
    rw [← hk.waits.balanced t]
    simp [Core.waits, hth]
  have hb : th.base = k.waits.base t := by simp [Core.waits, hth]
  have hd : ∀ d, d ∈ k.waits.donors t ↔ ∃ (i : ObjectId) (o : Lock),
      k.objects.locks[i]? = some o ∧ o.holder = some t ∧ d ∈ o.waiters := by
    intro d
    rw [← hk.mem_donors_iff hth, Queue.mem_def]
    simp [Core.waits, hth]
  constructor
  · rcases k.waits.due_eq t with h | ⟨d, hmem, h⟩
    · exact .inl (by rw [hp, h, hb])
    · obtain ⟨i, o, ho, hh, hm⟩ := (hd d).mp hmem
      obtain ⟨dth, hdth⟩ := hk.live_of_mem (p := .lock i) (by rwa [queue_lock ho])
      refine .inr ⟨i, o, d, dth, ho, hh, hm, hdth, ?_⟩
      rw [hp, h]
      simp [Core.waits, hdth]
  · rintro p (rfl | ⟨i, o, d, dth, ho, hh, hm, hdth, rfl⟩)
    · rw [hp, hb]
      exact Waits.base_le_due _ t
    · have hle := Waits.priority_le_due ((hd d).mpr ⟨i, o, ho, hh, hm⟩)
      rw [hp]
      simpa [Core.waits, hdth] using hle

/-- What the views show of a thread that has become ready. -/
theorem unblock_views (h : unblock t k = .ok u k') :
    k'.seating = (k.seating.setState t (some .ready)).setQueue .ready (k.ready.entries ++ [t]) ∧
      k'.waits = k.waits := by
  obtain ⟨-, m, th, hq, hth, -, hq'⟩ := unblock_eq_ok h
  constructor
  · rw [hq'.seating, seating_ready, seating_state hth, hq.seating, hq.ready]
  · have hw := waits_mapThread (k := m) (t := t) (f := fun th => { th with state := .ready })
      (fun _ => rfl) (fun _ => rfl) (fun _ => rfl) fun _ => rfl
    rw [hq'.waits]
    exact hw.trans hq.waits

/-- What the views show of a hand-over. -/
theorem Sound.passOn_views (hk : k.Sound g) (hs : k.waits.waitsFor holder = none)
    (h : Core.passOn l holder k = .ok r m) :
    ∃ o, k.objects.locks[l]? = some o ∧ o.holder = some holder ∧
      ((r = none ∧ o.waiters.entries = [] ∧ m.seating = k.seating ∧
          m.waits = k.waits.setHolder l none) ∨
        ∃ before next after, r = some next ∧ o.waiters.entries = before ++ next :: after ∧
          (∀ u ∈ before, k.priorityOf u < k.priorityOf next) ∧
          (∀ u ∈ after, k.priorityOf u ≤ k.priorityOf next) ∧
          m.waits = k.waits.handOver l holder next ∧
          m.seating = ((k.seating.setQueue (.lock l) (before ++ after)).setState next
            (some .ready)).setQueue .ready (k.ready.entries ++ [next])) := by
  obtain ⟨o, m₀, ho, hh, hu, hw, ⟨hr, hnone, rfl⟩ | ⟨next, m₁, m₂, _, hr, hnext, hb, h, hq⟩⟩ :=
    passOn_cases h
  · refine ⟨o, ho, hh, .inl ⟨hr, hnone, hu.seating, ?_⟩⟩
    rw [hw, hk.waits.withdraw ((waiters_lock ho).trans hnone)]
  · have hforemost : Queue.foremostOf (fun t u => decide (m₀.priorityOf u < m₀.priorityOf t))
        o.waiters.entries = some next := hnext
    obtain ⟨before, after, hsplit, hbefore, hafter⟩ := Queue.foremostOf_eq_some hforemost
    -- The holder, whose priority was computed again, is not among the waiters.
    have hsame : ∀ v ∈ o.waiters.entries, m₀.priorityOf v = k.priorityOf v := by
      intro v hv
      have hne : v ≠ holder := Waits.target_ne_source hk.waits hs (waiters_lock ho ▸ hv)
      rw [priorityOf_eq, priorityOf_eq, hw]
      simp [Waits.withdraw, Waits.setPriority, Waits.setDonors, Waits.setHolder, hne]
    have hmem : next ∈ o.waiters.entries := Queue.mem_of_foremostOf hnext
    have hnot : next ∉ before := fun hm => lt_irrefl _ (hbefore next hm)
    obtain ⟨hseat, hwaits⟩ := unblock_views h
    have hready : m₁.ready.entries = k.ready.entries :=
      congrArg (fun s : Seating => s.queue .ready) hb.seating
    refine ⟨o, ho, hh, .inr ⟨before, next, after, hr, hsplit, ?_, ?_, ?_, ?_⟩⟩
    · intro v hv
      rw [← hsame v (by simp [hsplit, hv]), ← hsame next hmem]
      exact hbefore v hv
    · intro v hv
      rw [← hsame v (by simp [hsplit, hv]), ← hsame next hmem]
      exact hafter v hv
    · rw [hq.waits, hwaits, hb.waits]
    · rw [hq.seating, hseat, hready, hb.seating, queue_lock ho, hsplit,
        List.erase_append_right _ hnot, List.erase_cons_head]

/-- The threads that live before a hand-over live after it. -/
theorem Sound.passOn_live (hk : k.Sound g) (hs : k.waits.waitsFor holder = none)
    (h : Core.passOn l holder k = .ok r m) {th : Thread} (hth : k.threads[t]? = some th) :
    ∃ th', m.threads[t]? = some th' := by
  have hstate : ∃ x, m.seating.state t = some x := by
    obtain ⟨o, -, -, ⟨-, -, hseat, -⟩ | ⟨_, next, _, -, -, -, -, -, hseat⟩⟩ := hk.passOn_views hs h
    · exact ⟨_, hseat ▸ state_eq hth⟩
    · rw [hseat]
      by_cases htn : t = next
      · exact ⟨.ready, by simp [Seating.setQueue, Seating.setState, htn]⟩
      · exact ⟨th.state, by simpa [Seating.setQueue, Seating.setState, htn] using state_eq hth⟩
  obtain ⟨x, hx⟩ := hstate
  obtain ⟨th', hth', -⟩ := live_of_state hx
  exact ⟨th', hth'⟩

theorem Sound.passOn_heir (hk : k.Sound g) (hs : k.waits.waitsFor holder = none)
    (h : Core.passOn l holder k = .ok r m) : r ≠ some holder := by
  rintro rfl
  obtain ⟨o, ho, -, ⟨hr, -⟩ | ⟨before, next, after, hr, hsplit, -⟩⟩ := hk.passOn_views hs h
  · cases hr
  · obtain rfl := Option.some.inj hr
    refine Waits.target_ne_source (l := l) hk.waits hs ?_ rfl
    rw [waiters_lock ho, hsplit]
    simp

/-- The old holder holds the locks that it held, but for the one that it gave up. -/
theorem Sound.passOn_holds (hk : k.Sound g) (hs : k.waits.waitsFor holder = none)
    (h : Core.passOn l holder k = .ok r m) (i : ObjectId) (x : Lock) :
    (m.objects.locks[i]? = some x ∧ x.holder = some holder) ↔
      i ≠ l ∧ k.objects.locks[i]? = some x ∧ x.holder = some holder := by
  obtain ⟨o, ho, -, hsets⟩ := passOn_sets h
  rw [hsets.locks]
  split_ifs with hi
  · have hpassed : (o.passedTo r).holder = r := by cases r <;> rfl
    constructor
    · rintro ⟨he, hx⟩
      obtain rfl := Option.some.inj he
      exact absurd (hpassed.symm.trans hx) (hk.passOn_heir hs h)
    · exact fun hx => absurd hi hx.1
  · simp [hi]

/-- Nobody's priority changes but that of the old holder. -/
theorem Sound.passOn_priority (hk : k.Sound g) (hs : k.waits.waitsFor holder = none)
    (h : Core.passOn l holder k = .ok r m) (ht : t ≠ holder) :
    m.waits.priority t = k.waits.priority t := by
  obtain ⟨o, ho, hh, ⟨-, -, -, hw⟩ | ⟨before, next, after, -, hsplit, hb, ha, hw, -⟩⟩ :=
    hk.passOn_views hs h
  · rw [hw]
    rfl
  · have hmem : next ∈ k.waits.waiters l := by
      rw [waiters_lock ho, hsplit]
      simp
    have hmax : ∀ v ∈ k.waits.waiters l, k.waits.priority v ≤ k.waits.priority next := by
      intro v hv
      rw [waiters_lock ho, hsplit, List.mem_append, List.mem_cons] at hv
      rw [← priorityOf_eq, ← priorityOf_eq]
      rcases hv with hv | rfl | hv
      · exact (hb v hv).le
      · exact le_rfl
      · exact ha v hv
    rw [hw]
    exact Waits.priority_handOver hk.waits ((holder_lock ho).trans hh) hs hmem
      (hk.seating.nodup (.lock l)) hmax ht

/-- The new holder is ready, waits for nothing, and has the other waiters as further donors. -/
theorem Sound.passOn_next {o : Lock} {before after : List ThreadId} {next : ThreadId}
    (hk : k.Sound g) (hs : k.waits.waitsFor holder = none) (ho : k.objects.locks[l]? = some o)
    (hsplit : o.waiters.entries = before ++ next :: after)
    (hw : m.waits = k.waits.handOver l holder next)
    (hstate : m.seating.state next = some .ready) :
    ∃ th th', k.threads[next]? = some th ∧ m.threads[next]? = some th' ∧ th'.state = .ready ∧
      th'.waitsFor = none ∧ th'.donors.entries = th.donors.entries ++ (before ++ after) := by
  have hmem : next ∈ k.waits.waiters l := by
    rw [waiters_lock ho, hsplit]
    simp
  have hnd : (before ++ next :: after).Nodup := by
    rw [← hsplit, ← queue_lock ho]
    exact hk.seating.nodup (.lock l)
  obtain ⟨th, hth⟩ := hk.live_of_mem (p := .lock l) hmem
  obtain ⟨th', hth', hready, hwf, hd, -⟩ := exists_thread hstate
  have hdk : k.waits.donors next = th.donors.entries := by simp [Core.waits, hth]
  refine ⟨th, th', hth, hth', hready, ?_, ?_⟩
  · rw [hwf, hw]
    simp [Waits.handOver, Waits.bestow, Waits.setPriority, Waits.setDonors, Waits.setWaitsFor]
  · rw [hd, hw, Waits.donors_handOver hk.waits hs hmem, if_pos rfl, hdk, waiters_lock ho, hsplit]
    rw [List.nodup_append, List.nodup_cons] at hnd
    have hfb : before.filter (· ≠ next) = before :=
      List.filter_eq_self.mpr fun v hv => by simpa using hnd.2.2 v hv next List.mem_cons_self
    have hfa : after.filter (· ≠ next) = after :=
      List.filter_eq_self.mpr fun v hv => by
        have hne : v ≠ next := ne_of_mem_of_not_mem hv hnd.2.1.1
        simpa using hne
    rw [List.filter_append, List.filter_cons_of_neg (by simp), hfb, hfa]

/-- The most urgent waiter, the earliest among equals, gets the lock and is ready. -/
theorem Sound.passOn_lot {o : Lock} (hk : k.Sound g) (hs : k.waits.waitsFor holder = none)
    (h : Core.passOn l holder k = .ok r m) (ho : k.objects.locks[l]? = some o)
    (hne : o.waiters.entries ≠ []) :
    ∃ before next after th th', o.waiters.entries = before ++ next :: after ∧
      (∀ u ∈ before, k.priorityOf u < k.priorityOf next) ∧
      (∀ u ∈ after, k.priorityOf u ≤ k.priorityOf next) ∧
      m.objects.locks[l]? = some ⟨some next, ⟨before ++ after⟩⟩ ∧
      m.ready.entries = k.ready.entries ++ [next] ∧
      k.threads[next]? = some th ∧ m.threads[next]? = some th' ∧
      th'.state = .ready ∧ th'.waitsFor = none ∧
      th'.donors.entries = th.donors.entries ++ (before ++ after) := by
  obtain ⟨x, hx, -, hviews⟩ := hk.passOn_views hs h
  obtain rfl := Option.some.inj (ho.symm.trans hx)
  obtain ⟨x, hx, -, hsets⟩ := passOn_sets h
  obtain rfl := Option.some.inj (ho.symm.trans hx)
  rcases hviews with ⟨-, hnone, -⟩ | ⟨before, next, after, rfl, hsplit, hb, ha, hw, hseat⟩
  · exact absurd hnone hne
  have hstate : m.seating.state next = some .ready := by
    rw [hseat]
    simp [Seating.setQueue, Seating.setState]
  have hready : m.ready.entries = k.ready.entries ++ [next] := by
    have hqueue := congrArg (fun s : Seating => s.queue .ready) hseat
    simp only [Seating.setQueue, Function.update_self] at hqueue
    exact hqueue
  obtain ⟨th, th', hth, hth', hnext⟩ := hk.passOn_next hs ho hsplit hw hstate
  have hnot : next ∉ before := fun hm => lt_irrefl _ (hb next hm)
  refine ⟨before, next, after, th, th', hsplit, hb, ha, ?_, hready, hth, hth', hnext⟩
  rw [hsets.self]
  simp only [Lock.passedTo, Queue.remove, hsplit, List.erase_append_right _ hnot,
    List.erase_cons_head]

/-- The old holder keeps the donors that wait for the locks that it still holds. -/
theorem Sound.passOn_donors (hk : k.Sound g) (hs : k.waits.waitsFor holder = none)
    (h : Core.passOn l holder k = .ok r m) {th : Thread} (hth : k.threads[holder]? = some th) :
    ∃ th', m.threads[holder]? = some th' ∧
      ∀ d, d ∈ th'.donors ↔ d ∈ th.donors ∧ ∃ (i : ObjectId) (o : Lock), i ≠ l ∧
        k.objects.locks[i]? = some o ∧ o.holder = some holder ∧ d ∈ o.waiters := by
  obtain ⟨th', hth'⟩ := hk.passOn_live hs h hth
  refine ⟨th', hth', fun d => ?_⟩
  rw [(hk.passOn hs h).mem_donors_iff hth', hk.mem_donors_iff hth]
  constructor
  · rintro ⟨i, x, hx, hxh, hd⟩
    obtain ⟨hi, hx, -⟩ := (hk.passOn_holds hs h i x).mp ⟨hx, hxh⟩
    exact ⟨⟨i, x, hx, hxh, hd⟩, i, x, hi, hx, hxh, hd⟩
  · rintro ⟨-, i, x, hi, hx, hxh, hd⟩
    obtain ⟨hx, -⟩ := (hk.passOn_holds hs h i x).mpr ⟨hi, hx, hxh⟩
    exact ⟨i, x, hx, hxh, hd⟩

/-- Nobody's base priority changes. -/
theorem Sound.passOn_base (hk : k.Sound g) (hs : k.waits.waitsFor holder = none)
    (h : Core.passOn l holder k = .ok r m) : m.waits.base = k.waits.base := by
  obtain ⟨o, -, -, ⟨-, -, -, hw⟩ | ⟨_, _, _, -, -, -, -, hw, -⟩⟩ :=
    hk.passOn_views hs h <;> rw [hw] <;> rfl

/-- **The hand-over.** A holder that waits for nothing hands its lock over. -/
theorem Sound.passOn_handsOver (hk : k.Sound g) (hs : k.waits.waitsFor holder = none)
    (h : Core.passOn l holder k = .ok r m) : HandsOver k m l holder := by
  obtain ⟨o, ho, hh, hviews⟩ := hk.passOn_views hs h
  obtain ⟨x, hx, -, hsets⟩ := passOn_sets h
  obtain rfl := Option.some.inj (ho.symm.trans hx)
  constructor
  · intro x hx hnone
    obtain rfl := Option.some.inj (ho.symm.trans hx)
    rcases hviews with ⟨rfl, -, hseat, -⟩ | ⟨_, _, _, -, hsplit, -⟩
    · exact ⟨hsets.self, congrArg (fun s : Seating => s.queue .ready) hseat⟩
    · simp [hsplit] at hnone
  · exact fun x hx => hk.passOn_lot hs h hx
  · intro i hi
    rw [hsets.locks, if_neg hi]
  · exact fun th => hk.passOn_donors hs h
  · intro th hth
    obtain ⟨th', hth'⟩ := hk.passOn_live hs h hth
    have hbase : th'.base = th.base := by
      have hb := congrFun (hk.passOn_base hs h) holder
      simpa [Core.waits, hth, hth'] using hb
    refine ⟨th', hth', hbase, ?_⟩
    rw [← hbase]
    exact (hk.passOn hs h).isGreatest_waiters hth'
  · intro t th ht hth
    obtain ⟨th', hth'⟩ := hk.passOn_live hs h hth
    have hp := hk.passOn_priority hs h ht
    exact ⟨th', hth', by simpa [Core.waits, hth, hth'] using hp⟩

/-! ## A hand-over does not fail -/

theorem live_mapThread {f : Thread → Thread} {a : ThreadId} (h : ∃ th, k.threads[a]? = some th) :
    ∃ th, (k.mapThread t f).threads[a]? = some th := by
  obtain ⟨th, hth⟩ := h
  rw [getElem?_mapThread]
  split
  · rename_i he
    exact ⟨f th, by rw [← he, hth]; rfl⟩
  · exact ⟨th, hth⟩

theorem forM_addDonor_ok {ts : List ThreadId} (hlive : ∃ th, k.threads[t]? = some th)
    (hnd : ts.Nodup) (hnew : ∀ d ∈ ts, d ∉ k.waits.donors t) :
    ∃ m, ts.forM (addDonor t) k = .ok () m := by
  induction ts generalizing k with
  | nil => exact ⟨k, rfl⟩
  | cons d ts ih =>
    obtain ⟨hd, hnd⟩ := List.nodup_cons.mp hnd
    obtain ⟨th, hth⟩ := hlive
    obtain ⟨m, hm, -⟩ := addDonor_ok hth (hnew d List.mem_cons_self)
    obtain ⟨hu, hw⟩ := addDonor_eq_ok hm
    obtain ⟨n, hn⟩ := ih (hu.live hth) hnd fun v hv => by
      have hvd : v ≠ d := ne_of_mem_of_not_mem hv hd
      rw [hw]
      simpa [Waits.setDonors, hvd] using hnew v (List.mem_cons_of_mem d hv)
    exact ⟨n, (bind_of_ok hm).trans hn⟩

theorem unblock_ok (hi : t ≠ k.idle) {th : Thread} (hth : k.threads[t]? = some th)
    (hb : th.state = .blocked) (hr : t ∉ k.ready.entries) : ∃ m, unblock t k = .ok () m := by
  have hbody : ∀ n, Quiet k n → ∃ a m, (do
      let th ← ask (thread t)
      demand (th.state = .blocked) (.unblockNotBlocked t th.state)
      changeThread t fun th => { th with state := .ready }
      enqueueReady t : CoreM Unit) n = .ok a m := by
    intro n hq
    have hn : n.threads[t]? = some th := hq.threads ▸ hth
    rw [ask_bind_of_ok (thread_eq_ok_iff.mpr hn),
      demand_bind_of hb, changeThread_bind_of_ok hn]
    exact ⟨(), _, enqueueReady_eq_ok.mpr ⟨hq.ready ▸ hr, rfl⟩⟩
  obtain ⟨_, m, hm⟩ := masked_ok hbody
  unfold unblock
  exact ⟨m, by rw [get_bind_eq_ok, demand_bind_eq_ok]; exact ⟨hi, hm⟩⟩

/-- A waiter of a lock that nobody holds any more can be made its holder. -/
theorem bestow_ok {o : Lock} {next : ThreadId} (ws : List ThreadId)
    (ho : k.objects.locks[l]? = some o) (hnext : ∃ th, k.threads[next]? = some th)
    (hdonors : ∀ d ∈ k.waits.donors next ++ ws, ∃ th, k.threads[d]? = some th) (hnd : ws.Nodup)
    (hnew : ∀ d ∈ ws, d ∉ k.waits.donors next) :
    ∃ m p m', ws.forM (addDonor next) ((k.mapLock l fun lk =>
        { lk with holder := some next, waiters := lk.waiters.remove next }).mapThread next
          fun th => { th with waitsFor := none }) = .ok () m ∧
      refreshPriority next m = .ok p m' := by
  let k₁ := k.mapLock l fun lk =>
    { lk with holder := some next, waiters := lk.waiters.remove next }
  let k₂ := k₁.mapThread next fun th => { th with waitsFor := none }
  have hlive : ∀ a, (∃ th, k.threads[a]? = some th) → ∃ th, k₂.threads[a]? = some th :=
    fun a ha => live_mapThread (k := k₁) ha
  have hd₂ : k₂.waits.donors = k.waits.donors := by
    obtain ⟨th, hth⟩ := hnext
    have hw₂ : k₂.waits = k₁.waits.setWaitsFor next none := waits_waitsFor (k := k₁) hth none
    rw [hw₂, waits_mapLock ho]
    rfl
  obtain ⟨m, hm⟩ := forM_addDonor_ok (hlive next hnext) hnd (hd₂ ▸ hnew)
  obtain ⟨hu, hw⟩ := forM_addDonor_eq_ok (hlive next hnext) hm
  obtain ⟨th₂, hth₂⟩ := hlive next hnext
  obtain ⟨th, hth⟩ := hu.live hth₂
  obtain ⟨p, m', hm'⟩ := refreshPriority_ok hth fun d hd => by
    rw [hw, hd₂] at hd
    obtain ⟨dth, hdth⟩ := hlive d (hdonors d (by simpa [Waits.setDonors] using hd))
    exact hu.live hdth
  exact ⟨m, p, m', hm, hm'⟩

/-- The holder of a lock can give it up. -/
theorem Sound.withdraw_ok {o : Lock} {th : Thread} (hk : k.Sound g)
    (hth : k.threads[holder]? = some th) :
    ∃ p m,
      refreshPriority holder
        ((k.mapLock l fun lk => { lk with holder := none }).mapThread holder fun th =>
          { th with donors := th.donors.keep fun donor => donor ∉ o.waiters }) = .ok p m := by
  let k₁ := k.mapLock l fun lk => { lk with holder := none }
  let k₂ := k₁.mapThread holder fun th =>
    { th with donors := th.donors.keep fun donor => donor ∉ o.waiters }
  obtain ⟨th₂, hth₂⟩ : ∃ th, k₂.threads[holder]? = some th := live_mapThread (k := k₁) ⟨th, hth⟩
  refine refreshPriority_ok hth₂ fun d hd => ?_
  have hw₂ : k₂.waits = _ :=
    waits_donors (k := k₁) hth fun q => q.keep fun donor => donor ∉ o.waiters
  rw [hw₂] at hd
  simp only [Waits.setDonors, Function.update_self, Queue.entries_keep, List.mem_filter] at hd
  refine live_mapThread (k := k₁) (hk.walkable.donors holder d ?_)
  simpa [Core.waits, hth] using hd.1

/-- A waiter of a lock that the current thread has given up can be made its holder. -/
theorem Sound.bestowed_ok {o : Lock} {next : ThreadId} {p : Priority} (hk : k.Sound g)
    (hs : k.waits.waitsFor holder = none) (hc : holder = k.current)
    (ho : k.objects.locks[l]? = some o) (hh : o.holder = some holder) (hmem : next ∈ o.waiters)
    (hm : refreshPriority holder
      ((k.mapLock l fun lk => { lk with holder := none }).mapThread holder fun th =>
        { th with donors := th.donors.keep fun donor => donor ∉ o.waiters }) = .ok p m) :
    ∃ m', (do
      changeLock l fun lk => { lk with holder := some next, waiters := lk.waiters.remove next }
      changeThread next fun th => { th with waitsFor := none }
      (o.waiters.entries.filter fun donor => donor ≠ next).forM (addDonor next)
      let _ ← refreshPriority next
      Core.unblock next
      say (.handsOver l holder next)
      return some next : CoreM (Option ThreadId)) m = .ok (some next) m' := by
  have hholder : k.waits.holder l = some holder := (holder_lock ho).trans hh
  obtain ⟨th, hth⟩ := hk.registered.holder l holder hholder
  obtain ⟨hu, hw⟩ := withdraw_eq ho ⟨th, hth⟩ hm
  have hsits : ∀ v ∈ o.waiters.entries, v ∈ k.seating.queue (.lock l) := fun v hv => by
    rwa [queue_lock ho]
  have hne : next ≠ holder := Waits.target_ne_source hk.waits hs (hsits next hmem)
  have hml : m.objects.locks[l]? = some { o with holder := none } := by
    rw [gear_locks ((keeps_refreshPriority holder).gear _ _ _ hm)]
    exact (setsLock_mapLock ho fun lk => { lk with holder := none }).self
  have hdm : m.waits.donors next = k.waits.donors next := by
    rw [hw]
    simp [Waits.withdraw, Waits.setPriority, Waits.setDonors, Waits.setHolder, hne]
  have hlive : ∀ v, (∃ th, k.threads[v]? = some th) → ∃ th, m.threads[v]? = some th :=
    fun v hv => hv.elim fun _ => hu.live
  obtain ⟨nth, hnth⟩ := hlive next (hk.live_of_mem (hsits next hmem))
  have hdonors : ∀ d ∈ m.waits.donors next ++ o.waiters.entries.filter fun donor => donor ≠ next,
      ∃ th, m.threads[d]? = some th := by
    intro d hd
    rw [hdm, List.mem_append, List.mem_filter] at hd
    rcases hd with hd | ⟨hd, -⟩
    · exact hlive d (hk.walkable.donors next d hd)
    · exact hlive d (hk.live_of_mem (hsits d hd))
  -- A waiter of this lock waits for the old holder, and so does not donate to the new one.
  have hnew : ∀ d ∈ o.waiters.entries.filter fun donor => donor ≠ next,
      d ∉ m.waits.donors next := by
    intro d hd hdn
    rw [hdm] at hdn
    have haw := hk.waits.awaits_holder hholder (waiters_lock ho ▸ (List.mem_filter.mp hd).1)
    exact hne (((hk.waits.wired.mem_donors next d).mp hdn).eq haw)
  obtain ⟨m₁, p', m₂, h₁, h₂⟩ := bestow_ok _ hml ⟨nth, hnth⟩ hdonors
    ((queue_lock ho ▸ hk.seating.nodup (.lock l)).filter _) hnew
  have hq : m.waits.waiters l = o.waiters.entries := by
    rw [hw]
    exact waiters_lock ho
  obtain ⟨hseat, -⟩ := bestow_eq hq ⟨_, hml⟩ hnth h₁ h₂
  rw [hu.seating] at hseat
  have hstate : m₂.seating.state next = some .blocked := by
    have hseated := hk.seating.seated next (.lock l) (hsits next hmem)
    rw [Seating.about_of_ne (show next ≠ k.current from hc ▸ hne)] at hseated
    rw [hseat]
    exact hseated
  obtain ⟨nth₂, hnth₂, hb⟩ := live_of_state hstate
  have hidle : next ≠ m₂.idle := by
    rw [show m₂.idle = k.idle from congrArg Seating.idle hseat]
    exact hk.ne_idle_of_mem (hsits next hmem)
  have hready : next ∉ m₂.ready.entries := by
    rw [show m₂.ready.entries = k.ready.entries from
      congrArg (fun s : Seating => s.queue .ready) hseat]
    intro hr
    cases hk.seating.one_seat next .ready (.lock l) hr (hsits next hmem)
  obtain ⟨m₃, h₃⟩ := unblock_ok hidle hnth₂ hb hready
  obtain ⟨m₄, h₄⟩ := say_ok (.handsOver l holder next) m₃
  refine ⟨m₄, ?_⟩
  rw [changeLock_bind_of_ok hml, changeThread_bind_of_ok (k := m.mapLock l _) hnth, bind_of_ok h₁,
    bind_of_ok h₂, bind_of_ok h₃, bind_of_ok h₄]
  rfl

/-- **A hand-over does not fail.** The current thread, if it waits for nothing, can hand over a
lock. -/
theorem Sound.passOn_ok (hk : k.Sound g) (hh : k.waits.holder l = some holder)
    (hs : k.waits.waitsFor holder = none) (hc : holder = k.current) :
    ∃ r m, Core.passOn l holder k = .ok r m := by
  obtain ⟨o, ho, hoh⟩ := Option.bind_eq_some_iff.mp hh
  obtain ⟨th, hth⟩ := hk.registered.holder l holder hh
  obtain ⟨p, m, hm⟩ := hk.withdraw_ok (l := l) (o := o) hth
  obtain ⟨hu, -⟩ := withdraw_eq ho ⟨th, hth⟩ hm
  have hask : m.mostUrgent o.waiters = .ok (o.waiters.foremost m.outranks) := by
    refine mostUrgent_eq_ok.mpr ⟨fun v hv => ?_, rfl⟩
    obtain ⟨vth, hvth⟩ := hk.live_of_mem (p := .lock l) (by rwa [queue_lock ho])
    obtain ⟨vth', hvth'⟩ := hu.live hvth
    rw [Std.ExtTreeMap.mem_iff_isSome_getElem?, hvth']
    rfl
  unfold Core.passOn
  rw [ask_bind_of_ok (lock_eq_ok_iff.mpr ho), demand_bind_of hoh,
    changeLock_bind_of_ok ho, changeThread_bind_of_ok (k := k.mapLock l _) hth, bind_of_ok hm,
    ask_bind_of_ok hask]
  cases hnext : o.waiters.foremost m.outranks with
  | none => exact ⟨none, m, rfl⟩
  | some next =>
    obtain ⟨m', hm'⟩ := hk.bestowed_ok hs hc ho hoh (Queue.mem_of_foremostOf hnext) hm
    exact ⟨some next, m', hm'⟩

/-! ## Releases and waits -/

/-- The scheduler has made somebody run. Who waits for whom is as before, and who was ready is ready
or runs. -/
structure Reschedules (k k' : Core) : Prop where
  waits : k'.waits = k.waits
  awake : ∀ t ∈ k.ready.entries, k'.Awake t

theorem yieldNow_waits (h : yieldNow k = .ok u k') : k'.waits = k.waits := by
  unfold Core.yieldNow at h
  simp only [outsideHandler_bind_eq_ok, ask_bind_eq_ok] at h
  obtain ⟨-, th, -, h⟩ := h
  obtain ⟨m, m', hq, h, hq'⟩ := masked_eq_ok h
  rw [hq'.waits, ← hq.waits]
  rw [get_bind_eq_ok] at h
  split at h
  · exact endTurn_waits (σ := .blocked) (by decide) h
  · rw [bind_eq_ok] at h
    obtain ⟨_, n, hn, h⟩ := h
    obtain ⟨-, rfl⟩ := enqueueReady_eq_ok.mp hn
    exact endTurn_waits (k := { m with ready := ⟨m.ready.entries ++ [th.id]⟩ }) (by decide) h

theorem preempt_waits (h : preempt k = .ok u k') : k'.waits = k.waits := by
  unfold Core.preempt at h
  simp only [ask_bind_eq_ok] at h
  obtain ⟨b, -, h⟩ := h
  split at h
  · rw [get_bind_eq_ok] at h
    split at h
    · rw [modify_eq_ok] at h
      subst h
      rfl
    · exact yieldNow_waits h
  · exact (pure_eq_ok.mp h).2 ▸ rfl

/-- Whoever is in the ready queue is ready, unless the current thread has lined up there. -/
theorem Sound.state_ready (hk : k.Sound g) (hg : g.state ≠ .ready) (ht : t ∈ k.ready.entries) :
    t ≠ k.current ∧ k.seating.state t = some .ready := by
  have hs := hk.seating.seated t .ready ht
  have hne : t ≠ k.current := by
    rintro rfl
    exact hg (Option.some.inj ((Seating.about_current k.seating g.state).symm.trans hs))
  rw [Seating.about_of_ne hne] at hs
  exact ⟨hne, hs⟩

theorem Sound.preempt_reschedules (hk : k.Sound g) (hg : g.state = .running)
    (h : Core.preempt k = .ok u k') : Reschedules k k' :=
  ⟨preempt_waits h, fun _ ht => awake_preempt (hk.state_ready (by simp [hg]) ht).2 h⟩

theorem Sound.endTurn_reschedules (hk : k.Sound g) (hg : g.state = .blocked)
    (h : Core.endTurn .blocked k = .ok u k') : Reschedules k k' := by
  refine ⟨endTurn_waits (by decide) h, fun t ht => ?_⟩
  obtain ⟨hne, hready⟩ := hk.state_ready (by simp [hg]) ht
  exact Awake.endTurn (.inl hready) hne h

/-- A release is a hand-over, and then the scheduler's business. -/
theorem Sound.release_eq (hk : k.Sound g) (hg : g.state = .running) {th : Thread}
    (hr : k.running = .ok th) (hh : k.waits.holder l = some k.current) :
    ∃ m, m.Sound g ∧ HandsOver k m l k.current ∧ Core.release l k = Core.preempt m ∧
      (k.Fit false → m.Fit false) := by
  have hid : th.id = k.current := (hk.running_eq hr).1.trans hk.current.symm
  have hbody : ∀ n, Quiet k n → ∃ r m, Core.passOn l k.current n = .ok r m := by
    intro n hq
    have hn := hk.quiet hq
    exact hn.passOn_ok (hq.waits ▸ hh) (hq.current ▸ hn.current_waitsFor hg) hq.current.symm
  obtain ⟨r, m, hm⟩ := masked_ok hbody
  obtain ⟨n, n', hq, hp, hq'⟩ := masked_eq_ok hm
  have hn := hk.quiet hq
  have hs : n.waits.waitsFor k.current = none := hq.current ▸ hn.current_waitsFor hg
  refine ⟨m, (hn.passOn hs hp).quiet hq', ?_, ?_, fun hf => ?_⟩
  · exact ((hn.passOn_handsOver hs hp).congr_left hq.threads (congrArg _ hq.objects)
      hq.ready).quiet_right hq'
  · unfold Core.release
    rw [ask_bind_of_ok hr, hid, bind_of_ok hm]
  · exact hf.act (masking_masked (masking_passOn _ _)) (makes_passOn _ _).masked hm

/-- The second part of a wait: the thread joins the queue of the condition variable and hands its
lock over, and its turn ends. -/
theorem Sound.sitAndPassOn_eq {o : Condition} (hk : k.Sound g) (hg : g.state = .running)
    (hi : k.current ≠ k.idle) (hh : k.waits.holder l = some k.current)
    (ho : k.objects.conditions[c]? = some o) (ht : t = k.current) :
    ∃ m, m.Sound { g with state := .blocked } ∧ HandsOver k m l k.current ∧
      (do
        let waiters ← ask fun k => do (← k.condition c).waiters.push t
        changeCondition c fun cond => { cond with waiters := waiters }
        let _ ← Core.passOn l t
        say (.waits t (.condition c))
        Core.endTurn .blocked : CoreM Unit) k = Core.endTurn .blocked m ∧
      (k.Fit true → m.Fit true) := by
  subst ht
  have hstands : k.seating.Stands k.current :=
    hk.seating.current_stands fun p => hg ▸ p.state_ne_running
  obtain ⟨q, hpush⟩ : ∃ q, o.waiters.push k.current = .ok q := by
    refine ⟨⟨o.waiters.entries ++ [k.current]⟩, if_neg ?_⟩
    have := hstands (.condition c)
    rwa [queue_condition ho] at this
  have hσ := hk.stand hg .blocked (by decide)
  let k₁ := k.mapCondition c fun cond => { cond with waiters := q }
  have hj : k₁.Sound { g with state := .blocked } :=
    hσ.joinCondition ho (Queue.push_eq_ok_iff.mp hpush).2 (about_current k _) hi hstands
  have hs : k₁.waits.waitsFor k₁.current = none := hk.current_waitsFor hg
  obtain ⟨r, m, hm⟩ := hj.passOn_ok (l := l) hh hs rfl
  obtain ⟨n, hn⟩ := say_ok (.waits k.current (.condition c)) m
  have hchange : changeCondition c (fun cond => { cond with waiters := q }) k = .ok () k₁ :=
    changeCondition_eq_ok.mpr ⟨⟨o, ho⟩, rfl⟩
  refine ⟨n, (hj.passOn hs hm).quiet (quiet_say hn), ?_, ?_, fun hf => ?_⟩
  · have hover : HandsOver k₁ m l k.current := hj.passOn_handsOver hs hm
    have hover' : HandsOver k m l k.current := hover.congr_left rfl rfl rfl
    exact hover'.quiet_right (quiet_say hn)
  · have hask : (do (← k.condition c).waiters.push k.current : Except Halt Queue) = .ok q :=
      except_bind_ok.mpr ⟨o, condition_eq_ok_iff.mpr ho, hpush⟩
    rw [ask_bind_of_ok hask, bind_of_ok hchange, bind_of_ok hm, bind_of_ok hn]
  · have hf₁ := hf.act (masking_changeCondition _ _) (makes_changeCondition _ _) hchange
    exact (hf₁.act (masking_passOn _ _) (makes_passOn _ _) hm).act (masking_say _) (makes_say _) hn

/-- What a thread does that holds a lock and checks that it does. -/
theorem Sound.checkHeld_ok (hk : k.Sound g) {use : ConditionUse} {th : Thread}
    (hr : k.running = .ok th) (hh : k.waits.holder l = some k.current) :
    checkHeld use c l k = .ok () k := by
  obtain ⟨o, ho, hoh⟩ := Option.bind_eq_some_iff.mp hh
  have hid : th.id = k.current := (hk.running_eq hr).1.trans hk.current.symm
  have hheld : heldByCurrent l k = .ok true := by
    unfold heldByCurrent
    simp only [except_bind_ok, lock_eq_ok_iff, except_pure_ok]
    exact ⟨o, ho, th, hr, by simp [hoh, hid]⟩
  unfold checkHeld
  rw [ask_bind_of_ok hheld]
  exact demand_eq_ok.mpr ⟨rfl, rfl⟩

/-- Steps that come to the same go on in the same way. -/
theorem bind_congr_of_eq {σ α β : Type} {x y : EStateM Halt σ α} {f : α → EStateM Halt σ β}
    {s s' : σ} (h : x s = y s') : (x >>= f) s = (y >>= f) s' := by
  show EStateM.bind x f s = EStateM.bind y f s'
  unfold EStateM.bind
  rw [h]

/-- A wait is a hand-over, and then the thread's turn ends. -/
theorem Sound.await_eq {o : Condition} (hk : k.Sound g) (hg : g.state = .running) {th : Thread}
    (hr : k.running = .ok th) (hout : k.machine.inHandler = false) (hi : k.current ≠ k.idle)
    (hh : k.waits.holder l = some k.current) (ho : k.objects.conditions[c]? = some o)
    (hb : ∀ b, o.lock = some b → b = l) :
    ∃ m was, m.Sound { g with state := .blocked } ∧ HandsOver k m l k.current ∧
      Core.await c l k = (do
        Core.endTurn .blocked
        onMachine (Machine.unmask was) : CoreM Unit) m ∧
      (k.Fit false → m.Fit true) := by
  have hid : th.id = k.current := (hk.running_eq hr).1.trans hk.current.symm
  obtain ⟨was, n, hmask⟩ : ∃ was n, onMachine Machine.mask k = .ok was n := ⟨_, _, rfl⟩
  have hq := quiet_mask hmask
  have hn := hk.quiet hq
  have hin : n.current ≠ n.idle := by rwa [hq.current, hq.idle]
  have hhn : n.waits.holder l = some n.current := by rwa [hq.waits, hq.current]
  have hon : n.objects.conditions[c]? = some o := by rwa [hq.objects]
  have hlocks : n.objects.locks = k.objects.locks := congrArg Objects.locks hq.objects
  have htail : ∀ m, (Core.endTurn .blocked >>= fun a => onMachine (Machine.unmask was) >>=
      fun _ => pure a : CoreM Unit) m = (do
        Core.endTurn .blocked
        onMachine (Machine.unmask was) : CoreM Unit) m := by
    intro m
    simp only [bind_pure_unit]
  unfold Core.await
  rw [bind_of_ok (outsideHandler_eq_ok (u := ()).mpr ⟨hout, rfl⟩),
    bind_of_ok (hk.checkHeld_ok hr hh), ask_bind_of_ok hr, masked, bind_of_ok hmask, hid,
    ← hq.current]
  cases hlock : o.lock with
  | some bound =>
    obtain rfl := hb bound hlock
    obtain ⟨m, hm, hover, heq, hfit⟩ := hn.sitAndPassOn_eq (l := bound) hg hin hhn hon rfl
    refine ⟨m, was, hm, hover.congr_left hq.threads hlocks hq.ready, ?_,
      fun hf => hfit (hf.mask hmask)⟩
    rw [← htail]
    apply bind_congr_of_eq
    rw [ask_bind_of_ok (condition_eq_ok_iff.mpr hon)]
    simp only [hlock]
    exact (demand_bind_of trivial).trans heq
  | none =>
    let n₁ := n.mapCondition c fun cond => { cond with lock := some l }
    have hbind : changeCondition c (fun cond => { cond with lock := some l }) n = .ok () n₁ :=
      changeCondition_eq_ok.mpr ⟨⟨o, hon⟩, rfl⟩
    have hon₁ : n₁.objects.conditions[c]? = some { o with lock := some l } :=
      (setsCondition_mapCondition hon fun cond => { cond with lock := some l }).self
    have hn₁ : n₁.Sound g := hn.alike (alike_mapCondition hon rfl)
    obtain ⟨m, hm, hover, heq, hfit⟩ := hn₁.sitAndPassOn_eq (l := l) hg hin hhn hon₁ rfl
    refine ⟨m, was, hm, hover.congr_left hq.threads hlocks hq.ready, ?_, fun hf => hfit
      ((hf.mask hmask).act (masking_changeCondition _ _) (makes_changeCondition _ _) hbind)⟩
    rw [← htail]
    apply bind_congr_of_eq
    rw [ask_bind_of_ok (condition_eq_ok_iff.mpr hon)]
    simp only [hlock]
    exact (bind_of_ok hbind).trans heq

theorem Reschedules.quiet_right (h : Reschedules k m) (hq : Quiet m k') : Reschedules k k' :=
  ⟨hq.waits.trans h.waits, fun t ht => (h.awake t ht).quiet hq⟩

/-- The end of a wait. -/
theorem Sound.unmask_reschedules {was : Bool} (hk : k.Sound g) (hg : g.state = .blocked)
    (h : (do
      Core.endTurn .blocked
      onMachine (Machine.unmask was) : CoreM Unit) k = .ok u k') : Reschedules k k' := by
  obtain ⟨_, m, hm, h⟩ := bind_eq_ok.mp h
  exact (hk.endTurn_reschedules hg hm).quiet_right (quiet_unmask h)

/-! ## Who holds a lock -/

/-- `holder` holds lock `l`, and its queue begins with `ws`. -/
def Holds (k : Core) (l : ObjectId) (holder : ThreadId) (ws : List ThreadId) : Prop :=
  ∃ o, k.objects.locks[l]? = some o ∧ o.holder = some holder ∧ ws <+: o.waiters.entries

namespace Holds

variable {ws : List ThreadId} {i : ObjectId}

theorem congr (h : k.Holds l holder ws) (hl : k'.objects.locks = k.objects.locks) :
    k'.Holds l holder ws := by
  unfold Holds
  rw [hl]
  exact h

/-- A lock changed, and it is another one or has kept its holder and its waiters. -/
theorem setsLock {o' : Lock} (h : k.Holds l holder ws) (hs : SetsLock k k' i o')
    (ho : ∀ o, k.objects.locks[i]? = some o → i = l → o.holder = some holder →
      o'.holder = some holder ∧ o.waiters.entries <+: o'.waiters.entries) :
      k'.Holds l holder ws := by
  obtain ⟨o, hol, hh, hw⟩ := h
  unfold Holds
  rw [hs.locks]
  split_ifs with hli
  · obtain ⟨hh', hw'⟩ := ho o (hli ▸ hol) hli.symm hh
    exact ⟨o', rfl, hh', hw.trans hw'⟩
  · exact ⟨o, hol, hh, hw⟩

theorem newLock {l' : ObjectId} (hk : k.Sound g) (h : k.Holds l holder ws)
    (hx : newLock k = .ok l' k') : k'.Holds l holder ws := by
  obtain ⟨rfl, rfl⟩ := newLock_eq_ok hx
  obtain ⟨o, ho, hrest⟩ := h
  have hle := hk.registered.lock l o ho
  refine ⟨o, ?_, hrest⟩
  rw [Std.ExtTreeMap.getElem?_insert, if_neg]
  · exact ho
  · rw [compare_eq_iff_eq]
    exact (Nat.lt_succ_of_le hle).ne'

theorem destroyLock {a : Except Refusal Unit} (h : k.Holds l holder ws)
    (hx : destroyLock i k = .ok a k') : k'.Holds l holder ws := by
  unfold Core.destroyLock at hx
  simp only [ask_bind_eq_ok, lock_eq_ok_iff] at hx
  obtain ⟨o, ho, hx⟩ := hx
  cases hoh : o.holder with
  | some v =>
    simp only [hoh, pure_eq_ok] at hx
    exact hx.2 ▸ h
  | none =>
    simp only [hoh, modify_bind_eq_ok, pure_eq_ok] at hx
    obtain ⟨-, rfl⟩ := hx
    obtain ⟨o', ho', hh, hw⟩ := h
    refine ⟨o', ?_, hh, hw⟩
    rw [Std.ExtTreeMap.getElem?_erase, if_neg]
    · exact ho'
    · rw [compare_eq_iff_eq]
      rintro rfl
      obtain rfl := Option.some.inj (ho.symm.trans ho')
      rw [hoh] at hh
      cases hh

theorem destroyCondition {a : Except Refusal Unit} (h : k.Holds l holder ws)
    (hx : destroyCondition c k = .ok a k') : k'.Holds l holder ws := by
  unfold Core.destroyCondition at hx
  simp only [ask_bind_eq_ok] at hx
  obtain ⟨o, -, hx⟩ := hx
  split at hx
  · simp only [modify_bind_eq_ok, pure_eq_ok] at hx
    obtain ⟨-, rfl⟩ := hx
    exact h
  · exact (pure_eq_ok.mp hx).2 ▸ h

theorem acquire (h : k.Holds l holder ws) (hx : acquire i k = .ok u k') : k'.Holds l holder ws := by
  obtain ⟨_, o, -, ho, ⟨hn, hs⟩ | ⟨-, hs⟩⟩ := acquire_sets hx
  · refine h.setsLock hs fun o' ho' _ hh => ?_
    obtain rfl := Option.some.inj (ho.symm.trans ho')
    rw [hn] at hh
    cases hh
  · refine h.setsLock hs fun o' ho' _ hh => ?_
    obtain rfl := Option.some.inj (ho.symm.trans ho')
    exact ⟨hh, List.prefix_append _ _⟩

theorem tryAcquire {a : Except WouldBlock Unit} (h : k.Holds l holder ws)
    (hx : tryAcquire i k = .ok a k') : k'.Holds l holder ws := by
  rcases tryAcquire_sets hx with hg | ⟨_, o, -, ho, hn, hs⟩
  · exact h.congr (gear_locks hg)
  · refine h.setsLock hs fun o' ho' _ hh => ?_
    obtain rfl := Option.some.inj (ho.symm.trans ho')
    rw [hn] at hh
    cases hh

theorem release (h : k.Holds l holder ws) (hne : i ≠ l) (hx : release i k = .ok u k') :
    k'.Holds l holder ws := by
  obtain ⟨_, o, r, -, -, -, hs⟩ := release_sets hx
  exact h.setsLock hs fun _ _ he => absurd he hne

theorem await (h : k.Holds l holder ws) (hne : i ≠ l) (hx : await c i k = .ok u k') :
    k'.Holds l holder ws := by
  obtain ⟨_, _, n, lk, r, -, -, -, hc, -, -, hs⟩ := await_sets hx
  exact (h.congr hc.locks).setsLock hs fun _ _ he => absurd he hne

theorem signalOne (h : k.Holds l holder ws) (hx : signalOne c i k = .ok r k') :
    k'.Holds l holder ws := by
  rcases signalOne_sets hx with ⟨-, rfl⟩ | ⟨v, o, n, lk, -, -, hc, hlk, hs⟩
  · exact h
  · refine (h.congr hc.locks).setsLock hs fun o' ho' _ hh => ?_
    obtain rfl := Option.some.inj (hlk.symm.trans ho')
    exact ⟨hh, List.prefix_append _ _⟩

theorem signalMany {n count : Nat} (h : k.Holds l holder ws)
    (hx : signalMany c i n k = .ok count k') : k'.Holds l holder ws := by
  induction n generalizing k count with
  | zero => exact (pure_eq_ok.mp hx).2 ▸ h
  | succ n ih =>
    unfold Core.signalMany at hx
    rw [bind_eq_ok] at hx
    obtain ⟨r, m, hm, hx⟩ := hx
    have hm' := h.signalOne hm
    cases r with
    | none => exact (pure_eq_ok.mp hx).2 ▸ hm'
    | some v =>
      simp only [bind_eq_ok, pure_eq_ok] at hx
      obtain ⟨_, m', hx, -, rfl⟩ := hx
      exact ih hm' hx

theorem signal {b : Bool} (h : k.Holds l holder ws) (hx : signal c i k = .ok b k') :
    k'.Holds l holder ws := by
  unfold Core.signal at hx
  simp only [bind_eq_ok, pure_eq_ok] at hx
  obtain ⟨_, _, hc, r, n, hn, -, rfl⟩ := hx
  obtain ⟨rfl, -⟩ := checkHeld_eq_ok hc
  obtain ⟨m, m', hq, hn, hq'⟩ := masked_eq_ok hn
  exact ((h.congr (gear_locks hq.gear)).signalOne hn).congr (gear_locks hq'.gear)

theorem broadcast {count : Nat} (h : k.Holds l holder ws) (hx : broadcast c i k = .ok count k') :
    k'.Holds l holder ws := by
  unfold Core.broadcast at hx
  rw [bind_eq_ok] at hx
  obtain ⟨_, _, hc, hx⟩ := hx
  obtain ⟨rfl, -⟩ := checkHeld_eq_ok hc
  obtain ⟨m, m', hq, hx, hq'⟩ := masked_eq_ok hx
  rw [ask_bind_eq_ok] at hx
  obtain ⟨o, -, hx⟩ := hx
  exact ((h.congr (gear_locks hq.gear)).signalMany hx).congr (gear_locks hq'.gear)

end Holds

/-! ## Waiters -/

/-- `t` is blocked and waits for lock `l`. -/
def BlockedAt (k : Core) (t : ThreadId) (l : ObjectId) : Prop :=
  ∃ th, k.threads[t]? = some th ∧ th.state = .blocked ∧ th.waitsFor = some l

/-- `t` holds lock `l`, waits for no lock, and is ready or runs. -/
def HoldsAwake (k : Core) (t : ThreadId) (l : ObjectId) : Prop :=
  ∃ o th, k.objects.locks[l]? = some o ∧ o.holder = some t ∧ k.threads[t]? = some th ∧
    (th.state = .ready ∨ th.state = .running) ∧ th.waitsFor = none

theorem Sound.blockedAt (hk : k.Sound g) (hg : g.state = .running) (ht : t ∈ k.waits.waiters l) :
    k.BlockedAt t l := by
  obtain ⟨th, hth, hs⟩ := hk.state_of_mem hg (p := .lock l) ht
  refine ⟨th, hth, hs, ?_⟩
  have hw := (hk.waits.wired.waitsFor_iff t l).mpr ht
  simpa [Core.waits, hth] using hw

theorem Awake.thread (h : k.Awake t) :
    ∃ th, k.threads[t]? = some th ∧ (th.state = .ready ∨ th.state = .running) ∧
      th.waitsFor = k.waits.waitsFor t := by
  rcases h with h | h
  · obtain ⟨th, hth, hs, hw, -⟩ := exists_thread h
    exact ⟨th, hth, .inl hs, hw⟩
  · obtain ⟨th, hth, hs, hw, -⟩ := exists_thread h
    exact ⟨th, hth, .inr hs, hw⟩

/-- After a hand-over a waiter waits on, or it is the new holder. -/
theorem HandsOver.waiter {o : Lock} (h : HandsOver k m l holder) (hr : Reschedules m k')
    (hk : k'.Sound g) (hg : g.state = .running) (ho : k.objects.locks[l]? = some o)
    (ht : t ∈ o.waiters) : k'.BlockedAt t l ∨ k'.HoldsAwake t l := by
  have hne : o.waiters.entries ≠ [] := List.ne_nil_of_mem ht
  obtain ⟨before, next, after, -, th', hsplit, -, -, hlock, hready, -, hth', -, hwf, -⟩ :=
    h.heir o ho hne
  by_cases htn : t = next
  · subst htn
    have hholder : k'.waits.holder l = some t := by
      rw [hr.waits, holder_lock hlock]
    obtain ⟨o', ho', hh'⟩ := Option.bind_eq_some_iff.mp hholder
    obtain ⟨th, hth, hs, hw⟩ := (hr.awake t (by simp [hready])).thread
    refine .inr ⟨o', th, ho', hh', hth, hs, ?_⟩
    rw [hw, hr.waits]
    simp [Core.waits, hth', hwf]
  · refine .inl (hk.blockedAt hg ?_)
    rw [hr.waits, waiters_lock hlock]
    rw [Queue.mem_def, hsplit, List.mem_append, List.mem_cons] at ht
    simpa [htn] using ht

end Core

namespace Session

open ThreadCore.Core (InOrder Holds HandsOver Reschedules)

variable {s s' : Session} {a : Answer} {c : Call} {d : Deed} {log : List Entry} {frames : List Bool}
  {t holder : ThreadId} {l : ObjectId} {ws : List ThreadId} {pristine : Bool}

/-- The lock that a call gives up. -/
def givesUp (s : Session) : Call → Option ObjectId
  | .release i => s.locks[i]?
  | .await i j => do
    let _ ← s.conditions[i]?
    s.locks[j]?
  | _ => none

/-- A call that only looks gives nothing up. -/
theorem Looks.givesUp_ne (h : s.Looks c a) : s.givesUp c ≠ some l := by
  cases h with
  | misused h =>
    cases c with
    | release i => simp [givesUp, show s.locks[i]? = none from h]
    | await i j =>
      rcases h with hi | hj
      · simp [givesUp, hi]
      · simp [givesUp, hj]
    | _ => exact nofun
  | _ => exact nofun

/-- **Locks stay with their holders.** A call that does not give up a lock leaves it with its
holder, and its waiters in the queue. -/
theorem execute_holds (hk : s.core.InOrder pristine) (hc : s.givesUp c ≠ some l)
    (hh : s.core.Holds l holder ws) (h : execute c s = .ok a s') : s'.core.Holds l holder ws := by
  by_cases hg : usesGear c = true
  swap
  · exact hh.congr (Core.gear_locks (execute_gear (Bool.not_eq_true _ ▸ hg) h))
  obtain hsame | ⟨α, e, r, hp, hx⟩ := execute_core h
  · exact hsame ▸ hh
  cases hp with
  | newLock => exact hh.newLock hk hx
  | newCondition => exact hh.congr (by rw [(Core.newCondition_eq_ok hx).2])
  | acquire _ => exact hh.acquire hx
  | tryAcquire _ => exact hh.tryAcquire hx
  | release hid =>
    refine hh.release (fun he => hc ?_) hx
    simp [givesUp, hid, he]
  | destroyLock _ => exact hh.destroyLock hx
  | await hcond hid =>
    refine hh.await (fun he => hc ?_) hx
    simp [givesUp, hcond, hid, he]
  | signal _ _ => exact hh.signal hx
  | broadcast _ _ => exact hh.broadcast hx
  | destroyCondition _ => exact hh.destroyCondition hx
  | ask ha => cases ha <;> cases hg
  | _ => cases hg

/-- The holder of lock `l` gives it up. -/
def GivesUp (s : Session) (d : Deed) (l : ObjectId) : Prop :=
  s.core.waits.holder l = some s.core.current ∧ ∃ c a, d = .call c a ∧ s.givesUp c = some l

/-- A call that gives up a lock is made by its holder, and it is a hand-over and what the scheduler
makes of it. -/
theorem execute_givesUp (hk : s.core.InOrder true) (hc : s.givesUp c = some l)
    (hidle : s.core.current = s.core.idle → ¬ s.Queues c) (he : execute c s = .ok a s') :
    s.core.waits.holder l = some s.core.current ∧
      ∃ m, HandsOver s.core m l s.core.current ∧ Reschedules m s'.core := by
  obtain ⟨hl, -⟩ | ⟨α, e, r, k, hp, hx, -, rfl⟩ := execute_ok he
  · exact absurd hc hl.givesUp_ne
  cases hp with
  | @release i id hid =>
    obtain rfl : id = l := Option.some.inj (hid.symm.trans hc)
    obtain ⟨th, o', r, hth, ho', hh', -⟩ := Core.release_sets hx
    have hcur : s.core.waits.holder id = some s.core.current := by
      rw [Core.holder_lock ho', hh', (hk.running_eq hth).1]
      rfl
    obtain ⟨m, hm, hover, heq, -⟩ := hk.release_eq rfl hth hcur
    exact ⟨hcur, m, hover, hm.preempt_reschedules rfl (heq.symm.trans hx)⟩
  | @await i j cond id hcond hid =>
    obtain rfl : id = l := by simpa [givesUp, hcond, hid] using hc
    obtain ⟨th, x, n, lk, r, hth, hx', hb, hsets, hlk, hh', -⟩ := Core.await_sets hx
    have hcur : s.core.waits.holder id = some s.core.current := by
      rw [hsets.locks] at hlk
      rw [Core.holder_lock hlk, hh', (hk.running_eq hth).1]
      rfl
    have hout : s.core.machine.inHandler = false := (Core.outsideHandler_bind_eq_ok.mp hx).1
    have hi : s.core.current ≠ s.core.idle := fun he => hidle he ⟨cond, id, hcond, hid⟩
    obtain ⟨m, was, hm, hover, heq, -⟩ := hk.await_eq rfl hth hout hi hcur hx' hb
    exact ⟨hcur, m, hover, hm.unmask_reschedules rfl (heq.symm.trans hx)⟩
  | ask ha => cases ha <;> cases hc
  | _ => cases hc

/-- In a transition of a disciplined run a waiter of a lock goes on waiting, or it gets the lock
from its holder. -/
theorem leads_waiter (hk : s.core.InOrder true) (hk' : s'.core.InOrder true) (h : Leads s d s')
    (hidle : ∀ c a, d = .call c a → s.core.current = s.core.idle → ¬ s.Queues c)
    (ht : t ∈ s.core.waits.waiters l) :
    s'.core.BlockedAt t l ∨ (s.GivesUp d l ∧ s'.core.HoldsAwake t l) := by
  obtain ⟨holder, hh⟩ := hk.waits.wired.held t l ht
  obtain ⟨o, ho, hoh⟩ := Option.bind_eq_some_iff.mp hh
  have hmem : t ∈ o.waiters := by rwa [Core.waiters_lock ho] at ht
  have hholds : s.core.Holds l holder o.waiters.entries := ⟨o, ho, hoh, List.prefix_rfl⟩
  have hstays : s'.core.Holds l holder o.waiters.entries → s'.core.BlockedAt t l := by
    rintro ⟨o', ho', -, hw⟩
    refine hk'.blockedAt rfl ?_
    rw [Core.waiters_lock ho']
    exact hw.subset hmem
  cases h with
  | enter he =>
    exact .inl (hstays (hholds.congr
      (Core.gear_locks (congrArg Estate.gear (enterHandler_estate he).1))))
  | leave he =>
    exact .inl (hstays (hholds.congr
      (Core.gear_locks (congrArg Estate.gear (leaveHandler_estate he).1))))
  | @call c a _ he =>
    by_cases hc : s.givesUp c = some l
    · obtain ⟨hcur, m, hover, hr⟩ := execute_givesUp hk hc (hidle c a rfl) he
      exact (hover.waiter hr hk' rfl ho hmem).imp_right fun hheld => ⟨⟨hcur, c, a, rfl, hc⟩, hheld⟩
    · exact .inl (hstays (execute_holds hk hc hholds he))

/-- In every transition of a disciplined run a waiter of a lock is blocked, and goes on waiting or
gets the lock from its holder. -/
theorem Logged.waiters (h : Logged (fun _ => Disciplined) log frames s) {e : Entry} (he : e ∈ log)
    {th : Thread} (hth : e.before.core.threads[t]? = some th) (hw : th.waitsFor = some l) :
    e.before.core.BlockedAt t l ∧
      (e.after.core.BlockedAt t l ∨ (e.before.GivesUp e.deed l ∧ e.after.core.HoldsAwake t l)) := by
  obtain ⟨later, earlier, rfl⟩ := List.append_of_mem he
  obtain ⟨_, _, hbefore, hd, hafter⟩ := h.of_append
  have hk := hbefore.disciplined
  have ht : t ∈ e.before.core.waits.waiters l :=
    (hk.waits.wired.waitsFor_iff t l).mp (by simp [Core.waits, hth, hw])
  refine ⟨hk.blockedAt rfl ht, leads_waiter hk hafter.disciplined hd ?_ ht⟩
  rintro c a hda
  cases hafter with
  | call _ hc _ =>
    cases hda
    exact hc.idle
  | enter _ _ => cases hda
  | leave _ _ => cases hda

theorem act_congr_of_eq {x y : CoreM Unit} {m : Core} (h : x s.core = y m) :
    act x s = act y { s with core := m } := by
  refine Core.bind_congr_of_eq ?_
  unfold onCore
  simp only [h]

/-- **Successions.** In every state of a disciplined run, a thread that releases a lock it holds
hands it over, and the rest is the scheduler's business, which does not fail and changes nothing in
who waits for whom and how urgently. The same goes for a thread that waits on a condition variable
with the lock. And in every transition of the run, whoever waits for a lock is blocked and goes on
waiting, or its holder has given the lock up and it is the new holder and awake. -/
theorem logged_successions (h : Logged (fun _ => Disciplined) log frames s) :
    (∀ i l o, s.locks[i]? = some l → s.core.objects.locks[l]? = some o →
      o.holder = some s.core.current →
      ∃ m, HandsOver s.core m l s.core.current ∧
        execute (.release i) s = act Core.preempt { s with core := m } ∧
        ∃ k', Core.preempt m = .ok () k' ∧ Reschedules m k') ∧
    (∀ i j c l x o, s.conditions[i]? = some c → s.locks[j]? = some l →
      s.core.objects.conditions[c]? = some x → s.core.objects.locks[l]? = some o →
      o.holder = some s.core.current → (∀ b, x.lock = some b → b = l) →
      s.core.machine.inHandler = false → s.core.current ≠ s.core.idle →
      ∃ m was, HandsOver s.core m l s.core.current ∧
        execute (.await i j) s = act (do
          Core.endTurn .blocked
          Core.onMachine (Machine.unmask was)) { s with core := m } ∧
        ∃ k', (do
          Core.endTurn .blocked
          Core.onMachine (Machine.unmask was) : CoreM Unit) m = .ok () k' ∧ Reschedules m k') ∧
    ∀ e ∈ log, ∀ t l th, e.before.core.threads[t]? = some th → th.waitsFor = some l →
      e.before.core.BlockedAt t l ∧
        (e.after.core.BlockedAt t l ∨
          (e.before.GivesUp e.deed l ∧ e.after.core.HoldsAwake t l)) := by
  have hk := h.disciplined
  have hreached : Reached Disciplined frames s := h.reached fun _ _ _ hc => hc
  have hf := hreached.fit
  obtain ⟨th, -, hr, -⟩ := hk.running_ok rfl
  refine ⟨?_, ?_, fun e he t l th => h.waiters he⟩
  · intro i l o hl ho hh
    obtain ⟨m, hm, hover, heq, hfit⟩ := hk.release_eq rfl hr ((Core.holder_lock ho).trans hh)
    obtain ⟨k', hx⟩ := hm.preempt_ok rfl rfl (hfit hf)
    refine ⟨m, hover, ?_, k', hx, hm.preempt_reschedules rfl hx⟩
    exact (resolve_of_some hl).trans (act_congr_of_eq heq)
  · intro i j c l x o hc hl hx ho hh hb hout hi
    obtain ⟨m, was, hm, hover, heq, hfit⟩ :=
      hk.await_eq rfl hr hout hi ((Core.holder_lock ho).trans hh) hx hb
    obtain ⟨n, hn⟩ := hm.endTurn_ok rfl (by simp) (hfit hf)
    obtain ⟨k', hu⟩ := Core.unmask_ok was n
    have hend : (do
        Core.endTurn .blocked
        Core.onMachine (Machine.unmask was) : CoreM Unit) m = .ok () k' :=
      bind_eq_ok.mpr ⟨(), n, hn, hu⟩
    refine ⟨m, was, hover, ?_, k', hend, hm.unmask_reschedules rfl hend⟩
    exact ((resolve_of_some hc).trans (resolve_of_some hl)).trans (act_congr_of_eq heq)

/-- Thread 1 holds two locks and releases the one that threads 3 and 5 wait for. The more urgent
thread 5 gets it, and thread 1 keeps the priority that thread 4 lends it through the other lock. -/
theorem logged_successions_of_two : ∃ log s m a s', Logged (fun _ => Disciplined) log [] s ∧
    [1, 3, 4, 5].map s.core.priorityOf = [40, 35, 38, 40] ∧ HandsOver s.core m 1 1 ∧
    execute (.release 0) s = .ok a s' ∧ Reschedules m s'.core ∧
    [1, 3, 4, 5].map s'.core.priorityOf = [38, 35, 38, 40] ∧ s.GivesUp (.call (.release 0) a) 1 ∧
    s.core.BlockedAt 3 1 ∧ s'.core.BlockedAt 3 1 ∧ s.core.BlockedAt 5 1 ∧
      s'.core.HoldsAwake 5 1 := by
  have hrun : (replayFrom (fun _ => isPlain) ⟨none, none, none, false, none⟩
      [.newLock, .newLock, .acquire 0, .acquire 1, .create "calm" 35, .acquire 0,
        .create "other" 38, .acquire 1, .create "urgent" 40, .acquire 0]).any (fun r =>
        decide (r.2.core.current = 1 ∧ r.2.core.current ≠ r.2.core.idle ∧ r.2.locks[0]? = some 1 ∧
          r.2.core.waits.holder 1 = some 1 ∧
          [1, 3, 4, 5].map r.2.core.priorityOf = [40, 35, 38, 40] ∧
          r.2.core.waits.waitsFor 3 = some 1 ∧ r.2.core.waits.waitsFor 5 = some 1) &&
        succeeds (fun _ s' => [1, 3, 4, 5].map s'.core.priorityOf = [38, 35, 38, 40] ∧
          s'.core.waits.holder 1 = some 5 ∧ s'.core.waits.waitsFor 3 = some 1 ∧
          s'.core.waits.waitsFor 5 = none) (execute (.release 0) r.2)) = true := by
    decide +kernel
  obtain ⟨⟨log, s⟩, hs, hrun⟩ := (Option.any_eq_true _ _).mp hrun
  obtain ⟨hbefore, hafter⟩ := Bool.and_eq_true_iff.mp hrun
  obtain ⟨hcurrent, hidle, hl, hh, hprio, hthree, hfive⟩ := of_decide_eq_true hbefore
  obtain ⟨a, s', he, hafter⟩ := exists_of_succeeds hafter
  obtain ⟨hprio', hh', hthree', hfive'⟩ := of_decide_eq_true hafter
  have hlog : Logged (fun _ => Disciplined) log [] s :=
    logged_replayFrom (fun _ _ _ hc => .plain (isPlain_iff.mp hc).1 (isPlain_iff.mp hc).2) hs
  obtain ⟨o, ho, hoh⟩ := Option.bind_eq_some_iff.mp hh
  obtain ⟨hrelease, -, -⟩ := logged_successions hlog
  obtain ⟨m, hover, heq, k, hx, hres⟩ :=
    hrelease 0 1 o hl ho (hoh.trans (congrArg some hcurrent.symm))
  rw [hcurrent] at hover
  obtain ⟨u, k', hx', hk⟩ := act_eq_ok (heq.symm.trans he)
  rw [hx] at hx'
  cases hx'
  -- The third part of the theorem, about the transition that the release is.
  have hlog' := hlog.call (c := .release 0) (.plain rfl hidle) he
  obtain ⟨-, -, hwait⟩ := logged_successions hlog'
  obtain ⟨th₃, hth₃, hw₃⟩ := Option.bind_eq_some_iff.mp hthree
  obtain ⟨th₅, hth₅, hw₅⟩ := Option.bind_eq_some_iff.mp hfive
  obtain ⟨hb₃, hnext₃⟩ := hwait _ List.mem_cons_self 3 1 th₃ hth₃ hw₃
  obtain ⟨hb₅, hnext₅⟩ := hwait _ List.mem_cons_self 5 1 th₅ hth₅ hw₅
  have hstays : s'.core.BlockedAt 3 1 := by
    refine hnext₃.resolve_right ?_
    rintro ⟨-, _, th, -, -, hth, -, hw⟩
    simp [Core.waits, hth, hw] at hthree'
  have hgets : s.GivesUp (.call (.release 0) a) 1 ∧ s'.core.HoldsAwake 5 1 := by
    refine hnext₅.resolve_left ?_
    rintro ⟨th, hth, -, hw⟩
    simp [Core.waits, hth, hw] at hfive'
  exact ⟨log, s, m, a, s', hlog, hprio, hover, he, hk ▸ hres, hprio', hgets.1, hb₃, hstays, hb₅,
    hgets.2⟩

end Session

end ThreadCore
