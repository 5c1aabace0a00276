import ThreadCore.Proofs.Turns

/-!
# Preemption

A thread that becomes ready may be more urgent than the thread at work. Between operations this does
not last: no ready thread is more urgent than the thread at work, and if the idle thread is at work,
none is ready (`Core.Orderly`). Only inside a handler it may be so, and then the handler's return
will change it (`Core.Settled`).

Steps that make a thread ready keep the rules (`Sound.unblock`), and `yieldNow` and `preempt`, which
follow them, restore the order (`Sound.yieldNow`, `Sound.preempt`).
-/

namespace ThreadCore.Core

variable {k k' : Core} {g : Stage} {t : ThreadId} {u : Unit}

/-! ## Order among the ready threads -/

/-- No ready thread should be at work in place of the current one. -/
def Orderly (k : Core) : Prop :=
  if k.current = k.idle then k.ready.entries = []
  else ∀ t ∈ k.ready.entries, k.priorityOf t ≤ k.priorityOf k.current

instance : Decidable k.Orderly :=
  inferInstanceAs (Decidable (if k.current = k.idle then k.ready.entries = []
    else ∀ t ∈ k.ready.entries, k.priorityOf t ≤ k.priorityOf k.current))

theorem Orderly.ready_eq_empty (h : k.Orderly) (hi : k.current = k.idle) : k.ready = .empty := by
  unfold Orderly at h
  rw [if_pos hi] at h
  exact congrArg Queue.mk h

theorem Orderly.priority_le (h : k.Orderly) (ht : t ∈ k.ready.entries) :
    k.priorityOf t ≤ k.priorityOf k.current := by
  unfold Orderly at h
  split at h
  · rw [h] at ht
    cases ht
  · exact h t ht

/-- No ready thread should be at work in place of the current one, or the return from the handler
will see to it. -/
def Settled (k : Core) : Prop :=
  k.Orderly ∨ (k.machine.inHandler = true ∧ (k.yieldPending = true ∨ k.current = k.idle))

theorem Settled.orderly (h : k.Settled) (hh : k.machine.inHandler = false) : k.Orderly := by
  rcases h with h | ⟨hin, -⟩
  · exact h
  · rw [hh] at hin
    cases hin

theorem Alike.priorityOf (h : Alike k k') (t : ThreadId) : k'.priorityOf t = k.priorityOf t := by
  rw [priorityOf_eq, priorityOf_eq, h.waits]

/-- The order stays if the ready queue does, and nobody but the current thread becomes more
urgent. -/
theorem Settled.of_ready (h : k.Settled) (hr : k'.ready.entries = k.ready.entries)
    (hc : k'.current = k.current) (hi : k'.idle = k.idle)
    (hp : ∀ t ∈ k.ready.entries, k.priorityOf t ≤ k.priorityOf k.current →
      k'.priorityOf t ≤ k'.priorityOf k.current)
    (hh : k'.machine.inHandler = k.machine.inHandler)
    (hy : k.yieldPending = true → k'.yieldPending = true) : k'.Settled := by
  rcases h with h | ⟨hin, h⟩
  · left
    unfold Orderly at h ⊢
    rw [hc, hi, hr]
    split
    · rwa [if_pos ‹_›] at h
    · rw [if_neg ‹_›] at h
      exact fun t ht => hp t ht (h t ht)
  · right
    rw [hc, hi, hh]
    exact ⟨hin, h.imp hy id⟩

theorem Settled.alike (h : k.Settled) (ha : Alike k k') : k'.Settled :=
  h.of_ready ha.ready ha.current ha.idle
    (fun t _ ht => by rwa [ha.priorityOf, ha.priorityOf]) ha.handler fun hy => ha.pending.trans hy

/-- The order holds when a turn begins. -/
theorem Passed.orderly (h : k.Passed k' t) (hi : k.idle ∉ k.ready.entries) : k'.Orderly := by
  unfold Orderly
  rw [h.current, h.idle, h.ready]
  split
  · rename_i he
    subst he
    rcases h.chooses.foremost with ⟨hnil, -⟩ | ⟨before, after, hsplit, -, -⟩
    · simp [hnil]
    · exact absurd (by simp [hsplit]) hi
  · intro s hs
    have hs' := List.mem_of_mem_erase hs
    rw [h.priority s (.inr hs'), h.priority t (.inl rfl)]
    exact h.chooses.priority_le hs'

/-! ## Becoming ready -/

theorem enqueueReady_eq_ok : enqueueReady t k = .ok u k' ↔
    t ∉ k.ready.entries ∧ k' = { k with ready := ⟨k.ready.entries ++ [t]⟩ } := by
  unfold enqueueReady
  simp only [ask_bind_eq_ok, modify_eq_ok, Queue.push_eq_ok_iff, Queue.mem_def]
  constructor
  · rintro ⟨q, ⟨ht, hq⟩, rfl⟩
    cases q
    subst hq
    exact ⟨ht, rfl⟩
  · rintro ⟨ht, rfl⟩
    exact ⟨_, ⟨ht, rfl⟩, rfl⟩

theorem unblock_eq_ok (h : unblock t k = .ok u k') :
    t ≠ k.idle ∧ ∃ m th, Quiet k m ∧ m.threads[t]? = some th ∧ th.state = .blocked ∧
      Quiet { (m.mapThread t fun th => { th with state := .ready }) with
        ready := ⟨m.ready.entries ++ [t]⟩ } k' := by
  unfold unblock at h
  rw [get_bind_eq_ok, demand_bind_eq_ok] at h
  obtain ⟨hi, h⟩ := h
  obtain ⟨m, m', hq, h, hq'⟩ := masked_eq_ok h
  simp only [ask_bind_eq_ok, thread_eq_ok_iff, demand_bind_eq_ok, changeThread_bind_eq_ok,
    enqueueReady_eq_ok] at h
  obtain ⟨th, hth, hs, -, -, rfl⟩ := h
  exact ⟨hi, m, th, hq, hth, hs, hq'⟩

theorem Sound.makeReady (hk : k.Sound g) {th : Thread} (hth : k.threads[t]? = some th)
    (hs : th.state = .blocked) (hi : t ≠ k.idle) (ht : k.seating.Stands t) :
    Core.Sound { (k.mapThread t fun th => { th with state := .ready }) with
      ready := ⟨k.ready.entries ++ [t]⟩ } g := by
  refine ⟨hk.current, hk.idle, hk.handler, ?_, ?_, ?_⟩
  · rw [seating_ready, seating_state hth]
    exact hk.seating.makeReady (by rw [state_eq hth, hs]) hi ht
  · have hw := waits_mapThread (k := k) (t := t) (f := fun th => { th with state := .ready })
      (fun _ => rfl) (fun _ => rfl) (fun _ => rfl) fun _ => rfl
    exact hw ▸ hk.waits
  · have hr := hk.registered.mapThread (t := t) (f := fun th => { th with state := .ready })
      (fun _ => rfl) (fun _ => rfl) fun _ => rfl
    exact hr.of_eq rfl rfl rfl

/-- A blocked thread that sits nowhere becomes ready. -/
theorem Sound.unblock (hk : k.Sound g) (ht : k.seating.Stands t) (h : unblock t k = .ok u k') :
    k'.Sound g := by
  obtain ⟨hi, m, th, hq, hth, hs, hq'⟩ := unblock_eq_ok h
  refine Sound.quiet ((hk.quiet hq).makeReady hth hs ?_ ?_) hq'
  · rwa [hq.idle]
  · rwa [hq.seating]

/-! ## Yielding -/

/-- The current thread is about to be blocked or to die. -/
theorem Sound.stand (hk : k.Sound g) (hg : g.state = .running) (σ : ThreadState)
    (hσ : σ ≠ .ready) : k.Sound { g with state := σ } :=
  ⟨hk.current, hk.idle, hk.handler, (hg ▸ hk.seating).stand hσ, hk.waits, hk.registered⟩

/-- The current thread is about to be ready, at the end of the queue. -/
theorem Sound.lineUp (hk : k.Sound g) (hg : g.state = .running) (hi : k.current ≠ k.idle) :
    ({ k with ready := ⟨k.ready.entries ++ [k.current]⟩ } : Core).Sound
    { g with state := .ready } := by
  refine ⟨hk.current, hk.idle, hk.handler, ?_, hk.waits, hk.registered.of_eq rfl rfl rfl⟩
  rw [seating_ready]
  exact (hg ▸ hk.seating).lineUp hi

/-- After a yield the thread at work is as urgent as any that was ready, the one that yielded among
them. -/
theorem Sound.yieldNow (hk : k.Sound g) (hg : g.state = .running) (h : yieldNow k = .ok u k') :
    g.handler = false ∧ ∃ t, k'.Sound { g with current := t } ∧ k'.Orderly ∧
      (k.current ≠ k.idle → ∀ s, s = k.current ∨ s ∈ k.ready.entries →
        k'.priorityOf s = k.priorityOf s ∧ k.priorityOf s ≤ k'.priorityOf t) := by
  unfold Core.yieldNow at h
  simp only [outsideHandler_bind_eq_ok, ask_bind_eq_ok] at h
  obtain ⟨hh, th, hr, h⟩ := h
  refine ⟨hk.handler ▸ hh, ?_⟩
  obtain ⟨hid, -⟩ := hk.running_eq hr
  obtain ⟨m, m', hq, h, hq'⟩ := masked_eq_ok h
  have hm := hk.quiet hq
  have hidle : m.idle ∉ m.ready.entries := hm.seating.idle_stands .ready
  rw [get_bind_eq_ok, hid, ← hm.current] at h
  split at h
  · rename_i hi
    have hσ := hm.stand hg .blocked (by decide)
    obtain ⟨t, hp, hs⟩ := hσ.endTurn (by simp) (by simp) h
    refine ⟨t, ?_, ?_, ?_⟩
    · have := hs.quiet hq'
      rwa [← hg] at this
    · exact (Settled.alike (.inl (hp.orderly hidle)) hq'.alike).orderly
        (by rw [hq'.handler, hp.handler, hq.handler, hh])
    · intro hne
      rw [hq.current, hq.idle] at hi
      exact absurd hi hne
  · rename_i hi
    rw [bind_eq_ok] at h
    obtain ⟨_, n, hn, h⟩ := h
    obtain ⟨-, rfl⟩ := enqueueReady_eq_ok.mp hn
    obtain ⟨t, hp, hs⟩ := (hm.lineUp hg hi).endTurn (by simp) (by simp) h
    refine ⟨t, ?_, ?_, ?_⟩
    · have := hs.quiet hq'
      rwa [← hg] at this
    · refine (Settled.alike (.inl (hp.orderly ?_)) hq'.alike).orderly ?_
      · simpa using ⟨hidle, fun e => hi e.symm⟩
      · rw [hq'.handler, hp.handler]
        exact hq.handler.trans hh
    · intro _ s hs'
      have hmem : s ∈ m.ready.entries ++ [m.current] := by
        rw [hq.ready, hq.current, List.mem_append, List.mem_singleton]
        exact hs'.symm
      have hps : k'.priorityOf s = m.priorityOf s :=
        (hq'.alike.priorityOf s).trans (hp.priority s (.inr hmem))
      refine ⟨hps.trans (hq.alike.priorityOf s), ?_⟩
      have hpt : k'.priorityOf t = m.priorityOf t :=
        (hq'.alike.priorityOf t).trans (hp.priority t (.inl rfl))
      rw [hpt, ← hq.alike.priorityOf s]
      exact hp.chooses.priority_le hmem

/-! ## Giving way -/

theorem outranked_eq_ok {b : Bool} (h : k.outranked = .ok b) :
    (b = false → k.Orderly) ∧
      (b = true → k.current ≠ k.idle →
        ∃ s ∈ k.ready.entries, k.priorityOf k.current < k.priorityOf s) := by
  unfold outranked at h
  simp only [except_bind_ok, mostUrgent_eq_ok] at h
  obtain ⟨o, ⟨-, ho⟩, h⟩ := h
  cases o with
  | none =>
    have he : k.ready.entries = [] := Queue.foremostOf_eq_none_iff.mp ho
    simp only [except_pure_ok] at h
    subst h
    refine ⟨fun _ => ?_, by simp⟩
    unfold Orderly
    split <;> simp [he]
  | some best =>
    have hch : k.Chooses best := .inl ho
    have hmem : best ∈ k.ready.entries := Queue.mem_of_foremostOf ho
    simp only at h
    split at h
    · rename_i hi
      simp only [except_pure_ok] at h
      subst h
      exact ⟨by simp, fun _ hne => absurd hi hne⟩
    · rename_i hi
      split at h
      · cases h
      · simp only [except_pure_ok] at h
        subst h
        constructor
        · intro hb
          have hle : k.priorityOf best ≤ k.priorityOf k.current := by
            simpa [outranks] using hb
          unfold Orderly
          rw [if_neg hi]
          exact fun s hs => (hch.priority_le hs).trans hle
        · intro hb _
          exact ⟨best, hmem, by simpa [outranks] using hb⟩

/-- **Giving way.** After `preempt` the order is settled. Outside a handler, a thread other than the
idle one loses the processor only to a thread that is more urgent. -/
theorem Sound.preempt (hk : k.Sound g) (hg : g.state = .running) (h : preempt k = .ok u k') :
    ∃ t, k'.Sound { g with current := t } ∧ k'.Settled ∧
      (k.current ≠ k.idle → t = k.current ∨ k'.priorityOf k.current < k'.priorityOf t) := by
  unfold Core.preempt at h
  simp only [ask_bind_eq_ok] at h
  obtain ⟨b, hb, h⟩ := h
  have hstay : k.Sound { g with current := k.current } := by
    rw [hk.current]
    exact hk
  split at h
  · rename_i hb'
    subst hb'
    rw [get_bind_eq_ok] at h
    split at h
    · rename_i hin
      rw [modify_eq_ok] at h
      subst h
      refine ⟨k.current, ?_, .inr ⟨hin, .inl rfl⟩, fun _ => .inl rfl⟩
      exact ⟨hstay.current, hstay.idle, hstay.handler, hstay.seating, hstay.waits,
        hstay.registered.of_eq rfl rfl rfl⟩
    · obtain ⟨-, t, hs, ho, hp⟩ := hk.yieldNow hg h
      refine ⟨t, hs, .inl ho, fun hne => .inr ?_⟩
      obtain ⟨s, hs', hlt⟩ := (outranked_eq_ok hb).2 rfl hne
      rw [(hp hne _ (.inl rfl)).1]
      exact hlt.trans_le (hp hne s (.inr hs')).2
  · rename_i hb'
    obtain ⟨-, rfl⟩ := pure_eq_ok.mp h
    exact ⟨_, hstay, .inl ((outranked_eq_ok hb).1 (by simpa using hb')), fun _ => .inl rfl⟩

/-! ## Operations -/

/-- What an operation that began at stage `g` keeps. -/
structure Serves (g : Stage) (k k' : Core) : Prop where
  sound : k'.Sound { g with current := k'.current }
  settled : k.Settled → k'.Settled

/-- The thread at work, unless it is the idle one, loses the processor only to a more urgent one. -/
def GivesWay (k k' : Core) : Prop :=
  k.current ≠ k.idle →
    k'.current = k.current ∨ k'.priorityOf k.current < k'.priorityOf k'.current

theorem Sound.at_current (hk : k.Sound g) : k.Sound { g with current := k.current } := by
  rw [hk.current]
  exact hk

theorem Sound.serves_alike (hk : k.Sound g) (ha : Alike k k') : Serves g k k' :=
  ⟨(hk.alike ha).at_current, fun hs => hs.alike ha⟩

theorem Alike.givesWay (ha : Alike k k') : GivesWay k k' := fun _ => .inl ha.current

theorem Sound.serves_preempt {m : Core} (hk : k.Sound g) (hm : m.Sound g) (hg : g.state = .running)
    (h : Core.preempt m = .ok u k') : Serves g k k' ∧ GivesWay k k' := by
  obtain ⟨t, hs, hset, hway⟩ := hm.preempt hg h
  obtain rfl : k'.current = t := hs.current
  refine ⟨⟨hs, fun _ => hset⟩, ?_⟩
  intro hne
  rw [hm.current, hm.idle, ← hk.current, ← hk.idle] at hway
  exact hway hne

/-- The thread at work has found a seat, and its turn ends. -/
theorem Sound.serves_endTurn {m : Core} {σ : ThreadState} (hm : m.Sound { g with state := σ })
    (hg : g.state = .running) (hσ : σ ≠ .running) (hl : σ = .dying → m.Leaving)
    (h : Core.endTurn σ m = .ok u k') (k : Core) : Serves g k k' := by
  obtain ⟨t, hp, hs⟩ := hm.endTurn hσ hl h
  obtain rfl : k'.current = t := hs.current
  refine ⟨?_, fun _ => .inl (hp.orderly (hm.seating.idle_stands .ready))⟩
  rw [← hg] at hs
  exact hs

theorem Serves.quiet_right {k₁ k₂ : Core} (h : Serves g k k₁) (hq : Quiet k₁ k₂) :
    Serves g k k₂ := by
  refine ⟨?_, fun hs => (h.settled hs).alike hq.alike⟩
  rw [hq.current]
  exact h.sound.quiet hq

theorem Serves.quiet_left {k₀ : Core} (h : Serves g k k') (hq : Quiet k₀ k) : Serves g k₀ k' :=
  ⟨h.sound, fun hs => h.settled (hs.alike hq.alike)⟩

end ThreadCore.Core
