import ThreadCore.Proofs.Runs

/-!
# Consistent states

In every state of a disciplined run the audit passes, nobody is in two queues, every number that is
kept somewhere is that of a live thread, and what the core keeps twice it keeps the same: a thread
and a lock agree on who waits, and a thread and the sleep list on who sleeps (`reached_consistent`).
-/

namespace ThreadCore

namespace Core

variable {k : Core} {g : Stage} {t : ThreadId}

/-- The state of the core is consistent. -/
structure Consistent (k : Core) : Prop where
  audit : k.validate = .ok ()
  /-- Nobody is twice in the ready queue, the sleep list and the queues of all objects together. -/
  queues_nodup : (k.queues.flatMap fun e => e.2.entries).Nodup
  current_live : k.current ∈ k.threads
  idle_live : k.idle ∈ k.threads
  queued_live : ∀ e ∈ k.queues, ∀ t ∈ e.2, t ∈ k.threads
  holder_live : ∀ (l : ObjectId) (o : Lock) t, k.objects.locks[l]? = some o → o.holder = some t →
    t ∈ k.threads
  donor_live : ∀ (t : ThreadId) (th : Thread), k.threads[t]? = some th → ∀ d ∈ th.donors,
    d ∈ k.threads
  parent_live : ∀ (t : ThreadId) (th : Thread) p, k.threads[t]? = some th →
    th.family.parent = some p → p ∈ k.threads
  waitsFor_iff : ∀ (t : ThreadId) (th : Thread) (l : ObjectId), k.threads[t]? = some th →
    (th.waitsFor = some l ↔ ∃ o : Lock, k.objects.locks[l]? = some o ∧ t ∈ o.waiters)
  free_empty : ∀ (l : ObjectId) (o : Lock), k.objects.locks[l]? = some o → o.holder = none →
    o.waiters = .empty
  wakeAt_iff : ∀ (t : ThreadId) (th : Thread), k.threads[t]? = some th →
    (th.wakeAt.isSome ↔ t ∈ k.sleepers)

theorem mem_threads (h : ∃ th, k.threads[t]? = some th) : t ∈ k.threads := by
  obtain ⟨th, hth⟩ := h
  rw [Std.ExtTreeMap.mem_iff_isSome_getElem?, hth]
  rfl

/-- Whoever is in a queue that the audit looks at sits there. -/
theorem exists_seat {e : Place × Queue} (he : e ∈ k.queues) :
    ∃ p, k.seating.queue p = e.2.entries := by
  have hmem := List.mem_map_of_mem (f := fun e : Place × Queue => e.2.entries) he
  rw [queues_eq] at hmem
  obtain ⟨p, -, hp⟩ := List.mem_map.mp hmem
  exact ⟨p, hp⟩

theorem Sound.waitsFor_iff (hk : k.Sound g) {th : Thread} (hth : k.threads[t]? = some th)
    (l : ObjectId) :
    th.waitsFor = some l ↔ ∃ o : Lock, k.objects.locks[l]? = some o ∧ t ∈ o.waiters := by
  have hw : k.waits.waitsFor t = th.waitsFor := by simp [Core.waits, hth]
  rw [← hw, hk.waits.wired.waitsFor_iff]
  constructor
  · intro ht
    cases ho : k.objects.locks[l]? with
    | none => simp [Core.waits, ho] at ht
    | some o =>
      rw [waiters_lock ho] at ht
      exact ⟨o, rfl, ht⟩
  · rintro ⟨o, ho, ht⟩
    rw [waiters_lock ho]
    exact ht

theorem Sound.free_empty (hk : k.Sound g) {l : ObjectId} {o : Lock}
    (ho : k.objects.locks[l]? = some o) (hh : o.holder = none) : o.waiters = .empty := by
  have hnil : o.waiters.entries = [] := by
    refine List.eq_nil_iff_forall_not_mem.mpr fun t ht => ?_
    rw [← waiters_lock ho] at ht
    obtain ⟨h, hh'⟩ := hk.waits.wired.held t l ht
    rw [holder_lock ho, hh] at hh'
    cases hh'
  cases hw : o.waiters
  rw [hw] at hnil
  exact congrArg Queue.mk hnil

/-- A state that obeys the rules is consistent, if no canary was overwritten. -/
theorem InOrder.consistent (hk : k.InOrder true) : k.Consistent where
  audit := hk.validate rfl rfl
  queues_nodup := hk.nodup_queues
  current_live := mem_threads hk.live_current
  idle_live := by
    obtain ⟨x, hx⟩ := hk.seating.idle_live
    obtain ⟨th, hth, -⟩ := live_of_state hx
    exact mem_threads ⟨th, hth⟩
  queued_live e he t ht := by
    obtain ⟨p, hp⟩ := exists_seat he
    exact mem_threads (hk.live_of_mem (p := p) (hp ▸ ht))
  holder_live l o t ho ht := by
    refine mem_threads (hk.registered.holder l t ?_)
    rw [holder_lock ho, ht]
  donor_live t th hth d hd := by
    have hd' : d ∈ k.waits.donors t := by simpa [waits, hth] using Queue.mem_def.mp hd
    obtain ⟨l, hl, -⟩ := Waits.awaits_iff.mp ((hk.waits.wired.mem_donors t d).mp hd')
    exact mem_threads (hk.live_of_mem (p := .lock l) ((hk.waits.wired.waitsFor_iff d l).mp hl))
  parent_live t th p hth hp := by
    obtain ⟨r, hr, -⟩ :=
      hk.registered.parent t p (by rw [parentOf, hth]; exact hp) (by simp [stage])
    obtain ⟨pth, hpth, -⟩ := Option.bind_eq_some_iff.mp hr
    exact mem_threads ⟨pth, hpth⟩
  waitsFor_iff t th l hth := hk.waitsFor_iff hth l
  free_empty l o ho hh := hk.free_empty ho hh
  wakeAt_iff t th hth := by
    have h := hk.seating.wakeAt_iff t
    rw [show k.seating.wakeAt t = th.wakeAt by simp [seating, hth]] at h
    exact h

end Core

namespace Session

/-- **Consistency.** Every state of a disciplined run is consistent, inside handlers too. -/
theorem reached_consistent {frames : List Bool} {s : Session} (h : Reached Disciplined frames s) :
    s.core.Consistent :=
  h.inOrder.consistent

/-- One thread waits for a lock and another one sleeps. -/
theorem reached_consistent_waiting : ∃ s, Reached Disciplined [] s ∧
    s.core.sleepers.entries = [4] ∧
      (s.core.objects.locks[(1 : ObjectId)]?).any (fun o => o.waiters.entries = [3]) = true ∧
      s.core.Consistent := by
  have hrun : (afterBoot ⟨none, none, none, false, none⟩
      [.newLock, .acquire 0, .create "waits" 40, .acquire 0, .create "sleeps" 50,
        .sleepUntil 9]).any (fun s => s.core.sleepers.entries = [4] ∧
          (s.core.objects.locks[(1 : ObjectId)]?).any (fun o => o.waiters.entries = [3])) =
          true := by
    decide +kernel
  obtain ⟨s, hs, hrun⟩ := (Option.any_eq_true _ _).mp hrun
  obtain ⟨hsleep, hwait⟩ := of_decide_eq_true hrun
  have hreach := reached_afterBoot (fun _ _ => Disciplined.plain) hs
  exact ⟨s, hreach, hsleep, hwait, reached_consistent hreach⟩

end Session

end ThreadCore
