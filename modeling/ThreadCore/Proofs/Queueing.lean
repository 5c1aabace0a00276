import ThreadCore.Proofs.Preemption

/-!
# Semaphores and sleep

Operations that put the thread at work into a queue, or take others out of one and make them ready.
Each keeps the rules and the order (`Serves`). Those that wake others give way to them only if they
are more urgent (`GivesWay`). The idle thread may use a semaphore only while there are units.
-/

namespace ThreadCore.Core

variable {k k' : Core} {g : Stage} {t : ThreadId} {s c : ObjectId} {u : Unit}

/-! ## Joining a queue and leaving it -/

section Semaphore

variable {o : Semaphore} {f : Semaphore → Semaphore}

theorem Sound.joinSemaphore (hk : k.Sound g) (ho : k.objects.semaphores[s]? = some o)
    (hf : (f o).waiters.entries = o.waiters.entries ++ [t])
    (hb : k.seating.about g.state t = some .blocked) (hi : t ≠ k.idle)
    (ht : k.seating.Stands t) : (k.mapSemaphore s f).Sound g := by
  refine ⟨hk.current, hk.idle, hk.handler, ?_, hk.waits, hk.registered.mapSemaphore ho⟩
  rw [seating_mapSemaphore ho, hf, ← queue_semaphore ho]
  exact hk.seating.sit hb hi ht (by simp) (by simp)

theorem Sound.leaveSemaphore (hk : k.Sound g) (ho : k.objects.semaphores[s]? = some o)
    (hf : (f o).waiters.entries = o.waiters.entries.erase t) : (k.mapSemaphore s f).Sound g := by
  refine ⟨hk.current, hk.idle, hk.handler, ?_, hk.waits, hk.registered.mapSemaphore ho⟩
  rw [seating_mapSemaphore ho, hf, ← queue_semaphore ho]
  exact hk.seating.leave (by simp) (by simp) t

theorem Sound.stands_leaveSemaphore (hk : k.Sound g) (ho : k.objects.semaphores[s]? = some o)
    (hf : (f o).waiters.entries = o.waiters.entries.erase t) (ht : t ∈ o.waiters.entries) :
    (k.mapSemaphore s f).seating.Stands t := by
  rw [seating_mapSemaphore ho, hf, ← queue_semaphore ho]
  exact hk.seating.stands_of_leave ((queue_semaphore ho).symm ▸ ht)

end Semaphore

section Condition

variable {o : Condition} {f : Condition → Condition}

theorem Sound.joinCondition (hk : k.Sound g) (ho : k.objects.conditions[c]? = some o)
    (hf : (f o).waiters.entries = o.waiters.entries ++ [t])
    (hb : k.seating.about g.state t = some .blocked) (hi : t ≠ k.idle)
    (ht : k.seating.Stands t) : (k.mapCondition c f).Sound g := by
  refine ⟨hk.current, hk.idle, hk.handler, ?_, hk.waits, hk.registered.mapCondition ho⟩
  rw [seating_mapCondition ho, hf, ← queue_condition ho]
  exact hk.seating.sit hb hi ht (by simp) (by simp)

theorem Sound.leaveCondition (hk : k.Sound g) (ho : k.objects.conditions[c]? = some o)
    (hf : (f o).waiters.entries = o.waiters.entries.erase t) : (k.mapCondition c f).Sound g := by
  refine ⟨hk.current, hk.idle, hk.handler, ?_, hk.waits, hk.registered.mapCondition ho⟩
  rw [seating_mapCondition ho, hf, ← queue_condition ho]
  exact hk.seating.leave (by simp) (by simp) t

theorem Sound.stands_leaveCondition (hk : k.Sound g) (ho : k.objects.conditions[c]? = some o)
    (hf : (f o).waiters.entries = o.waiters.entries.erase t) (ht : t ∈ o.waiters.entries) :
    (k.mapCondition c f).seating.Stands t := by
  rw [seating_mapCondition ho, hf, ← queue_condition ho]
  exact hk.seating.stands_of_leave ((queue_condition ho).symm ▸ ht)

end Condition

/-! ## Blocking -/

theorem Sound.block (hk : k.Sound g) (hg : g.state = .running) (h : block k = .ok u k') :
    Serves g k k' := by
  unfold Core.block at h
  simp only [outsideHandler_bind_eq_ok, get_bind_eq_ok, demand_bind_eq_ok] at h
  obtain ⟨-, -, h⟩ := h
  exact (hk.stand hg _ (by decide)).serves_endTurn hg (by decide) (by simp) h k

/-! ## Semaphores -/

theorem about_current (k : Core) (σ : ThreadState) : k.seating.about σ k.current = some σ :=
  Seating.about_current k.seating σ

theorem Sound.down (hk : k.Sound g) (hg : g.state = .running)
    (hi : k.current = k.idle → ∀ o, k.objects.semaphores[s]? = some o → o.value ≠ 0)
    (h : down s k = .ok u k') : Serves g k k' := by
  unfold Core.down at h
  simp only [ask_bind_eq_ok] at h
  obtain ⟨th, hr, h⟩ := h
  obtain ⟨hid, -⟩ := hk.running_eq hr
  obtain ⟨m, m', hq, h, hq'⟩ := masked_eq_ok h
  have hm := hk.quiet hq
  refine Serves.quiet_left (Serves.quiet_right ?_ hq') hq
  simp only [ask_bind_eq_ok, semaphore_eq_ok_iff] at h
  obtain ⟨o, ho, h⟩ := h
  split at h
  · obtain ⟨-, rfl⟩ := changeSemaphore_eq_ok.mp h
    exact hm.serves_alike (alike_mapSemaphore ho rfl)
  · rename_i hv
    simp only [outsideHandler_bind_eq_ok, ask_bind_eq_ok, changeSemaphore_bind_eq_ok,
      Queue.push_eq_ok_iff] at h
    obtain ⟨-, w, ⟨-, hw⟩, -, h⟩ := h
    simp only [bind_eq_ok] at h
    obtain ⟨_, n, hn, h⟩ := h
    have hne : m.current ≠ m.idle := by
      intro he
      rw [hq.current, hq.idle] at he
      exact hi he o (by rwa [← hq.objects]) (by omega)
    have hσ := hm.stand hg .blocked (by decide)
    have hcur : th.id = m.current := hid.trans hm.current.symm
    rw [hcur] at hw
    have hj :=
      hσ.joinSemaphore (f := fun sema => { sema with waiters := w }) ho hw (about_current m _)
      hne (hm.seating.current_stands fun p => hg ▸ p.state_ne_running)
    exact (hj.quiet (quiet_say hn)).serves_endTurn hg (by decide) (by simp) h m

theorem alike_tryDown {a : Except WouldBlock Unit}
    (h : tryDown s k = .ok a k') : Alike k k' := by
  unfold Core.tryDown at h
  obtain ⟨m, m', hq, h, hq'⟩ := masked_eq_ok h
  refine (hq.alike.trans ?_).trans hq'.alike
  simp only [ask_bind_eq_ok, semaphore_eq_ok_iff] at h
  obtain ⟨o, ho, h⟩ := h
  split at h
  · simp only [changeSemaphore_bind_eq_ok, pure_eq_ok] at h
    obtain ⟨-, -, rfl⟩ := h
    exact alike_mapSemaphore ho rfl
  · exact (pure_eq_ok.mp h).2 ▸ .refl m

/-- A unit goes to a waiter, who is ready then, or to the count, which has no consequences. -/
theorem Sound.wakeOne (hk : k.Sound g) {r : Option ThreadId} (h : wakeOne s k = .ok r k') :
    k'.Sound g ∧ (r = none → Alike k k') := by
  unfold Core.wakeOne at h
  simp only [ask_bind_eq_ok, semaphore_eq_ok_iff, mostUrgent_eq_ok] at h
  obtain ⟨o, ho, next, ⟨-, hnext⟩, h⟩ := h
  cases next with
  | some t =>
    have hmem : t ∈ o.waiters.entries := Queue.mem_of_foremostOf hnext
    simp only [changeSemaphore_bind_eq_ok] at h
    simp only [bind_eq_ok, pure_eq_ok] at h
    obtain ⟨-, _, m, hm, rfl, rfl⟩ := h
    refine ⟨?_, by simp⟩
    have hf : (Queue.remove o.waiters t).entries = o.waiters.entries.erase t := rfl
    exact (hk.leaveSemaphore ho hf).unblock (hk.stands_leaveSemaphore ho hf hmem) hm
  | none =>
    simp only [bind_eq_ok, increment_eq_ok, changeSemaphore_eq_ok, pure_eq_ok] at h
    obtain ⟨_, m, ⟨-, rfl, rfl⟩, _, _, ⟨-, rfl⟩, rfl, rfl⟩ := h
    have ha : Alike k (k.mapSemaphore s fun sema => { sema with value := o.value + 1 }) :=
      alike_mapSemaphore ho rfl
    exact ⟨hk.alike ha, fun _ => ha⟩

theorem Sound.up (hk : k.Sound g) (hg : g.state = .running) (h : up s k = .ok u k') :
    Serves g k k' ∧ GivesWay k k' := by
  unfold Core.up at h
  rw [bind_eq_ok] at h
  obtain ⟨woken, n, hn, h⟩ := h
  obtain ⟨m, m', hq, hw, hq'⟩ := masked_eq_ok hn
  obtain ⟨hs, ha⟩ := (hk.quiet hq).wakeOne hw
  split at h
  · exact hk.serves_preempt (hs.quiet hq') hg h
  · rename_i hnone
    obtain ⟨-, rfl⟩ := pure_eq_ok.mp h
    have hnone' : woken = none := by simpa using hnone
    have halike := (hq.alike.trans (ha hnone')).trans hq'.alike
    exact ⟨hk.serves_alike halike, halike.givesWay⟩

/-! ## Sleep -/

theorem Sound.sleepUntil (hk : k.Sound g) (hg : g.state = .running) {tick : Nat}
    (h : sleepUntil tick k = .ok u k') : Serves g k k' := by
  unfold Core.sleepUntil at h
  simp only [outsideHandler_bind_eq_ok, ask_bind_eq_ok, get_bind_eq_ok] at h
  obtain ⟨-, th, hr, h⟩ := h
  obtain ⟨hid, hth⟩ := hk.running_eq hr
  split at h
  · exact (pure_eq_ok.mp h).2 ▸ hk.serves_alike (.refl k)
  · rename_i hne
    obtain ⟨m, m', hq, h, hq'⟩ := masked_eq_ok h
    have hm := hk.quiet hq
    refine Serves.quiet_left (Serves.quiet_right ?_ hq') hq
    rw [hid, ← hm.current] at h
    simp only [changeThread_bind_eq_ok, ask_bind_eq_ok, modify_bind_eq_ok,
      Queue.push_eq_ok_iff] at h
    obtain ⟨⟨mth, hmth⟩, q, ⟨-, hentries⟩, h⟩ := h
    simp only [bind_eq_ok] at h
    obtain ⟨_, n, hn, h⟩ := h
    have hi : m.current ≠ m.idle := by
      rw [hm.current, ← hid, hq.idle]
      exact fun e => hne (.inl e)
    refine Sound.serves_endTurn (m := n) ?_ hg (by decide) (by simp) h m
    refine Sound.quiet ?_ (quiet_say hn)
    refine ⟨hm.current, hm.idle, hm.handler, ?_, ?_, ?_⟩
    · rw [seating_sleepers, seating_wakeAt hmth, hentries]
      exact (hg ▸ hm.seating).goToSleep hi tick
    · have hw := waits_mapThread (k := m) (t := m.current)
        (f := fun th => { th with wakeAt := some tick })
        (fun _ => rfl) (fun _ => rfl) (fun _ => rfl) fun _ => rfl
      exact hw ▸ hm.waits
    · have hreg := hm.registered.mapThread (t := m.current)
        (f := fun th => { th with wakeAt := some tick }) (fun _ => rfl) (fun _ => rfl) fun _ => rfl
      exact hreg.of_eq rfl rfl rfl

theorem Sound.sleepFor (hk : k.Sound g) (hg : g.state = .running) {ticks : Nat}
    (h : sleepFor ticks k = .ok u k') : Serves g k k' := by
  rw [Core.sleepFor, get_bind_eq_ok] at h
  exact hk.sleepUntil hg h

/-- A sleeper leaves the list, and its tick is forgotten. -/
theorem Sound.wake (hk : k.Sound g) {th : Thread} (hth : k.threads[t]? = some th) :
    Core.Sound (({ k with sleepers := k.sleepers.remove t } : Core).mapThread t
      fun th => { th with wakeAt := none }) g := by
  refine ⟨hk.current, hk.idle, hk.handler, ?_, ?_, ?_⟩
  · rw [seating_wakeAt (k := { k with sleepers := k.sleepers.remove t }) hth, seating_sleepers]
    exact hk.seating.wake t
  · have hw := waits_mapThread (k := { k with sleepers := k.sleepers.remove t }) (t := t)
      (f := fun th => { th with wakeAt := none })
      (fun _ => rfl) (fun _ => rfl) (fun _ => rfl) fun _ => rfl
    exact hw ▸ hk.waits
  · refine Registered.mapThread ?_ (fun _ => rfl) (fun _ => rfl) fun _ => rfl
    exact hk.registered.of_eq rfl rfl rfl

theorem Sound.wakeDue {now n : Nat} (hk : k.Sound g) {r : Nat} (h : wakeDue now n k = .ok r k') :
    k'.Sound g ∧ (r = 0 → Alike k k') := by
  induction n generalizing k r with
  | zero =>
    obtain ⟨-, rfl⟩ := pure_eq_ok.mp h
    exact ⟨hk, fun _ => .refl k⟩
  | succ n ih =>
    unfold Core.wakeDue earliestSleeper checkLive at h
    simp only [ask_bind_eq_ok, except_bind_ok, demand_ok, except_pure_ok] at h
    obtain ⟨next, ⟨_, -, hnext⟩, h⟩ := h
    cases next with
    | none =>
      simp only [pure_eq_ok] at h
      obtain ⟨-, rfl⟩ := h
      exact ⟨hk, fun _ => .refl k⟩
    | some t =>
      have hmem : t ∈ k.sleepers.entries := Queue.mem_of_foremostOf hnext
      simp only [ask_bind_eq_ok, thread_eq_ok_iff] at h
      obtain ⟨th, hth, h⟩ := h
      split at h
      · obtain ⟨-, rfl⟩ := pure_eq_ok.mp h
        exact ⟨hk, fun _ => .refl k⟩
      · simp only [modify_bind_eq_ok, changeThread_bind_eq_ok] at h
        simp only [bind_eq_ok, pure_eq_ok] at h
        obtain ⟨-, _, m, hm, _, m', hm', count, m'', hrest, rfl, rfl⟩ := h
        refine ⟨?_, by simp⟩
        have hw := hk.wake hth
        have hstands : (({ k with sleepers := k.sleepers.remove t } : Core).mapThread t
            fun th => { th with wakeAt := none }).seating.Stands t := by
          rw [seating_wakeAt (k := { k with sleepers := k.sleepers.remove t }) hth,
            seating_sleepers]
          exact hk.seating.stands_of_leave (p := .sleep) hmem
        exact (ih ((hw.unblock hstands hm).quiet (quiet_say hm')) hrest).1

theorem Sound.wakeSleepers (hk : k.Sound g) (hg : g.state = .running) {now r : Nat}
    (h : wakeSleepers now k = .ok r k') : Serves g k k' ∧ GivesWay k k' := by
  unfold Core.wakeSleepers at h
  rw [bind_eq_ok] at h
  obtain ⟨woken, n, hn, h⟩ := h
  obtain ⟨m, m', hq, hw, hq'⟩ := masked_eq_ok hn
  rw [get_bind_eq_ok] at hw
  obtain ⟨hs, ha⟩ := (hk.quiet hq).wakeDue hw
  split at h
  · simp only [bind_eq_ok, pure_eq_ok] at h
    obtain ⟨_, n', hp, -, rfl⟩ := h
    exact hk.serves_preempt (hs.quiet hq') hg hp
  · rename_i hzero
    obtain ⟨-, rfl⟩ := pure_eq_ok.mp h
    have halike := (hq.alike.trans (ha (by omega))).trans hq'.alike
    exact ⟨hk.serves_alike halike, halike.givesWay⟩

end ThreadCore.Core
