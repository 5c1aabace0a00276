import ThreadCore.Proofs.Frames

/-!
# Units of a semaphore

What the operations on a semaphore do to it. One that takes a unit lowers the count or, if there is
no unit, lines the thread up (`Semaphore.taken`). One that brings a unit gives it to the most urgent
waiter, who leaves the queue, or raises the count if nobody waits (`Semaphore.given`). The waiter
who got the unit is ready then, or runs (`Core.Awake`).
-/

namespace ThreadCore

namespace Semaphore

/-- The semaphore after `t` has asked for a unit. -/
def taken (o : Semaphore) (t : ThreadId) : Semaphore :=
  if 0 < o.value then { o with value := o.value - 1 }
  else { o with waiters := ⟨o.waiters.entries ++ [t]⟩ }

/-- The semaphore after a unit was given to a waiter or, if there is none, to the count. -/
def given (o : Semaphore) : Option ThreadId → Semaphore
  | none => { o with value := o.value + 1 }
  | some t => { o with waiters := o.waiters.remove t }

theorem taken_of_pos {o : Semaphore} (h : 0 < o.value) (t : ThreadId) :
    o.taken t = { o with value := o.value - 1 } :=
  if_pos h

theorem taken_of_zero {o : Semaphore} (h : o.value = 0) (t : ThreadId) :
    o.taken t = { o with waiters := ⟨o.waiters.entries ++ [t]⟩ } :=
  if_neg (by omega)

end Semaphore

namespace Core

variable {k k' m : Core} {t v : ThreadId} {s : ObjectId} {o o' : Option Semaphore} {u : Unit}
  {σ : ThreadState}

/-! ## Threads that are ready or run -/

/-- `t` is ready or runs. -/
def Awake (k : Core) (t : ThreadId) : Prop :=
  k.seating.state t = some .ready ∨ k.seating.state t = some .running

theorem Awake.congr (h : k.Awake t) (hs : k'.seating = k.seating) : k'.Awake t := by
  unfold Awake at h ⊢
  rwa [hs]

theorem Awake.quiet (h : k.Awake t) (hq : Quiet k k') : k'.Awake t := h.congr hq.seating

/-- The states of the threads at the end of a turn. -/
theorem state_turned (hlive : ∃ th, k.threads[t]? = some th) (v : ThreadId) :
    (k.turned σ t).seating.state v = if v = t then some .running
      else if v = k.current then
        if σ = .dying then none else (k.threads[k.current]?).map fun _ => σ
      else k.seating.state v := by
  obtain ⟨th, hth⟩ := hlive
  let k₁ : Core := { k with ready := k.ready.remove t }
  let k₂ := k₁.mapThread k.current fun th => { th with state := σ }
  let k₃ := k₂.mapThread t fun th => { th with state := .running }
  have hk₃ : ∀ v, (k₃.threads[v]?).map Thread.state = if v = t then some .running
      else if v = k.current then (k.threads[k.current]?).map fun _ => σ
      else k.seating.state v := by
    intro v
    show ((k₂.mapThread t _).threads[v]?).map _ = _
    rw [getElem?_mapThread, getElem?_mapThread, getElem?_mapThread]
    show Option.map _ (if v = t then Option.map _ (if t = k.current then
      Option.map _ k.threads[k.current]? else k.threads[t]?)
      else if v = k.current then Option.map _ k.threads[k.current]? else k.threads[v]?) = _
    by_cases hvt : v = t
    · simp only [if_pos hvt]
      by_cases htc : t = k.current
      · simp [htc ▸ hth, htc]
      · simp [htc, hth]
    · simp only [if_neg hvt]
      by_cases hvc : v = k.current
      · simp only [if_pos hvc, Option.map_map]
        rfl
      · simp only [if_neg hvc]
        rfl
  show (Option.map Thread.state
    (if σ = .dying ∧ k.current ≠ t then k₃.threads.erase k.current else k₃.threads)[v]?) = _
  by_cases hd : σ = .dying ∧ k.current ≠ t
  · rw [if_pos hd, Std.ExtTreeMap.getElem?_erase]
    simp only [compare_eq_iff_eq]
    by_cases hvc : k.current = v
    · simp [hvc, hd.1, hvc ▸ hd.2]
    · simp only [if_neg hvc, hk₃, if_neg (Ne.symm hvc)]
  · rw [if_neg hd, hk₃]
    by_cases hvt : v = t
    · simp [hvt]
    · simp only [if_neg hvt]
      by_cases hvc : v = k.current
      · have hσ : σ ≠ .dying := fun hσ => hd ⟨hσ, fun h => hvt (hvc.trans h)⟩
        simp [hvc, hσ]
      · simp only [if_neg hvc]

theorem endTurn_state (h : endTurn σ k = .ok u k') (t : ThreadId) :
    k'.seating.state t = if t = k'.current then some .running
      else if t = k.current then
        if σ = .dying then none else (k.threads[k.current]?).map fun _ => σ
      else k.seating.state t := by
  obtain ⟨m, v, hq, -, hlive, ha⟩ := endTurn_alike h
  have hv : k'.current = v := congrArg Seating.current ha.seating
  rw [ha.seating, state_turned hlive, hv, hq.current, hq.threads, hq.seating]

/-- Others stay awake when a turn ends. -/
theorem Awake.endTurn (ht : k.Awake t) (hne : t ≠ k.current) (h : endTurn σ k = .ok u k') :
    k'.Awake t := by
  unfold Awake
  rw [endTurn_state h, if_neg hne]
  split
  · exact .inr rfl
  · exact ht

/-- A ready thread stays awake when the thread at work yields. -/
theorem awake_yieldNow (ht : k.seating.state t = some .ready) (h : yieldNow k = .ok u k') :
    k'.Awake t := by
  unfold Core.yieldNow at h
  simp only [outsideHandler_bind_eq_ok, ask_bind_eq_ok] at h
  obtain ⟨-, th, hr, h⟩ := h
  have hne : t ≠ k.current := by
    rintro rfl
    obtain ⟨hth, -, hs⟩ := running_eq_ok.mp hr
    rw [state_eq hth, hs] at ht
    cases ht
  obtain ⟨m, m', hq, h, hq'⟩ := masked_eq_ok h
  have htm : m.Awake t := Awake.quiet (.inl ht) hq
  rw [← hq.current] at hne
  refine Awake.quiet ?_ hq'
  rw [get_bind_eq_ok] at h
  split at h
  · exact htm.endTurn hne h
  · rw [bind_eq_ok] at h
    obtain ⟨_, n, hn, h⟩ := h
    obtain ⟨-, rfl⟩ := enqueueReady_eq_ok.mp hn
    have htn : Awake { m with ready := ⟨m.ready.entries ++ [th.id]⟩ } t := by
      unfold Awake at htm ⊢
      rwa [seating_ready]
    exact htn.endTurn hne h

theorem awake_preempt (ht : k.seating.state t = some .ready) (h : preempt k = .ok u k') :
    k'.Awake t := by
  unfold Core.preempt at h
  simp only [ask_bind_eq_ok] at h
  obtain ⟨b, -, h⟩ := h
  split at h
  · rw [get_bind_eq_ok] at h
    split at h
    · rw [modify_eq_ok] at h
      subst h
      exact .inl ht
    · exact awake_yieldNow ht h
  · obtain ⟨-, rfl⟩ := pure_eq_ok.mp h
    exact .inl ht

/-- A blocked thread is ready after `unblock`. -/
theorem unblock_state (h : unblock t k = .ok u k') :
    k.seating.state t = some .blocked ∧ k'.seating.state t = some .ready := by
  obtain ⟨-, m, th, hq, hth, hs, hq'⟩ := unblock_eq_ok h
  constructor
  · rw [← hq.seating, state_eq hth, hs]
  · rw [hq'.seating, seating_ready, seating_state hth]
    simp [Seating.setQueue, Seating.setState]

theorem Awake.unblock (ht : k.Awake t) (h : Core.unblock v k = .ok u k') : k'.Awake t := by
  by_cases htv : t = v
  · exact .inl (htv ▸ (unblock_state h).2)
  · obtain ⟨-, m, th, hq, hth, -, hq'⟩ := unblock_eq_ok h
    have htm := ht.quiet hq
    unfold Awake at htm ⊢
    rw [hq'.seating, seating_ready, seating_state hth]
    simpa [Seating.setQueue, Seating.setState, htv] using htm

/-! ## What happens to the semaphore -/

/-- Semaphore `s` is `o`, or gone, and the other semaphores and the families are as before. -/
structure SetsSemaphore (k k' : Core) (s : ObjectId) (o : Option Semaphore) : Prop where
  semaphores : ∀ i : ObjectId, k'.objects.semaphores[i]? =
    if i = s then o else k.objects.semaphores[i]?
  lastId : k'.objects.lastId = k.objects.lastId
  ties : k'.ties = k.ties
  nextThread : k'.nextThread = k.nextThread

theorem Quiet.kin (h : Quiet k k') : k'.kin = k.kin := congrArg Estate.kin h.estate

theorem kin_semaphores (h : k'.kin = k.kin) : k'.objects.semaphores = k.objects.semaphores :=
  congrArg Kin.semaphores h

theorem kin_lastId (h : k'.kin = k.kin) : k'.objects.lastId = k.objects.lastId :=
  congrArg Kin.lastId h

theorem kin_ties (h : k'.kin = k.kin) : k'.ties = k.ties := congrArg Kin.ties h

theorem kin_nextThread (h : k'.kin = k.kin) : k'.nextThread = k.nextThread :=
  congrArg Kin.nextThread h

theorem SetsSemaphore.kin_right (h : SetsSemaphore k m s o) (hk : k'.kin = m.kin) :
    SetsSemaphore k k' s o :=
  ⟨fun i => by rw [kin_semaphores hk, h.semaphores], (kin_lastId hk).trans h.lastId,
    (kin_ties hk).trans h.ties, (kin_nextThread hk).trans h.nextThread⟩

theorem SetsSemaphore.kin_left (h : SetsSemaphore m k' s o) (hk : m.kin = k.kin) :
    SetsSemaphore k k' s o :=
  ⟨fun i => by rw [h.semaphores, kin_semaphores hk], h.lastId.trans (kin_lastId hk),
    h.ties.trans (kin_ties hk), h.nextThread.trans (kin_nextThread hk)⟩

theorem setsSemaphore_mapSemaphore {x : Semaphore} (hx : k.objects.semaphores[s]? = some x)
    (f : Semaphore → Semaphore) : SetsSemaphore k (k.mapSemaphore s f) s (some (f x)) :=
  ⟨fun i => by rw [getElem?_mapSemaphore, hx]; rfl, rfl, rfl, rfl⟩

theorem dropSemaphore_sets (h : dropSemaphore s k = .ok u k') : SetsSemaphore k k' s none := by
  rw [dropSemaphore, modify_eq_ok] at h
  subst h
  refine ⟨fun i => ?_, rfl, rfl, rfl⟩
  simp only [Std.ExtTreeMap.getElem?_erase, compare_eq_iff_eq]
  exact if_congr eq_comm rfl rfl

theorem destroySemaphore_sets {a : Except Refusal Unit} (h : destroySemaphore s k = .ok a k') :
    (a = .error .busy ∧ k' = k) ∨ (a = .ok () ∧ SetsSemaphore k k' s none ∧
      ∃ x, k.objects.semaphores[s]? = some x ∧ x.waiters.entries = []) := by
  unfold destroySemaphore at h
  simp only [ask_bind_eq_ok, semaphore_eq_ok_iff] at h
  obtain ⟨x, hx, h⟩ := h
  split at h
  · rename_i he
    simp only [bind_eq_ok, pure_eq_ok] at h
    obtain ⟨_, _, h, rfl, rfl⟩ := h
    exact .inr ⟨rfl, dropSemaphore_sets h, x, hx, List.isEmpty_iff.mp he⟩
  · obtain ⟨rfl, rfl⟩ := pure_eq_ok.mp h
    exact .inl ⟨rfl, rfl⟩

/-- **Taking a unit.** The caller waits only if there is no unit. Else it goes on at once. -/
theorem down_sets (h : down s k = .ok u k') :
    ∃ th x, k.running = .ok th ∧ k.objects.semaphores[s]? = some x ∧
      SetsSemaphore k k' s (x.taken th.id) ∧ (0 < x.value → k'.seating = k.seating) := by
  unfold down at h
  rw [ask_bind_eq_ok] at h
  obtain ⟨th, hr, h⟩ := h
  obtain ⟨m, m', hq, h, hq'⟩ := masked_eq_ok h
  simp only [ask_bind_eq_ok, semaphore_eq_ok_iff] at h
  obtain ⟨x, hx, h⟩ := h
  refine ⟨th, x, hr, by rwa [← hq.objects], ?_⟩
  split at h
  · rename_i hv
    obtain ⟨-, rfl⟩ := changeSemaphore_eq_ok.mp h
    rw [Semaphore.taken_of_pos hv]
    refine ⟨((setsSemaphore_mapSemaphore hx _).kin_left hq.kin).kin_right hq'.kin, fun _ => ?_⟩
    rw [hq'.seating,
      (alike_mapSemaphore hx (f := fun x => { x with value := x.value - 1 }) rfl).seating,
      hq.seating]
  · rename_i hv
    simp only [outsideHandler_bind_eq_ok, ask_bind_eq_ok, changeSemaphore_bind_eq_ok,
      Queue.push_eq_ok_iff] at h
    obtain ⟨-, ⟨q⟩, ⟨-, rfl⟩, -, h⟩ := h
    simp only [bind_eq_ok] at h
    obtain ⟨_, n, hn, h⟩ := h
    rw [Semaphore.taken_of_zero (by omega)]
    refine ⟨((setsSemaphore_mapSemaphore hx fun sema =>
      { sema with waiters := ⟨x.waiters.entries ++ [th.id]⟩ }).kin_left hq.kin).kin_right ?_,
      fun h => absurd h hv⟩
    rw [hq'.kin, (keeps_endTurn (by decide)).kin _ _ _ h, (keeps_say _).kin _ _ _ hn]

theorem tryDown_sets {a : Except WouldBlock Unit} (h : tryDown s k = .ok a k') :
    ∃ x, k.objects.semaphores[s]? = some x ∧
      ((0 < x.value ∧ a = .ok () ∧ SetsSemaphore k k' s (some { x with value := x.value - 1 })) ∨
        (x.value = 0 ∧ a = .error {} ∧ k'.kin = k.kin)) := by
  unfold tryDown at h
  obtain ⟨m, m', hq, h, hq'⟩ := masked_eq_ok h
  simp only [ask_bind_eq_ok, semaphore_eq_ok_iff] at h
  obtain ⟨x, hx, h⟩ := h
  refine ⟨x, by rwa [← hq.objects], ?_⟩
  split at h
  · rename_i hv
    simp only [changeSemaphore_bind_eq_ok, pure_eq_ok] at h
    obtain ⟨-, rfl, rfl⟩ := h
    exact .inl ⟨hv, rfl, ((setsSemaphore_mapSemaphore hx _).kin_left hq.kin).kin_right hq'.kin⟩
  · rename_i hv
    obtain ⟨rfl, rfl⟩ := pure_eq_ok.mp h
    exact .inr ⟨by omega, rfl, hq'.kin.trans hq.kin⟩

/-- **Bringing a unit.** It goes to the most urgent waiter, who is ready then, or to the count. -/
theorem wakeOne_sets {r : Option ThreadId} (h : wakeOne s k = .ok r k') :
    ∃ x, k.objects.semaphores[s]? = some x ∧ x.waiters.foremost k.outranks = r ∧
      SetsSemaphore k k' s (x.given r) ∧ ∀ t, r = some t → k'.seating.state t = some .ready := by
  unfold wakeOne at h
  simp only [ask_bind_eq_ok, semaphore_eq_ok_iff, mostUrgent_eq_ok] at h
  obtain ⟨x, hx, next, ⟨-, hnext⟩, h⟩ := h
  refine ⟨x, hx, ?_⟩
  cases next with
  | some t =>
    simp only [changeSemaphore_bind_eq_ok] at h
    simp only [bind_eq_ok, pure_eq_ok] at h
    obtain ⟨-, _, m, hm, rfl, rfl⟩ := h
    refine ⟨hnext, ?_, ?_⟩
    · exact (setsSemaphore_mapSemaphore hx fun sema =>
        { sema with waiters := sema.waiters.remove t }).kin_right
        ((keeps_unblock t).kin _ _ _ hm)
    · intro t' ht
      cases ht
      exact (unblock_state hm).2
  | none =>
    simp only [bind_eq_ok, increment_eq_ok, changeSemaphore_eq_ok, pure_eq_ok] at h
    obtain ⟨_, m, ⟨-, rfl, rfl⟩, _, _, ⟨-, rfl⟩, rfl, rfl⟩ := h
    exact ⟨hnext, setsSemaphore_mapSemaphore hx fun sema => { sema with value := x.value + 1 },
      nofun⟩

/-- If only `p` may be waiting, a unit that finds a waiter wakes `p`. -/
theorem wakeOne_serves {x : Semaphore} {r : Option ThreadId} (h : wakeOne s k = .ok r k')
    (hx : k.objects.semaphores[s]? = some x) (hp : ∀ t ∈ x.waiters.entries, t = v)
    (hne : x.waiters.entries ≠ []) : k'.Awake v := by
  obtain ⟨y, hy, hr, -, hready⟩ := wakeOne_sets h
  obtain rfl := Option.some.inj (hx.symm.trans hy)
  cases r with
  | none => exact absurd (Queue.foremostOf_eq_none_iff.mp hr) hne
  | some t =>
    obtain rfl := hp t (Queue.mem_of_foremostOf hr)
    exact .inl (hready t rfl)

/-- Who is awake stays awake while others are woken. -/
theorem Awake.wakeOne {r : Option ThreadId} (ht : k.Awake t) (h : wakeOne s k = .ok r k') :
    k'.Awake t := by
  unfold Core.wakeOne at h
  simp only [ask_bind_eq_ok, semaphore_eq_ok_iff] at h
  obtain ⟨x, hx, next, -, h⟩ := h
  have hchange : ∀ f : Semaphore → Semaphore, (k.mapSemaphore s f).Awake t := by
    intro f
    unfold Awake
    rw [seating_mapSemaphore hx]
    exact ht
  cases next with
  | some v =>
    simp only [changeSemaphore_bind_eq_ok] at h
    simp only [bind_eq_ok, pure_eq_ok] at h
    obtain ⟨-, _, m, hm, -, rfl⟩ := h
    exact (hchange _).unblock hm
  | none =>
    simp only [bind_eq_ok, increment_eq_ok, changeSemaphore_eq_ok, pure_eq_ok] at h
    obtain ⟨_, m, ⟨-, rfl, rfl⟩, _, _, ⟨-, rfl⟩, -, rfl⟩ := h
    exact hchange _

/-- Who runs, and who runs when nobody is ready. -/
def post (k : Core) : ThreadId × ThreadId := (k.current, k.idle)

theorem Quiet.post (h : Quiet k k') : k'.post = k.post := by
  rw [Core.post, h.current, h.idle]
  rfl

theorem discreet_post : Discreet fun _ => Keeps post := discreet_of_quiet fun _ _ => Quiet.post

theorem post_wakeOne (s : ObjectId) : Keeps post (wakeOne s) := by
  have hchange : ∀ f : Semaphore → Semaphore, Keeps post (changeSemaphore s f) := fun f =>
    (keeps_ask _).bind fun _ => keeps_modify fun _ => rfl
  refine discreet_post.wakeOne s (fun _ => hchange _) (fun _ => hchange _) fun t k _ k' h => ?_
  obtain ⟨-, m, th, hq, -, -, hq'⟩ := unblock_eq_ok h
  exact hq'.post.trans hq.post

/-- A section of a machine whose flags may be moved at will. -/
theorem masked_ok {α : Type} {body : CoreM α} (h : ∀ m, Quiet k m → ∃ a m', body m = .ok a m') :
    ∃ a k', masked body k = .ok a k' := by
  have hmask : ∃ was m, onMachine Machine.mask k = .ok was m := ⟨_, _, rfl⟩
  obtain ⟨was, m, hm⟩ := hmask
  obtain ⟨a, m', hb⟩ := h m (quiet_mask hm)
  have hunmask : ∃ k', onMachine (Machine.unmask was) m' = .ok () k' := by
    cases was <;> exact ⟨_, rfl⟩
  obtain ⟨k', hk'⟩ := hunmask
  refine ⟨a, k', ?_⟩
  rw [masked, bind_of_ok hm, bind_of_ok hb, bind_of_ok hk']
  rfl

/-- While there are units, taking one does not fail. -/
theorem down_ok {th : Thread} {x : Semaphore} (hr : k.running = .ok th)
    (hx : k.objects.semaphores[s]? = some x) (hv : 0 < x.value) : ∃ k', down s k = .ok () k' := by
  obtain ⟨_, k', h⟩ : ∃ a k', masked (do
      let sema ← ask (semaphore s)
      if 0 < sema.value then
        changeSemaphore s fun sema => { sema with value := sema.value - 1 }
      else
        outsideHandler (.down s)
        let waiters ← ask fun _ => sema.waiters.push th.id
        changeSemaphore s fun sema => { sema with waiters := waiters }
        say (.waits th.id (.semaphore s))
        endTurn .blocked) k = .ok a k' := by
    refine masked_ok fun m hq => ?_
    have hxm : m.objects.semaphores[s]? = some x := by rw [hq.objects, hx]
    rw [ask_bind_of_ok (semaphore_eq_ok_iff.mpr hxm), if_pos hv]
    exact ⟨(), _, changeSemaphore_eq_ok.mpr ⟨⟨x, hxm⟩, rfl⟩⟩
  exact ⟨k', by rw [down, ask_bind_of_ok hr]; exact h⟩

theorem up_sets (h : up s k = .ok u k') :
    ∃ x r, k.objects.semaphores[s]? = some x ∧ x.waiters.foremost k.outranks = r ∧
      SetsSemaphore k k' s (x.given r) ∧ ∀ t, r = some t → k'.Awake t := by
  unfold up at h
  rw [bind_eq_ok] at h
  obtain ⟨r, n, hn, h⟩ := h
  obtain ⟨m, m', hq, hw, hq'⟩ := masked_eq_ok hn
  obtain ⟨x, hx, hr, hs, hready⟩ := wakeOne_sets hw
  refine ⟨x, r, by rwa [← hq.objects], ?_, ?_, ?_⟩
  · have : m.outranks = k.outranks := by
      funext a b
      simp only [outranks, hq.alike.priorityOf]
    rw [← hr, this]
  · refine ((hs.kin_left hq.kin).kin_right hq'.kin).kin_right ?_
    split at h
    · exact keeps_preempt.kin _ _ _ h
    · obtain ⟨-, rfl⟩ := pure_eq_ok.mp h
      rfl
  · rintro t rfl
    rw [Option.isSome_some, if_pos rfl] at h
    refine awake_preempt ?_ h
    rw [hq'.seating]
    exact hready t rfl

end Core

end ThreadCore
