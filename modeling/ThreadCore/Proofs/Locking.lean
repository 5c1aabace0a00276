import ThreadCore.Proofs.Chains

/-!
# Priorities, locks and condition variables

The operations that change who waits for whom. A new base priority, a lock that is taken, handed
over or given back, and a wait or a signal on a condition variable keep the rules and the order.
-/

namespace ThreadCore.Core

open Relation

variable {k k' : Core} {g : Stage} {t d holder : ThreadId} {l c : ObjectId} {u : Unit}
  {p : Priority}

/-! ## Base priorities -/

theorem Sound.setPriority (hk : k.Sound g) (hg : g.state = .running)
    (h : setPriority p k = .ok u k') : Serves g k k' ∧ GivesWay k k' := by
  unfold Core.setPriority checkPriority at h
  simp only [demand_bind_eq_ok, ask_bind_eq_ok] at h
  obtain ⟨-, th, hr, h⟩ := h
  obtain ⟨hid, -⟩ := hk.running_eq hr
  rw [bind_eq_ok] at h
  obtain ⟨_, n, hn, h⟩ := h
  obtain ⟨m, m', hq, hn, hq'⟩ := masked_eq_ok hn
  have hm := hk.quiet hq
  rw [hid, ← hm.current, changeThread_bind_eq_ok] at hn
  obtain ⟨⟨mth, hmth⟩, hn⟩ := hn
  simp only [bind_eq_ok, pure_eq_ok] at hn
  obtain ⟨_, m'', href, -, rfl⟩ := hn
  obtain ⟨hu, hw⟩ := refreshPriority_eq_ok href
  have hub : Unmoved m (m.mapThread m.current fun th => { th with base := p }) :=
    unmoved_mapThread (fun _ => rfl) (fun _ => rfl) (fun _ => rfl) (fun _ => rfl) fun _ => rfl
  rw [waits_base hmth] at hw
  have hs : m''.Sound g := by
    refine hm.unmoved (hub.trans hu) ?_
    rw [hw]
    exact hm.waits.rebase (hm.current_waitsFor hg) p
  exact hk.serves_preempt (hs.quiet hq') hg h

/-! ## Taking a free lock -/

theorem Sound.takeLock (hk : k.Sound g) {o : Lock} (ho : k.objects.locks[l]? = some o)
    (hh : o.holder = none) {f : Lock → Lock} (hf : (f o).waiters = o.waiters)
    (hlive : ∀ s, (f o).holder = some s → ∃ th, k.threads[s]? = some th) :
    (k.mapLock l f).Sound g ∧ (k.Settled → (k.mapLock l f).Settled) := by
  -- Nobody waits for a lock that nobody holds.
  have hempty : k.waits.waiters l = [] := by
    refine List.eq_nil_iff_forall_not_mem.mpr fun t ht => ?_
    obtain ⟨s, hs⟩ := hk.waits.wired.held t l ht
    rw [holder_lock ho, hh] at hs
    cases hs
  have hseat : (k.mapLock l f).seating = k.seating := by
    rw [seating_mapLock ho, hf, ← queue_lock ho]
    exact congrArg (fun q => ({ k.seating with queue := q } : Seating))
      (Function.update_eq_self ..)
  have hwaits : (k.mapLock l f).waits = k.waits.setHolder l (f o).holder := by
    rw [waits_mapLock ho, hf, ← waiters_lock ho]
    exact congrArg (fun q => ({ k.waits.setHolder l (f o).holder with waiters := q } : Waits))
      (Function.update_eq_self ..)
  constructor
  · refine ⟨hk.current, hk.idle, hk.handler, hseat ▸ hk.seating, ?_, hk.registered.mapLock ho hlive⟩
    rw [hwaits]
    exact hk.waits.setHolder hempty _
  · exact fun hs => hs.of_ready rfl rfl rfl (fun _ _ ht => ht) rfl id

theorem Sound.tryAcquire (hk : k.Sound g) {a : Except WouldBlock Unit}
    (h : tryAcquire l k = .ok a k') : Serves g k k' := by
  unfold Core.tryAcquire at h
  simp only [ask_bind_eq_ok] at h
  obtain ⟨th, hr, h⟩ := h
  obtain ⟨hid, hth⟩ := hk.running_eq hr
  obtain ⟨m, m', hq, h, hq'⟩ := masked_eq_ok h
  have hm := hk.quiet hq
  refine Serves.quiet_left (Serves.quiet_right ?_ hq') hq
  simp only [ask_bind_eq_ok, lock_eq_ok_iff] at h
  obtain ⟨o, ho, h⟩ := h
  cases hh : o.holder with
  | none =>
    simp only [hh, changeLock_bind_eq_ok, pure_eq_ok] at h
    obtain ⟨-, -, rfl⟩ := h
    obtain ⟨hs, hset⟩ := hm.takeLock (f := fun lk => { lk with holder := some th.id }) ho hh rfl
      (by
        rintro s ⟨rfl⟩
        rw [hq.threads, hid]
        exact ⟨th, hth⟩)
    exact ⟨hs.at_current, hset⟩
  | some holder =>
    simp only [hh, pure_eq_ok] at h
    exact h.2 ▸ hm.serves_alike (.refl m)

theorem Sound.acquire (hk : k.Sound g) (hg : g.state = .running)
    (hi : k.current = k.idle → ∀ o, k.objects.locks[l]? = some o → o.holder = none)
    (h : acquire l k = .ok u k') : Serves g k k' := by
  unfold Core.acquire at h
  simp only [outsideHandler_bind_eq_ok, ask_bind_eq_ok] at h
  obtain ⟨-, th, hr, h⟩ := h
  obtain ⟨hid, hth⟩ := hk.running_eq hr
  obtain ⟨m, m', hq, h, hq'⟩ := masked_eq_ok h
  have hm := hk.quiet hq
  refine Serves.quiet_left (Serves.quiet_right ?_ hq') hq
  simp only [ask_bind_eq_ok, lock_eq_ok_iff] at h
  obtain ⟨o, ho, h⟩ := h
  cases hh : o.holder with
  | none =>
    simp only [hh, changeLock_eq_ok] at h
    obtain ⟨-, rfl⟩ := h
    obtain ⟨hs, hset⟩ := hm.takeLock (f := fun lk => { lk with holder := some th.id }) ho hh rfl
      (by
        rintro s ⟨rfl⟩
        rw [hq.threads, hid]
        exact ⟨th, hth⟩)
    exact ⟨hs.at_current, hset⟩
  | some holder =>
    simp only [hh, demand_bind_eq_ok] at h
    simp only [bind_eq_ok] at h
    obtain ⟨-, _, n, hn, _, n', hn', h⟩ := h
    have hne : m.current ≠ m.idle := by
      intro he
      rw [hq.current, hq.idle] at he
      have := hi he o (by rwa [← hq.objects])
      rw [hh] at this
      cases this
    rw [hid, ← hm.current] at hn
    have hσ := hm.stand hg .blocked (by decide)
    obtain ⟨hs, -⟩ := hσ.waitForLock ((holder_lock ho).trans hh) (about_current m _) hne
      (hm.seating.current_stands fun p => hg ▸ p.state_ne_running) hn
    exact (hs.quiet (quiet_say hn')).serves_endTurn hg (by decide) (by simp) h m

/-! ## Handing a lock over -/

theorem forM_addDonor_eq_ok {ts : List ThreadId} (hlive : ∃ th, k.threads[t]? = some th)
    (h : ts.forM (addDonor t) k = .ok u k') :
    Unmoved k k' ∧ k'.waits = k.waits.setDonors t (k.waits.donors t ++ ts) := by
  induction ts generalizing k with
  | nil =>
    obtain ⟨-, rfl⟩ := pure_eq_ok.mp h
    refine ⟨.refl k, ?_⟩
    simp [Waits.setDonors]
  | cons d ts ih =>
    obtain ⟨_, m, hm, h⟩ := bind_eq_ok.mp h
    obtain ⟨hu, hw⟩ := addDonor_eq_ok hm
    obtain ⟨th, hth⟩ := hlive
    obtain ⟨hu', hw'⟩ := ih (hu.live hth) h
    refine ⟨hu.trans hu', ?_⟩
    rw [hw', hw]
    simp [Waits.setDonors]

/-- The first half of a hand-over: the old holder gives up the lock and the donors it had through
it. -/
theorem withdraw_eq {o : Lock} (ho : k.objects.locks[l]? = some o) {m : Core}
    (hlive : ∃ th, k.threads[holder]? = some th)
    (h : refreshPriority holder ((k.mapLock l fun lk => { lk with holder := none }).mapThread holder
      fun th => { th with donors := th.donors.keep fun donor => donor ∉ o.waiters }) = .ok p m) :
    Unmoved k m ∧ m.waits = k.waits.withdraw l holder := by
  obtain ⟨th, hth⟩ := hlive
  obtain ⟨hu, hw⟩ := refreshPriority_eq_ok h
  let k₁ := k.mapLock l fun lk => { lk with holder := none }
  have hu₁ : Unmoved k k₁ := by
    refine ⟨?_, fun _ hr => hr.mapLock ho (by simp), rfl, rfl⟩
    rw [seating_mapLock ho, ← queue_lock ho]
    exact congrArg (fun q => ({ k.seating with queue := q } : Seating)) (Function.update_eq_self ..)
  have hw₁ : k₁.waits = k.waits.setHolder l none := by
    rw [waits_mapLock ho, ← waiters_lock ho]
    exact congrArg (fun q => ({ k.waits.setHolder l none with waiters := q } : Waits))
      (Function.update_eq_self ..)
  have hth₁ : k₁.threads[holder]? = some th := hth
  have hw₂ := waits_donors hth₁ fun q => q.keep fun donor => donor ∉ o.waiters
  have hkeep : (th.donors.keep fun donor => donor ∉ o.waiters).entries =
      (k.waits.donors holder).filter (· ∉ k.waits.waiters l) := by
    rw [waiters_lock ho]
    simp [Core.waits, hth, Queue.mem_def]
  rw [hw₂, hw₁, hkeep] at hw
  refine ⟨(hu₁.trans ?_).trans hu, hw⟩
  exact unmoved_mapThread (fun _ => rfl) (fun _ => rfl) (fun _ => rfl) (fun _ => rfl) fun _ => rfl

/-- The second half of a hand-over: the new holder leaves the queue, and the waiters that are left
become its donors. -/
theorem bestow_eq {next : ThreadId} {q : Queue} (hq : k.waits.waiters l = q.entries)
    (hlock : ∃ o, k.objects.locks[l]? = some o) {th : Thread} (hth : k.threads[next]? = some th)
    {m m' : Core} (hm : (q.entries.filter fun donor => donor ≠ next).forM (addDonor next)
      ((k.mapLock l fun lk =>
        { lk with holder := some next, waiters := lk.waiters.remove next }).mapThread next
          fun th => { th with waitsFor := none }) = .ok u m)
    (hm' : refreshPriority next m = .ok p m') :
    m'.seating = k.seating.setQueue (.lock l) ((k.seating.queue (.lock l)).erase next) ∧
      m'.waits = k.waits.bestow l next ∧
      (∀ terms, k.Registered terms → m'.Registered terms) ∧
      m'.machine.inHandler = k.machine.inHandler := by
  obtain ⟨o, ho⟩ := hlock
  let k₁ := k.mapLock l fun lk =>
    { lk with holder := some next, waiters := lk.waiters.remove next }
  let k₂ := k₁.mapThread next fun th => { th with waitsFor := none }
  have hth₁ : k₁.threads[next]? = some th := hth
  have hs₁ : k₁.seating =
      k.seating.setQueue (.lock l) ((k.seating.queue (.lock l)).erase next) := by
    rw [seating_mapLock ho, queue_lock ho]
    rfl
  have hs₂ : k₂.seating = k₁.seating := seating_mapThread (fun _ => rfl) fun _ => rfl
  have hw₁ : k₁.waits =
      (k.waits.setHolder l (some next)).setWaiters l ((k.waits.waiters l).erase next) := by
    rw [waits_mapLock ho, waiters_lock ho]
    rfl
  have hw₂ : k₂.waits = k₁.waits.setWaitsFor next none := waits_waitsFor hth₁ none
  have hr₂ : ∀ terms, k.Registered terms → k₂.Registered terms := by
    intro terms hr
    have hr₁ : k₁.Registered terms := hr.mapLock ho fun s hs => ⟨th, by
      cases hs
      exact hth⟩
    exact hr₁.mapThread (fun _ => rfl) (fun _ => rfl) fun _ => rfl
  have hlive₂ : ∃ th, k₂.threads[next]? = some th := by
    rw [getElem?_mapThread, if_pos rfl]
    exact ⟨_, by rw [hth₁]; rfl⟩
  obtain ⟨hu₃, hw₃⟩ := forM_addDonor_eq_ok hlive₂ hm
  obtain ⟨hu₄, hw₄⟩ := refreshPriority_eq_ok hm'
  refine ⟨hu₄.seating.trans (hu₃.seating.trans (hs₂.trans hs₁)), ?_,
    fun pr hr => hu₄.registered pr (hu₃.registered pr (hr₂ pr hr)),
    hu₄.handler.trans hu₃.handler⟩
  rw [hw₄, hw₃, hw₂, hw₁, ← hq]
  rfl

/-- Lock `l` has left `holder` for its waiter `next`, which has left the queue but is not ready
yet. -/
structure Bestowed (l : ObjectId) (holder next : ThreadId) (k m : Core) : Prop where
  seating : m.seating = k.seating.setQueue (.lock l) ((k.seating.queue (.lock l)).erase next)
  waits : m.waits = k.waits.handOver l holder next
  registered : ∀ terms, k.Registered terms → m.Registered terms
  handler : m.machine.inHandler = k.machine.inHandler

/-- The lock that is passed on has no waiters, or it goes to the foremost of them, as they stand
once its holder has given up the lock. -/
theorem passOn_cases {r : Option ThreadId} (h : passOn l holder k = .ok r k') :
    ∃ o m, k.objects.locks[l]? = some o ∧ o.holder = some holder ∧ Unmoved k m ∧
      m.waits = k.waits.withdraw l holder ∧
      ((r = none ∧ o.waiters.entries = [] ∧ k' = m) ∨
        ∃ next m₁ m₂ v, r = some next ∧ o.waiters.foremost m.outranks = some next ∧
          Bestowed l holder next k m₁ ∧ unblock next m₁ = .ok v m₂ ∧ Quiet m₂ k') := by
  unfold Core.passOn at h
  simp only [ask_bind_eq_ok, lock_eq_ok_iff, demand_bind_eq_ok, changeLock_bind_eq_ok,
    changeThread_bind_eq_ok] at h
  obtain ⟨o, ho, hh, -, hlive, h⟩ := h
  rw [bind_eq_ok] at h
  obtain ⟨p, m, hm, h⟩ := h
  obtain ⟨hu, hw⟩ := withdraw_eq ho hlive hm
  simp only [ask_bind_eq_ok, mostUrgent_eq_ok] at h
  obtain ⟨next, ⟨-, hnext⟩, h⟩ := h
  refine ⟨o, m, ho, hh, hu, hw, ?_⟩
  cases next with
  | none =>
    simp only [pure_eq_ok] at h
    obtain ⟨rfl, rfl⟩ := h
    exact .inl ⟨rfl, Queue.foremostOf_eq_none_iff.mp hnext, rfl⟩
  | some next =>
    simp only [changeLock_bind_eq_ok, changeThread_bind_eq_ok] at h
    obtain ⟨hlock, ⟨th, hth⟩, h⟩ := h
    simp only [bind_eq_ok, pure_eq_ok] at h
    obtain ⟨_, m₁, h₁, _, m₂, h₂, _, m₃, h₃, _, m₄, h₄, rfl, rfl⟩ := h
    have hq : m.waits.waiters l = o.waiters.entries := by
      rw [hw]
      exact waiters_lock ho
    obtain ⟨hseat, hwaits, hreg, hhand⟩ := bestow_eq hq hlock hth h₁ h₂
    rw [hu.seating] at hseat
    rw [hw] at hwaits
    exact .inr ⟨next, m₂, m₃, _, rfl, hnext, ⟨hseat, hwaits,
      fun terms hr => hreg terms (hu.registered terms hr), hhand.trans hu.handler⟩, h₃,
      quiet_say h₄⟩

/-- A lock that goes to one of its waiters leaves the rules in force. -/
theorem Sound.bestowed {m : Core} {next : ThreadId} (hk : k.Sound g)
    (hh : k.waits.holder l = some holder) (hs : k.waits.waitsFor holder = none)
    (hn : next ∈ k.waits.waiters l) (h : Bestowed l holder next k m) : m.Sound g := by
  refine ⟨?_, ?_, h.handler.trans hk.handler, ?_, ?_, h.registered _ hk.registered⟩
  · exact (congrArg Seating.current h.seating).trans hk.current
  · exact (congrArg Seating.idle h.seating).trans hk.idle
  · rw [h.seating]
    exact hk.seating.leave (by simp) (by simp) next
  · rw [h.waits]
    exact hk.waits.handOver hh hs hn (hk.seating.nodup (.lock l))

/-- **Handing over.** A holder that waits for nothing can pass its lock on. -/
theorem Sound.passOn (hk : k.Sound g) (hs : k.waits.waitsFor holder = none)
    {r : Option ThreadId} (h : passOn l holder k = .ok r k') : k'.Sound g := by
  obtain ⟨o, m, ho, hh, hu, hw, ⟨-, hnone, rfl⟩ | ⟨next, m₁, m₂, _, -, hnext, hb, h, hq⟩⟩ :=
    passOn_cases h
  · have hempty : k.waits.waiters l = [] := (waiters_lock ho).trans hnone
    refine hk.unmoved hu ?_
    rw [hw, hk.waits.withdraw hempty]
    exact hk.waits.setHolder hempty none
  · have hmem : next ∈ k.waits.waiters l := by
      rw [waiters_lock ho]
      exact Queue.mem_of_foremostOf hnext
    have hm₁ := hk.bestowed ((holder_lock ho).trans hh) hs hmem hb
    have hstands : m₁.seating.Stands next := by
      rw [hb.seating]
      exact hk.seating.stands_of_leave (p := .lock l) hmem
    exact (hm₁.unblock hstands h).quiet hq

theorem Sound.release (hk : k.Sound g) (hg : g.state = .running) (h : release l k = .ok u k') :
    Serves g k k' ∧ GivesWay k k' := by
  unfold Core.release at h
  simp only [ask_bind_eq_ok] at h
  obtain ⟨th, hr, h⟩ := h
  rw [bind_eq_ok] at h
  obtain ⟨_, n, hn, h⟩ := h
  obtain ⟨hid, -⟩ := hk.running_eq hr
  obtain ⟨m, m', hq, hn, hq'⟩ := masked_eq_ok hn
  have hm := hk.quiet hq
  rw [hid, ← hm.current] at hn
  exact hk.serves_preempt ((hm.passOn (hm.current_waitsFor hg) hn).quiet hq') hg h

/-! ## Condition variables -/

theorem checkHeld_eq_ok {use : ConditionUse} (h : checkHeld use c l k = .ok u k') :
    k = k' ∧ ∃ th, k.running = .ok th ∧ k.waits.holder l = some th.id := by
  unfold checkHeld heldByCurrent at h
  simp only [ask_bind_eq_ok, except_bind_ok, lock_eq_ok_iff, except_pure_ok, demand_eq_ok] at h
  obtain ⟨_, ⟨o, ho, th, hr, rfl⟩, hh, rfl⟩ := h
  exact ⟨rfl, th, hr, (holder_lock ho).trans (by simpa using hh)⟩

/-- The thread at work sits down in the queue of a condition variable and passes its lock on. -/
theorem Sound.sitAndPassOn (hk : k.Sound g) (hg : g.state = .running) (hi : k.current ≠ k.idle)
    (h : (do
      let waiters ← ask fun k => do (← k.condition c).waiters.push t
      changeCondition c fun cond => { cond with waiters := waiters }
      let _ ← Core.passOn l t
      say (.waits t (.condition c))
      Core.endTurn .blocked : CoreM Unit) k = .ok u k') (ht : t = k.current) (k₀ : Core) :
    Serves g k₀ k' := by
  subst ht
  simp only [ask_bind_eq_ok, except_bind_ok, condition_eq_ok_iff, Queue.push_eq_ok_iff,
    changeCondition_bind_eq_ok] at h
  obtain ⟨w, ⟨o, ho, -, hw⟩, -, h⟩ := h
  simp only [bind_eq_ok] at h
  obtain ⟨_, m, hm, _, m', hm', h⟩ := h
  have hσ := hk.stand hg .blocked (by decide)
  have hj := hσ.joinCondition (f := fun cond => { cond with waiters := w }) ho hw
    (about_current k _) hi (hk.seating.current_stands fun p => hg ▸ p.state_ne_running)
  have hs := (hj.passOn (hk.current_waitsFor hg) hm).quiet (quiet_say hm')
  exact hs.serves_endTurn hg (by decide) (by simp) h k₀

theorem Sound.await (hk : k.Sound g) (hg : g.state = .running) (hi : k.current ≠ k.idle)
    (h : await c l k = .ok u k') : Serves g k k' := by
  unfold Core.await at h
  simp only [outsideHandler_bind_eq_ok, bind_eq_ok (x := checkHeld _ _ _)] at h
  obtain ⟨-, _, _, hc, h⟩ := h
  obtain ⟨rfl, -⟩ := checkHeld_eq_ok hc
  simp only [ask_bind_eq_ok] at h
  obtain ⟨th, hr, h⟩ := h
  obtain ⟨hid, -⟩ := hk.running_eq hr
  obtain ⟨m, m', hq, h, hq'⟩ := masked_eq_ok h
  have hm := hk.quiet hq
  have him : m.current ≠ m.idle := by rwa [hq.current, hq.idle]
  refine Serves.quiet_left (Serves.quiet_right ?_ hq') hq
  simp only [ask_bind_eq_ok (f := fun x => _), condition_eq_ok_iff] at h
  obtain ⟨o, ho, h⟩ := h
  cases hb : o.lock with
  | some bound =>
    simp only [hb, demand_bind_eq_ok] at h
    exact hm.sitAndPassOn hg him h.2 (hid.trans hm.current.symm) m
  | none =>
    simp only [hb, changeCondition_bind_eq_ok] at h
    have ha : Alike m (m.mapCondition c fun cond => { cond with lock := some l }) :=
      alike_mapCondition ho rfl
    exact (hm.alike ha).sitAndPassOn hg him h.2 (hid.trans hm.current.symm) m

/-- What a signal does to the thread it is for, if there is one: it waits for the lock from then
on. -/
theorem Sound.signalOne (hk : k.Sound g) (hg : g.state = .running)
    (hh : k.waits.holder l = some k.current) {r : Option ThreadId}
    (h : signalOne c l k = .ok r k') :
    k'.Sound g ∧ (k.Settled → k'.Settled) ∧ k'.waits.holder l = some k'.current := by
  unfold Core.signalOne at h
  simp only [ask_bind_eq_ok, condition_eq_ok_iff, mostUrgent_eq_ok] at h
  obtain ⟨o, ho, next, ⟨-, hnext⟩, h⟩ := h
  cases next with
  | none =>
    simp only [pure_eq_ok] at h
    obtain ⟨-, rfl⟩ := h
    exact ⟨hk, id, hh⟩
  | some t =>
    have hmem : t ∈ o.waiters.entries := Queue.mem_of_foremostOf hnext
    have hseat : t ∈ k.seating.queue (.condition c) := by rwa [queue_condition ho]
    simp only [changeCondition_bind_eq_ok, get_bind_eq_ok] at h
    simp only [bind_eq_ok, pure_eq_ok] at h
    obtain ⟨-, _, m, hm, _, m', hm', rfl, rfl⟩ := h
    have hf : (Queue.remove o.waiters t).entries = o.waiters.entries.erase t := rfl
    let k₁ := k.mapCondition c fun cond => { cond with waiters := cond.waiters.remove t }
    have hk₁ : k₁.Sound g := hk.leaveCondition ho hf
    have hti := hk.ne_idle_of_mem hseat
    have htc := hk.ne_current_of_mem hg hseat
    have hb : k₁.seating.about g.state t = some .blocked := by
      have := hk.seating.seated t (.condition c) hseat
      rw [seating_mapCondition ho]
      exact this
    obtain ⟨hs, hw⟩ := hk₁.waitForLock hh hb hti (hk.stands_leaveCondition ho hf hmem) hm
    have ha := (quiet_say hm').alike
    have hcur : m.current = k.current := hs.current.trans hk.current.symm
    refine ⟨hs.alike ha, fun hset => Settled.alike ?_ ha, ?_⟩
    · refine hset.of_ready hw.ready hcur (hs.idle.trans hk.idle.symm) ?_
        (hs.handler.trans hk.handler.symm) fun hy => hw.pending.trans hy
      -- The chain from `t` ends at the current thread, so nobody else becomes more urgent.
      intro s hs' hle
      have hsc := hk.ne_current_of_mem hg (p := .ready) hs'
      have hno : ¬ TransGen (k₁.waits.enqueue t l k.current).Awaits t s := by
        have hnone := hk₁.waitsFor_eq_none
          fun m => hk.stands_leaveCondition ho hf hmem (.lock m)
        have haw : (k₁.waits.enqueue t l k.current).Awaits t k.current :=
          (Waits.awaits_enqueue hh hnone).mpr (.inr ⟨rfl, rfl⟩)
        rw [transGen_awaits haw, not_or]
        refine ⟨hsc, fun hcs => ?_⟩
        obtain ⟨b, hb', -⟩ := TransGen.head'_iff.mp hcs
        rcases (Waits.awaits_enqueue hh hnone).mp hb' with hb' | ⟨he, -⟩
        · exact Waits.not_awaits (hk.current_waitsFor hg) b hb'
        · exact htc he.symm
      rw [priorityOf_eq, priorityOf_eq] at hle ⊢
      rw [hw.elsewhere s hno]
      exact hle.trans (hw.rising k.current)
    · rw [ha.waits, ha.current, hcur, hw.waits]
      exact hh

theorem Sound.signal (hk : k.Sound g) (hg : g.state = .running) {b : Bool}
    (h : signal c l k = .ok b k') : Serves g k k' := by
  unfold Core.signal at h
  simp only [bind_eq_ok, pure_eq_ok] at h
  obtain ⟨_, _, hc, r, n, hn, -, rfl⟩ := h
  obtain ⟨rfl, th, hr, hh⟩ := checkHeld_eq_ok hc
  obtain ⟨hid, -⟩ := hk.running_eq hr
  obtain ⟨m, m', hq, hn, hq'⟩ := masked_eq_ok hn
  have hm := hk.quiet hq
  rw [hid, ← hm.current] at hh
  refine Serves.quiet_left (Serves.quiet_right ?_ hq') hq
  obtain ⟨hs, hset, -⟩ := hm.signalOne hg (hq.waits ▸ hh) hn
  exact ⟨hs.at_current, hset⟩

theorem Sound.signalMany {n : Nat} (hk : k.Sound g) (hg : g.state = .running)
    (hh : k.waits.holder l = some k.current) {count : Nat}
    (h : signalMany c l n k = .ok count k') : k'.Sound g ∧ (k.Settled → k'.Settled) := by
  induction n generalizing k count with
  | zero =>
    obtain ⟨-, rfl⟩ := pure_eq_ok.mp h
    exact ⟨hk, id⟩
  | succ n ih =>
    unfold Core.signalMany at h
    rw [bind_eq_ok] at h
    obtain ⟨r, m, hm, h⟩ := h
    obtain ⟨hs, hset, hh'⟩ := hk.signalOne hg hh hm
    cases r with
    | none =>
      simp only [pure_eq_ok] at h
      obtain ⟨-, rfl⟩ := h
      exact ⟨hs, hset⟩
    | some t =>
      simp only [bind_eq_ok, pure_eq_ok] at h
      obtain ⟨_, m', hm', -, rfl⟩ := h
      obtain ⟨hs', hset'⟩ := ih hs hh' hm'
      exact ⟨hs', fun hk => hset' (hset hk)⟩

theorem Sound.broadcast (hk : k.Sound g) (hg : g.state = .running) {count : Nat}
    (h : broadcast c l k = .ok count k') : Serves g k k' := by
  unfold Core.broadcast at h
  rw [bind_eq_ok] at h
  obtain ⟨_, _, hc, h⟩ := h
  obtain ⟨rfl, th, hr, hh⟩ := checkHeld_eq_ok hc
  obtain ⟨hid, -⟩ := hk.running_eq hr
  obtain ⟨m, m', hq, h, hq'⟩ := masked_eq_ok h
  have hm := hk.quiet hq
  rw [hid, ← hm.current] at hh
  refine Serves.quiet_left (Serves.quiet_right ?_ hq') hq
  simp only [ask_bind_eq_ok] at h
  obtain ⟨o, -, h⟩ := h
  obtain ⟨hs, hset⟩ := hm.signalMany hg (hq.waits ▸ hh) h
  exact ⟨hs.at_current, hset⟩

end ThreadCore.Core
