import ThreadCore.Proofs.FamilyCalls

/-!
# Runs in which the idle thread waits

The idle thread may block on an object like any other thread. It is dispatched all the same when no
thread is ready, so it can be at work while it is in queues, and it can be in several of them. The
rules of seating break then, but only for the idle thread: all others are seated by the rules,
whatever it does (`Core.Poised`).

So in a run in which nobody unblocks a thread that waits somewhere (`Session.Loose`), threads other
than the idle one are blocked for as long as they are in the queue of an object
(`Session.Logged.poised`).
-/

namespace ThreadCore

namespace Seating

variable {s : Seating} {σ : ThreadState} {t : ThreadId} {p : Seat}

/-- The seating without the idle thread. -/
def aside (s : Seating) : Seating := { s with queue := fun p => (s.queue p).filter (· ≠ s.idle) }

theorem mem_aside : t ∈ s.aside.queue p ↔ t ∈ s.queue p ∧ t ≠ s.idle := by
  simp [aside]

theorem aside_setQueue (s : Seating) (p : Seat) (ts : List ThreadId) :
    (s.setQueue p ts).aside = s.aside.setQueue p (ts.filter (· ≠ s.idle)) := by
  simp only [aside, setQueue, mk.injEq, true_and, and_true]
  funext q
  simp only [Function.update_apply]
  split <;> rfl

theorem aside_leave (s : Seating) (p : Seat) (t : ThreadId) :
    (s.setQueue p ((s.queue p).erase t)).aside =
      s.aside.setQueue p ((s.aside.queue p).erase t) := by
  rw [aside_setQueue, ← List.erase_filter]
  rfl

theorem aside_join (ht : t ≠ s.idle) (p : Seat) :
    (s.setQueue p (s.queue p ++ [t])).aside = s.aside.setQueue p (s.aside.queue p ++ [t]) := by
  have hsome : [t].filter (· ≠ s.idle) = [t] := by simp [ht]
  rw [aside_setQueue, List.filter_append, hsome]
  rfl

/-- It does not show where the idle thread sits. -/
theorem aside_join_idle (s : Seating) (p : Seat) :
    (s.setQueue p (s.queue p ++ [s.idle])).aside = s.aside := by
  have hnone : [s.idle].filter (· ≠ s.idle) = [] := by simp
  rw [aside_setQueue, List.filter_append, hnone, List.append_nil]
  exact congrArg (fun q => ({ s.aside with queue := q } : Seating)) (Function.update_eq_self ..)

theorem aside_turn (s : Seating) (σ : ThreadState) (t : ThreadId) :
    (s.turn σ t).aside = s.aside.turn σ t := by
  simp only [aside, turn, mk.injEq, true_and, and_true]
  funext q
  simp only [Function.update_apply]
  split
  · exact List.erase_filter.symm
  · rfl

theorem Sound.aside (h : s.Sound σ) : s.aside.Sound σ := by
  have he : s.aside = s := by
    have hq : (fun p => (s.queue p).filter (· ≠ s.idle)) = s.queue := by
      funext p
      refine List.filter_eq_self.mpr fun t ht => decide_eq_true ?_
      rintro rfl
      exact h.idle_stands p ht
    exact congrArg (fun q => ({ s with queue := q } : Seating)) hq
  rwa [he]

end Seating

namespace Core

variable {α β : Type} {k k' m : Core} {σ σ' σ'' : ThreadState} {t : ThreadId} {p : Seat}
  {s l c : ObjectId} {u : Unit}

/-- Who sits where, and which numbers are given out. -/
def stance (k : Core) : Seating × (ThreadId → Option ThreadId) × ThreadId :=
  (k.seating, fun t => (k.threads[t]?).map Thread.id, k.nextThread)

/-- All threads but the idle one are seated by the rules, while the current thread is about to be in
state `σ`. Threads have the numbers that were given to them; the idle thread has got the second. -/
structure Poised (k : Core) (σ : ThreadState) : Prop where
  seating : k.seating.aside.Sound σ
  number : ∀ t th, k.threads[t]? = some th → th.id = t ∧ t < k.nextThread
  home : k.idle = 2

namespace Poised

theorem congr (h : k.Poised σ) (hs : k'.stance = k.stance) : k'.Poised σ := by
  simp only [stance, Prod.mk.injEq] at hs
  obtain ⟨hseat, hnumber, hnext⟩ := hs
  refine ⟨hseat ▸ h.seating, fun t th ht => ?_, (congrArg Seating.idle hseat).trans h.home⟩
  have hid := congrFun hnumber t
  simp only [ht, Option.map_some] at hid
  obtain ⟨th', ht', he⟩ := Option.map_eq_some_iff.mp hid.symm
  rw [hnext, ← he]
  exact h.number t th' ht'

theorem quiet (h : k.Poised σ) (hq : Quiet k k') : k'.Poised σ := by
  refine h.congr ?_
  simp only [stance, hq.seating, hq.threads, hq.nextThread]

/-- The seating is another one, with the rules in order, and nothing else of importance changed. -/
theorem reseat (h : k.Poised σ) (hs : k'.seating.aside.Sound σ')
    (hn : ∀ t : ThreadId, (k'.threads[t]?).map Thread.id = (k.threads[t]?).map Thread.id)
    (hnext : k'.nextThread = k.nextThread) (hidle : k'.idle = k.idle) : k'.Poised σ' := by
  refine ⟨hs, fun t th ht => ?_, hidle.trans h.home⟩
  have hid := hn t
  simp only [ht, Option.map_some] at hid
  obtain ⟨th', ht', he⟩ := Option.map_eq_some_iff.mp hid.symm
  rw [hnext, ← he]
  exact h.number t th' ht'

theorem running_id (h : k.Poised σ) {th : Thread} (hr : k.running = .ok th) :
    th.id = k.current ∧ k.threads[k.current]? = some th := by
  obtain ⟨hth, -, -⟩ := running_eq_ok.mp hr
  exact ⟨(h.number _ _ hth).1, hth⟩

theorem fresh (h : k.Poised σ) : k.threads[k.nextThread]? = none := by
  cases hth : k.threads[k.nextThread]? with
  | none => rfl
  | some th => exact absurd (h.number _ _ hth).2 (lt_irrefl _)

theorem stand (h : k.Poised .running) (hσ : σ ≠ .ready) : k.Poised σ :=
  ⟨h.seating.stand hσ, h.number, h.home⟩

theorem current_stands (h : k.Poised .running) : k.seating.aside.Stands k.current :=
  h.seating.current_stands Seat.state_ne_running

/-- A thread that sits in the queue of an object is not at work, and it is blocked. -/
theorem blocked (h : k.Poised .running) (hp : p ≠ .ready) (ht : t ∈ k.seating.queue p)
    (hi : t ≠ k.idle) : t ≠ k.current ∧ k.seating.state t = some .blocked := by
  have hm : t ∈ k.seating.aside.queue p := Seating.mem_aside.mpr ⟨ht, hi⟩
  have hc : t ≠ k.current := by
    rintro rfl
    exact h.current_stands p hm
  have hs := h.seating.seated t p hm
  rw [Seating.about_of_ne hc] at hs
  refine ⟨hc, hs.trans ?_⟩
  cases p with
  | ready => exact absurd rfl hp
  | _ => rfl

/-! ## Seats that are left and taken -/

/-- A thread leaves the queue of an object. -/
theorem leave (h : k.Poised σ) (hr : p ≠ .ready) (hs : p ≠ .sleep)
    (hseat : k'.seating = k.seating.setQueue p ((k.seating.queue p).erase t))
    (hthreads : k'.threads = k.threads) (hnext : k'.nextThread = k.nextThread) :
    k'.Poised σ := by
  refine h.reseat ?_ (fun t => by rw [hthreads]) hnext (congrArg Seating.idle hseat)
  rw [hseat, Seating.aside_leave]
  exact h.seating.leave hr hs t

theorem stands_leave (h : k.Poised σ) (ht : t ∈ k.seating.queue p) (hi : t ≠ k.idle)
    (hseat : k'.seating = k.seating.setQueue p ((k.seating.queue p).erase t)) :
    k'.seating.aside.Stands t := by
  rw [hseat, Seating.aside_leave]
  exact h.seating.stands_of_leave (Seating.mem_aside.mpr ⟨ht, hi⟩)

/-- A thread joins the queue of an object. If it is not the idle one, it is about to be blocked and
sits nowhere yet. -/
theorem join (h : k.Poised σ) (hp : p.state = .blocked) (hs : p ≠ .sleep)
    (hb : t ≠ k.idle → k.seating.aside.about σ t = some .blocked ∧ k.seating.aside.Stands t)
    (hseat : k'.seating = k.seating.setQueue p (k.seating.queue p ++ [t]))
    (hthreads : k'.threads = k.threads) (hnext : k'.nextThread = k.nextThread) :
    k'.Poised σ := by
  refine h.reseat ?_ (fun t => by rw [hthreads]) hnext (congrArg Seating.idle hseat)
  rw [hseat]
  by_cases hi : t = k.idle
  · rw [hi]
    exact (Seating.aside_join_idle k.seating p).symm ▸ h.seating
  · obtain ⟨hb, ht⟩ := hb hi
    rw [Seating.aside_join hi]
    refine h.seating.sit (hp ▸ hb) hi ht ?_ hs
    rintro rfl
    cases hp

/-- The thread at work joins the queue of an object, and is about to be blocked. -/
theorem sit (h : k.Poised .running) (hp : p.state = .blocked) (hs : p ≠ .sleep)
    (hseat : k'.seating = k.seating.setQueue p (k.seating.queue p ++ [k.current]))
    (hthreads : k'.threads = k.threads) (hnext : k'.nextThread = k.nextThread) :
    k'.Poised .blocked :=
  (h.stand (by decide)).join hp hs (fun _ => ⟨Seating.about_current _ _, h.current_stands⟩) hseat
    hthreads hnext

/-- The queue of an object is empty then. -/
theorem clear (h : k.Poised σ) (hr : p ≠ .ready) (hs : p ≠ .sleep)
    (hseat : k'.seating = k.seating.setQueue p []) (hthreads : k'.threads = k.threads)
    (hnext : k'.nextThread = k.nextThread) : k'.Poised σ := by
  refine h.reseat ?_ (fun t => by rw [hthreads]) hnext (congrArg Seating.idle hseat)
  rw [hseat, Seating.aside_setQueue]
  exact h.seating.clear hr hs

/-- A thread that is blocked and sits nowhere becomes ready. -/
theorem unblock (h : k.Poised σ) (ht : k.seating.aside.Stands t)
    (hu : Core.unblock t k = .ok u k') : k'.Poised σ := by
  obtain ⟨hi, m, th, hq, hth, hs, hq'⟩ := unblock_eq_ok hu
  have hm := h.quiet hq
  rw [← hq.seating] at ht
  rw [← hq.idle] at hi
  refine Poised.quiet ?_ hq'
  refine hm.reseat ?_ (fun v => ?_) rfl rfl
  · rw [seating_ready, seating_state hth]
    have hj := Seating.aside_join (s := m.seating.setState t (some .ready)) hi .ready
    show (Seating.aside ((m.seating.setState t (some .ready)).setQueue .ready
      ((m.seating.setState t (some .ready)).queue .ready ++ [t]))).Sound σ
    rw [hj]
    exact hm.seating.makeReady (by rw [← hs]; exact state_eq hth) hi ht
  · exact map_getElem?_mapThread (k := m) (t := t) (f := fun th => { th with state := .ready })
      (g := Thread.id) (fun _ => rfl) v

/-- The thread at work takes the end of the ready queue, and is about to be ready. -/
theorem lineUp (h : k.Poised .running) (hi : k.current ≠ k.idle)
    (he : enqueueReady k.current k = .ok u k') : k'.Poised .ready := by
  obtain ⟨-, rfl⟩ := enqueueReady_eq_ok.mp he
  refine h.reseat ?_ (fun _ => rfl) rfl rfl
  have hj := Seating.aside_join (s := k.seating) hi .ready
  rw [seating_ready]
  show (Seating.aside (k.seating.setQueue .ready (k.seating.queue .ready ++ [k.current]))).Sound
    .ready
  rw [hj]
  exact h.seating.lineUp hi

/-- The thread at work goes to sleep. -/
theorem goToSleep (h : k.Poised .running) (hi : k.current ≠ k.idle) {tick : Nat} {q : Queue}
    (hq : q.entries = k.sleepers.entries ++ [k.current])
    (hlive : ∃ th, k.threads[k.current]? = some th) :
    Poised { (k.mapThread k.current fun th => { th with wakeAt := some tick }) with sleepers := q }
      .blocked := by
  obtain ⟨th, hth⟩ := hlive
  refine h.reseat ?_ (fun v => ?_) rfl rfl
  · rw [seating_sleepers, seating_wakeAt hth, hq]
    have hj := Seating.aside_join (s := k.seating.setWakeAt k.current (some tick)) hi .sleep
    show (Seating.aside ((k.seating.setWakeAt k.current (some tick)).setQueue .sleep
      ((k.seating.setWakeAt k.current (some tick)).queue .sleep ++ [k.current]))).Sound .blocked
    rw [hj]
    exact h.seating.goToSleep hi tick
  · exact map_getElem?_mapThread (k := k) (t := k.current)
      (f := fun th => { th with wakeAt := some tick }) (g := Thread.id) (fun _ => rfl) v

/-- A sleeper leaves the list, and its tick is forgotten. -/
theorem wake (h : k.Poised σ) {th : Thread} (hth : k.threads[t]? = some th) :
    Poised (({ k with sleepers := k.sleepers.remove t } : Core).mapThread t
      fun th => { th with wakeAt := none }) σ := by
  refine h.reseat ?_ (fun v => ?_) rfl rfl
  · rw [seating_wakeAt (k := { k with sleepers := k.sleepers.remove t }) hth, seating_sleepers]
    show (Seating.aside ((k.seating.setQueue .sleep ((k.seating.queue .sleep).erase t)).setWakeAt t
      none)).Sound σ
    have hl := Seating.aside_leave k.seating .sleep t
    show ((Seating.aside (k.seating.setQueue .sleep ((k.seating.queue .sleep).erase t))).setWakeAt t
      none).Sound σ
    rw [hl]
    exact h.seating.wake t
  · exact map_getElem?_mapThread (k := { k with sleepers := k.sleepers.remove t }) (t := t)
      (f := fun th => { th with wakeAt := none }) (g := Thread.id) (fun _ => rfl) v

/-! ## The end of a turn -/

theorem seating_turned (h : k.Poised σ) (ht : k.Chooses t) (hlive : ∃ th, k.threads[t]? = some th)
    (hd : σ = .dying → k.current ≠ k.idle) :
    (k.turned σ t).seating.aside = k.seating.aside.turn σ t := by
  obtain ⟨cth, hc⟩ : ∃ th, k.threads[k.current]? = some th := by
    obtain ⟨th, hth, -⟩ := live_of_state (k := k) h.seating.current_running
    exact ⟨th, hth⟩
  have hne : σ = .dying → k.current ≠ t := by
    rintro hσ rfl
    rcases ht.mem with hm | hi
    · refine h.seating.current_stands (fun p => hσ ▸ p.state_ne_dying) .ready ?_
      exact Seating.mem_aside.mpr ⟨hm, hd hσ⟩
    · exact hd hσ hi
  have hwake : σ = .dying → k.seating.wakeAt k.current = none := by
    intro hσ
    have hno := h.seating.current_stands (fun p => hσ ▸ p.state_ne_dying) .sleep
    have hiff := h.seating.wakeAt_iff k.seating.aside.current
    show k.seating.aside.wakeAt k.seating.aside.current = none
    simpa [hno] using hiff
  rw [← Seating.aside_turn, seating_turned_of hlive ⟨cth, hc⟩ hne hwake]

/-- The end of a turn. -/
theorem endTurn (h : k.Poised σ) (hσ : σ ≠ .running) (hd : σ = .dying → k.current ≠ k.idle)
    (he : Core.endTurn σ k = .ok u k') : k'.Poised .running := by
  obtain ⟨m, t, hq, hch, hlive, ha⟩ := endTurn_alike he
  have hm := h.quiet hq
  have hdm : σ = .dying → m.current ≠ m.idle := by rwa [hq.current, hq.idle]
  have hseat := congrArg Seating.aside ha.seating
  rw [hm.seating_turned hch hlive hdm] at hseat
  have hmem : t ∈ m.seating.aside.queue .ready ∨ t = m.seating.aside.idle := by
    by_cases hi : t = m.idle
    · exact .inr hi
    · exact .inl (Seating.mem_aside.mpr ⟨hch.mem.resolve_right hi, hi⟩)
  constructor
  · rw [hseat]
    exact hm.seating.turn hσ hmem hdm
  · -- Nobody has new ties, though the current thread may have lost its own.
    have hes := endTurn_estate he
    have hnext : k'.nextThread = k.nextThread := by
      split at hes <;> exact congrArg Estate.nextThread hes
    have hties : ∀ v x, k'.ties v = some x → k.ties v = some x := by
      intro v x hx
      split at hes
      · have hu : k'.ties = Function.update k.ties k.current none := congrArg Estate.ties hes
        rw [hu, Function.update_apply] at hx
        split at hx
        · cases hx
        · exact hx
      · rwa [show k'.ties = k.ties from congrArg Estate.ties hes] at hx
    intro v th hv
    have hx := hties v (th.id, th.family) (by rw [ties, hv]; rfl)
    obtain ⟨th', hth', he'⟩ := Option.map_eq_some_iff.mp hx
    obtain ⟨hid, -⟩ := Prod.mk.inj he'
    rw [hnext, ← hid]
    exact h.number v th' hth'
  · exact (congrArg Seating.idle ha.seating).trans hm.home

/-- The end of a turn of a thread that lives on. -/
theorem pause (h : k.Poised σ) (hσ : σ ≠ .running) (hd : σ ≠ .dying)
    (he : Core.endTurn σ k = .ok u k') : k'.Poised .running :=
  h.endTurn hσ (fun hσ => absurd hσ hd) he

end Poised

/-! ## Steps that move nobody -/

theorem Quiet.stance (h : Quiet k k') : k'.stance = k.stance := by
  simp only [Core.stance, h.seating, h.threads, h.nextThread]

theorem discreet_stance : Discreet fun _ => Keeps stance :=
  discreet_of_quiet fun _ _ => Quiet.stance

theorem stance_mapThread {f : Thread → Thread} (hs : ∀ th, (f th).state = th.state)
    (hw : ∀ th, (f th).wakeAt = th.wakeAt) (hid : ∀ th, (f th).id = th.id) :
    (k.mapThread t f).stance = k.stance := by
  unfold stance
  rw [seating_mapThread hs hw]
  exact congrArg (fun n => (k.seating, n, k.nextThread))
    (funext fun v => map_getElem?_mapThread (g := Thread.id) hid v)

theorem stance_changeThread (t : ThreadId) {f : Thread → Thread}
    (hs : ∀ th, (f th).state = th.state) (hw : ∀ th, (f th).wakeAt = th.wakeAt)
    (hid : ∀ th, (f th).id = th.id) :
    Keeps stance (changeThread t f) := by
  intro k _ k' h
  obtain ⟨-, rfl⟩ := changeThread_eq_ok.mp h
  exact stance_mapThread hs hw hid

theorem stance_changeFamily (t : ThreadId) (f : Family → Family) :
    Keeps stance (changeFamily t f) :=
  stance_changeThread t (fun _ => rfl) (fun _ => rfl) fun _ => rfl

theorem stance_refreshPriority (t : ThreadId) : Keeps stance (refreshPriority t) :=
  discreet_stance.refreshPriority t fun _ =>
    stance_changeThread t (fun _ => rfl) (fun _ => rfl) fun _ => rfl

theorem stance_addDonor (t d : ThreadId) : Keeps stance (addDonor t d) :=
  discreet_stance.addDonor t d fun _ =>
    stance_changeThread t (fun _ => rfl) (fun _ => rfl) fun _ => rfl

theorem stance_donateAlong (d : ThreadId) (links : Nat) (waiter : ThreadId) :
    Keeps stance (donateAlong d links waiter) :=
  discreet_stance.donateAlong d links waiter stance_refreshPriority

theorem stance_mapSemaphore {o : Semaphore} {f : Semaphore → Semaphore}
    (ho : k.objects.semaphores[s]? = some o) (hf : (f o).waiters = o.waiters) :
    (k.mapSemaphore s f).stance = k.stance := by
  unfold stance
  rw [(alike_mapSemaphore ho hf).seating]
  rfl

theorem stance_mapLock {o : Lock} {f : Lock → Lock} (ho : k.objects.locks[l]? = some o)
    (hf : (f o).waiters = o.waiters) : (k.mapLock l f).stance = k.stance := by
  have hs : (k.mapLock l f).seating = k.seating := by
    rw [seating_mapLock ho, hf, ← queue_lock ho]
    exact congrArg (fun q => ({ k.seating with queue := q } : Seating)) (Function.update_eq_self ..)
  unfold stance
  rw [hs]
  rfl

namespace Poised

theorem live_current (h : k.Poised σ) : ∃ th, k.threads[k.current]? = some th := by
  obtain ⟨th, hth, -⟩ := live_of_state (k := k) h.seating.current_running
  exact ⟨th, hth⟩

/-! ## Scheduling -/

theorem yieldNow (h : k.Poised .running) (he : Core.yieldNow k = .ok u k') :
    k'.Poised .running := by
  unfold Core.yieldNow at he
  simp only [outsideHandler_bind_eq_ok, ask_bind_eq_ok] at he
  obtain ⟨-, th, hr, he⟩ := he
  rw [(h.running_id hr).1] at he
  obtain ⟨m, m', hq, he, hq'⟩ := masked_eq_ok he
  have hm := h.quiet hq
  rw [← hq.current] at he
  refine Poised.quiet ?_ hq'
  rw [get_bind_eq_ok] at he
  split at he
  · exact (hm.stand (by decide)).pause (by decide) (by decide) he
  · rename_i hi
    rw [bind_eq_ok] at he
    obtain ⟨_, n, hn, he⟩ := he
    exact (hm.lineUp hi hn).pause (by decide) (by decide) he

theorem preempt (h : k.Poised .running) (he : Core.preempt k = .ok u k') : k'.Poised .running := by
  unfold Core.preempt at he
  simp only [ask_bind_eq_ok] at he
  obtain ⟨b, -, he⟩ := he
  split at he
  · rw [get_bind_eq_ok] at he
    split at he
    · rw [modify_eq_ok] at he
      subst he
      exact h.congr rfl
    · exact h.yieldNow he
  · obtain ⟨-, rfl⟩ := pure_eq_ok.mp he
    exact h

theorem block (h : k.Poised .running) (he : Core.block k = .ok u k') : k'.Poised .running := by
  unfold Core.block at he
  simp only [outsideHandler_bind_eq_ok, get_bind_eq_ok, demand_bind_eq_ok] at he
  exact (h.stand (by decide)).pause (by decide) (by decide) he.2.2

/-! ## Semaphores -/

theorem down (h : k.Poised .running) (he : Core.down s k = .ok u k') : k'.Poised .running := by
  unfold Core.down at he
  simp only [ask_bind_eq_ok] at he
  obtain ⟨th, hr, he⟩ := he
  rw [(h.running_id hr).1] at he
  obtain ⟨m, m', hq, he, hq'⟩ := masked_eq_ok he
  have hm := h.quiet hq
  rw [← hq.current] at he
  refine Poised.quiet ?_ hq'
  simp only [ask_bind_eq_ok, semaphore_eq_ok_iff] at he
  obtain ⟨o, ho, he⟩ := he
  split at he
  · obtain ⟨-, rfl⟩ := changeSemaphore_eq_ok.mp he
    exact hm.congr (stance_mapSemaphore ho rfl)
  · simp only [outsideHandler_bind_eq_ok, ask_bind_eq_ok, changeSemaphore_bind_eq_ok,
      Queue.push_eq_ok_iff] at he
    obtain ⟨-, w, ⟨-, hw⟩, -, he⟩ := he
    rw [bind_eq_ok] at he
    obtain ⟨_, n, hn, he⟩ := he
    refine (Poised.quiet ?_ (quiet_say hn)).pause (by decide) (by decide) he
    refine hm.sit (p := .semaphore s) rfl (by simp) ?_ rfl rfl
    rw [seating_mapSemaphore ho, queue_semaphore ho, hw]

/-- A thread that finds no unit is blocked in the queue then, and another one runs. -/
theorem down_empty (h : k.Poised .running) (hi : k.current ≠ k.idle) {x : Semaphore}
    (hx : k.objects.semaphores[s]? = some x) (hv : x.value = 0) (he : Core.down s k = .ok u k') :
    k.current ∈ k'.seating.queue (.semaphore s) ∧ k'.current ≠ k.current ∧
      k'.seating.state k.current = some .blocked := by
  obtain ⟨th, y, hr, hy, hs, -⟩ := down_sets he
  obtain rfl := Option.some.inj (hx.symm.trans hy)
  rw [(h.running_id hr).1, Semaphore.taken_of_zero hv] at hs
  have hmem : k.current ∈ k'.seating.queue (.semaphore s) := by
    rw [queue_semaphore ((hs.semaphores s).trans (if_pos rfl))]
    exact List.mem_append_right _ (List.mem_singleton_self _)
  have h' := h.down he
  rw [h.home, ← h'.home] at hi
  obtain ⟨hne, hb⟩ := h'.blocked (p := .semaphore s) (by simp) hmem hi
  exact ⟨hmem, hne.symm, hb⟩

theorem tryDown (h : k.Poised .running) {a : Except WouldBlock Unit}
    (he : Core.tryDown s k = .ok a k') : k'.Poised .running := by
  unfold Core.tryDown at he
  obtain ⟨m, m', hq, he, hq'⟩ := masked_eq_ok he
  refine Poised.quiet ?_ hq'
  simp only [ask_bind_eq_ok, semaphore_eq_ok_iff] at he
  obtain ⟨o, ho, he⟩ := he
  split at he
  · simp only [changeSemaphore_bind_eq_ok, pure_eq_ok] at he
    obtain ⟨-, -, rfl⟩ := he
    exact (h.quiet hq).congr (stance_mapSemaphore ho rfl)
  · exact (pure_eq_ok.mp he).2 ▸ h.quiet hq

theorem wakeOne (h : k.Poised σ) {r : Option ThreadId} (he : Core.wakeOne s k = .ok r k') :
    k'.Poised σ := by
  unfold Core.wakeOne at he
  simp only [ask_bind_eq_ok, semaphore_eq_ok_iff, mostUrgent_eq_ok] at he
  obtain ⟨o, ho, next, ⟨-, hnext⟩, he⟩ := he
  cases next with
  | some t =>
    have hmem : t ∈ k.seating.queue (.semaphore s) := by
      rw [queue_semaphore ho]
      exact Queue.mem_of_foremostOf hnext
    simp only [changeSemaphore_bind_eq_ok] at he
    simp only [bind_eq_ok, pure_eq_ok] at he
    obtain ⟨-, _, m, hm, -, rfl⟩ := he
    have hseat :
        (k.mapSemaphore s fun sema => { sema with waiters := sema.waiters.remove t }).seating =
        k.seating.setQueue (.semaphore s) ((k.seating.queue (.semaphore s)).erase t) := by
      rw [seating_mapSemaphore ho, queue_semaphore ho]
      rfl
    have hl := h.leave (p := .semaphore s) (by simp) (by simp) hseat rfl rfl
    refine hl.unblock ?_ hm
    exact h.stands_leave hmem (unblock_eq_ok hm).1 hseat
  | none =>
    simp only [bind_eq_ok, increment_eq_ok, changeSemaphore_eq_ok, pure_eq_ok] at he
    obtain ⟨_, m, ⟨-, rfl, rfl⟩, _, _, ⟨-, rfl⟩, -, rfl⟩ := he
    exact h.congr (stance_mapSemaphore ho rfl)

theorem up (h : k.Poised .running) (he : Core.up s k = .ok u k') : k'.Poised .running := by
  unfold Core.up at he
  rw [bind_eq_ok] at he
  obtain ⟨r, n, hn, he⟩ := he
  obtain ⟨m, m', hq, hw, hq'⟩ := masked_eq_ok hn
  have hm := ((h.quiet hq).wakeOne hw).quiet hq'
  split at he
  · exact hm.preempt he
  · exact (pure_eq_ok.mp he).2 ▸ hm

/-! ## Sleep -/

theorem sleepUntil (h : k.Poised .running) {tick : Nat} (he : Core.sleepUntil tick k = .ok u k') :
    k'.Poised .running := by
  unfold Core.sleepUntil at he
  simp only [outsideHandler_bind_eq_ok, ask_bind_eq_ok, get_bind_eq_ok] at he
  obtain ⟨-, th, hr, he⟩ := he
  rw [(h.running_id hr).1] at he
  split at he
  · exact (pure_eq_ok.mp he).2 ▸ h
  · rename_i hne
    obtain ⟨m, m', hq, he, hq'⟩ := masked_eq_ok he
    refine Poised.quiet ?_ hq'
    rw [← hq.current, changeThread_bind_eq_ok] at he
    obtain ⟨hlive, he⟩ := he
    simp only [ask_bind_eq_ok, modify_bind_eq_ok, Queue.push_eq_ok_iff] at he
    obtain ⟨q, ⟨-, hentries⟩, he⟩ := he
    rw [bind_eq_ok] at he
    obtain ⟨_, n, hn, he⟩ := he
    have hi : m.current ≠ m.idle := by
      rw [hq.current, hq.idle]
      exact fun e => hne (.inl e)
    exact (((h.quiet hq).goToSleep hi hentries hlive).quiet (quiet_say hn)).pause (by decide)
      (by decide) he

theorem sleepFor (h : k.Poised .running) {ticks : Nat} (he : Core.sleepFor ticks k = .ok u k') :
    k'.Poised .running := by
  rw [Core.sleepFor, get_bind_eq_ok] at he
  exact h.sleepUntil he

theorem wakeDue {now n r : Nat} (h : k.Poised σ) (he : Core.wakeDue now n k = .ok r k') :
    k'.Poised σ := by
  induction n generalizing k r with
  | zero => exact (pure_eq_ok.mp he).2 ▸ h
  | succ n ih =>
    unfold Core.wakeDue earliestSleeper checkLive at he
    simp only [ask_bind_eq_ok, except_bind_ok, demand_ok, except_pure_ok] at he
    obtain ⟨next, ⟨_, -, hnext⟩, he⟩ := he
    cases next with
    | none => exact (pure_eq_ok.mp he).2 ▸ h
    | some t =>
      have hmem : t ∈ k.seating.queue .sleep := Queue.mem_of_foremostOf hnext
      simp only [ask_bind_eq_ok, thread_eq_ok_iff] at he
      obtain ⟨th, hth, he⟩ := he
      split at he
      · exact (pure_eq_ok.mp he).2 ▸ h
      · simp only [modify_bind_eq_ok, changeThread_bind_eq_ok] at he
        simp only [bind_eq_ok, pure_eq_ok] at he
        obtain ⟨-, _, m, hm, _, m', hm', count, m'', hrest, -, rfl⟩ := he
        refine ih (((h.wake hth).unblock ?_ hm).quiet (quiet_say hm')) hrest
        have hi : t ≠ k.idle := (unblock_eq_ok hm).1
        have hseat : ({ k with sleepers := k.sleepers.remove t } : Core).seating =
            k.seating.setQueue .sleep ((k.seating.queue .sleep).erase t) := seating_sleepers _
        have hstands := h.stands_leave hmem hi hseat
        rw [seating_wakeAt (k := { k with sleepers := k.sleepers.remove t }) hth]
        exact hstands

theorem wakeSleepers (h : k.Poised .running) {now r : Nat}
    (he : Core.wakeSleepers now k = .ok r k') : k'.Poised .running := by
  unfold Core.wakeSleepers at he
  rw [bind_eq_ok] at he
  obtain ⟨woken, n, hn, he⟩ := he
  obtain ⟨m, m', hq, hw, hq'⟩ := masked_eq_ok hn
  rw [get_bind_eq_ok] at hw
  have hm := ((h.quiet hq).wakeDue hw).quiet hq'
  split at he
  · simp only [bind_eq_ok, pure_eq_ok] at he
    obtain ⟨_, n', hp, -, rfl⟩ := he
    exact hm.preempt hp
  · exact (pure_eq_ok.mp he).2 ▸ hm

/-! ## Locks and condition variables -/

theorem setPriority (h : k.Poised .running) {p : Priority} (he : Core.setPriority p k = .ok u k') :
    k'.Poised .running := by
  unfold Core.setPriority at he
  simp only [bind_eq_ok (x := checkPriority p), ask_bind_eq_ok] at he
  obtain ⟨_, m, hm, th, -, he⟩ := he
  obtain rfl : k = m := (demand_eq_ok.mp hm).2
  rw [bind_eq_ok] at he
  obtain ⟨_, n, hn, he⟩ := he
  obtain ⟨m, m', hq, hn, hq'⟩ := masked_eq_ok hn
  have hstance : Keeps stance (do
      changeThread th.id fun th => { th with base := p }
      let _ ← refreshPriority th.id : CoreM Unit) :=
    .bind (stance_changeThread _ (fun _ => rfl) (fun _ => rfl) fun _ => rfl) fun _ =>
      (stance_refreshPriority _).bind fun _ => keeps_pure _
  exact (((h.quiet hq).congr (hstance _ _ _ hn)).quiet hq').preempt he

/-- A thread that is about to be blocked, if it is not the idle one, joins the queue of a lock. -/
theorem waitForLock (h : k.Poised σ) {holder : ThreadId}
    (hb : t ≠ k.idle → k.seating.aside.about σ t = some .blocked ∧ k.seating.aside.Stands t)
    (he : Core.waitForLock t l holder k = .ok u k') : k'.Poised σ := by
  unfold Core.waitForLock at he
  simp only [ask_bind_eq_ok, except_bind_ok, lock_eq_ok_iff, Queue.push_eq_ok_iff,
    changeLock_bind_eq_ok] at he
  obtain ⟨q, ⟨o, ho, -, hq⟩, -, he⟩ := he
  have hj : (k.mapLock l fun lk => { lk with waiters := q }).Poised σ := by
    refine h.join (p := .lock l) rfl (by simp) hb ?_ rfl rfl
    rw [seating_mapLock ho, queue_lock ho, hq]
  have hstance : Keeps stance (do
      changeThread t fun th => { th with waitsFor := some l }
      addDonor holder t
      donate t : CoreM Unit) :=
    .bind (stance_changeThread _ (fun _ => rfl) (fun _ => rfl) fun _ => rfl) fun _ =>
      (stance_addDonor _ _).bind fun _ => keeps_get.bind fun _ => stance_donateAlong _ _ _
  exact hj.congr (hstance _ _ _ he)

theorem acquire (h : k.Poised .running) (he : Core.acquire l k = .ok u k') :
    k'.Poised .running := by
  unfold Core.acquire at he
  simp only [outsideHandler_bind_eq_ok, ask_bind_eq_ok] at he
  obtain ⟨-, th, hr, he⟩ := he
  rw [(h.running_id hr).1] at he
  obtain ⟨m, m', hq, he, hq'⟩ := masked_eq_ok he
  have hm := h.quiet hq
  rw [← hq.current] at he
  refine Poised.quiet ?_ hq'
  simp only [ask_bind_eq_ok, lock_eq_ok_iff] at he
  obtain ⟨o, ho, he⟩ := he
  cases hh : o.holder with
  | none =>
    simp only [hh, changeLock_eq_ok] at he
    obtain ⟨-, rfl⟩ := he
    exact hm.congr (stance_mapLock ho rfl)
  | some holder =>
    simp only [hh, demand_bind_eq_ok] at he
    simp only [bind_eq_ok] at he
    obtain ⟨-, _, n, hn, _, n', hn', he⟩ := he
    have hm' : m.Poised .blocked := hm.stand (by decide)
    have hw := hm'.waitForLock (fun _ => ⟨Seating.about_current _ _, hm.current_stands⟩) hn
    exact (hw.quiet (quiet_say hn')).pause (by decide) (by decide) he

theorem tryAcquire (h : k.Poised .running) {a : Except WouldBlock Unit}
    (he : Core.tryAcquire l k = .ok a k') : k'.Poised .running := by
  unfold Core.tryAcquire at he
  simp only [ask_bind_eq_ok] at he
  obtain ⟨th, -, he⟩ := he
  obtain ⟨m, m', hq, he, hq'⟩ := masked_eq_ok he
  refine Poised.quiet ?_ hq'
  simp only [ask_bind_eq_ok, lock_eq_ok_iff] at he
  obtain ⟨o, ho, he⟩ := he
  cases hh : o.holder with
  | none =>
    simp only [hh, changeLock_bind_eq_ok, pure_eq_ok] at he
    obtain ⟨-, -, rfl⟩ := he
    exact (h.quiet hq).congr (stance_mapLock ho rfl)
  | some holder =>
    simp only [hh, pure_eq_ok] at he
    exact he.2 ▸ h.quiet hq

theorem passOn (h : k.Poised σ) {holder : ThreadId} {r : Option ThreadId}
    (he : Core.passOn l holder k = .ok r k') : k'.Poised σ := by
  unfold Core.passOn at he
  simp only [ask_bind_eq_ok, lock_eq_ok_iff, demand_bind_eq_ok, changeLock_bind_eq_ok] at he
  obtain ⟨o, ho, -, -, he⟩ := he
  have h₁ : (k.mapLock l fun lk => { lk with holder := none }).Poised σ :=
    h.congr (stance_mapLock ho rfl)
  have ho₁ : (k.mapLock l fun lk => { lk with holder := none }).objects.locks[l]? =
      some { o with holder := none } := by
    rw [getElem?_mapLock, if_pos rfl, ho]
    rfl
  rw [bind_eq_ok] at he
  obtain ⟨_, m₁, hm₁, he⟩ := he
  rw [bind_eq_ok] at he
  obtain ⟨_, m₂, hm₂, he⟩ := he
  have hchange : Keeps stance (changeThread holder fun th =>
      { th with donors := th.donors.keep fun donor => donor ∉ o.waiters }) :=
    stance_changeThread _ (fun _ => rfl) (fun _ => rfl) fun _ => rfl
  have h₂ := (h₁.congr (hchange _ _ _ hm₁)).congr (stance_refreshPriority _ _ _ _ hm₂)
  have ho₂ : m₂.objects.locks[l]? = some { o with holder := none } := by
    have e₁ := keeps_changeThread holder (f := fun th =>
      { th with donors := th.donors.keep fun donor => donor ∉ o.waiters }) (fun _ => rfl)
      (fun _ => rfl) _ _ _ hm₁
    have e₂ := keeps_refreshPriority _ _ _ _ hm₂
    rw [show m₂.objects = _ from congrArg Estate.objects (e₂.trans e₁)]
    exact ho₁
  simp only [ask_bind_eq_ok, mostUrgent_eq_ok] at he
  obtain ⟨next, ⟨-, hnext⟩, he⟩ := he
  cases next with
  | none => exact (pure_eq_ok.mp he).2 ▸ h₂
  | some next =>
    have hmem : next ∈ m₂.seating.queue (.lock l) := by
      rw [queue_lock ho₂]
      exact Queue.mem_of_foremostOf hnext
    simp only [changeLock_bind_eq_ok] at he
    simp only [bind_eq_ok, pure_eq_ok] at he
    obtain ⟨-, _, m₃, hm₃, _, m₄, hm₄, _, m₅, hm₅, _, m₆, hm₆, _, m₇, hm₇, -, rfl⟩ := he
    have hseat : (m₂.mapLock l fun lk =>
        { lk with holder := some next, waiters := lk.waiters.remove next }).seating =
        m₂.seating.setQueue (.lock l) ((m₂.seating.queue (.lock l)).erase next) := by
      rw [seating_mapLock ho₂, queue_lock ho₂]
      rfl
    have hwait : Keeps stance (changeThread next fun th => { th with waitsFor := none }) :=
      stance_changeThread _ (fun _ => rfl) (fun _ => rfl) fun _ => rfl
    have e := ((stance_refreshPriority _ _ _ _ hm₅).trans
      (keeps_forM (fun _ => stance_addDonor _ _) _ _ _ _ hm₄)).trans (hwait _ _ _ hm₃)
    have hl := (h₂.leave (p := .lock l) (by simp) (by simp) hseat rfl rfl).congr e
    have hseat₅ : m₅.seating = _ := (congrArg Prod.fst e).trans hseat
    have hi : next ≠ m₂.idle := by
      have := (unblock_eq_ok hm₆).1
      rwa [show m₅.idle = m₂.idle from congrArg Seating.idle hseat₅] at this
    exact (hl.unblock (h₂.stands_leave hmem hi hseat₅) hm₆).quiet (quiet_say hm₇)

theorem release (h : k.Poised .running) (he : Core.release l k = .ok u k') :
    k'.Poised .running := by
  unfold Core.release at he
  simp only [ask_bind_eq_ok] at he
  obtain ⟨th, -, he⟩ := he
  rw [bind_eq_ok] at he
  obtain ⟨_, n, hn, he⟩ := he
  obtain ⟨m, m', hq, hn, hq'⟩ := masked_eq_ok hn
  exact (((h.quiet hq).passOn hn).quiet hq').preempt he

/-- The thread at work sits down in the queue of a condition variable and passes its lock on. -/
theorem sitAndPassOn (h : k.Poised .running) (ht : t = k.current)
    (he : (do
      let waiters ← ask fun k => do (← k.condition c).waiters.push t
      changeCondition c fun cond => { cond with waiters := waiters }
      let _ ← Core.passOn l t
      say (.waits t (.condition c))
      Core.endTurn .blocked : CoreM Unit) k = .ok u k') : k'.Poised .running := by
  subst ht
  simp only [ask_bind_eq_ok, except_bind_ok, condition_eq_ok_iff, Queue.push_eq_ok_iff,
    changeCondition_bind_eq_ok] at he
  obtain ⟨w, ⟨o, ho, -, hw⟩, -, he⟩ := he
  simp only [bind_eq_ok] at he
  obtain ⟨_, m, hm, _, m', hm', he⟩ := he
  have hj : (k.mapCondition c fun cond => { cond with waiters := w }).Poised .blocked := by
    refine h.sit (p := .condition c) rfl (by simp) ?_ rfl rfl
    rw [seating_mapCondition ho, queue_condition ho, hw]
  exact ((hj.passOn hm).quiet (quiet_say hm')).pause (by decide) (by decide) he

theorem await (h : k.Poised .running) (he : Core.await c l k = .ok u k') : k'.Poised .running := by
  unfold Core.await at he
  simp only [outsideHandler_bind_eq_ok, bind_eq_ok (x := checkHeld _ _ _)] at he
  obtain ⟨-, _, _, hc, he⟩ := he
  obtain ⟨rfl, -⟩ := checkHeld_eq_ok hc
  simp only [ask_bind_eq_ok] at he
  obtain ⟨th, hr, he⟩ := he
  obtain ⟨hid, -⟩ := h.running_id hr
  obtain ⟨m, m', hq, he, hq'⟩ := masked_eq_ok he
  have hm := h.quiet hq
  refine Poised.quiet ?_ hq'
  simp only [ask_bind_eq_ok (f := fun x => _), condition_eq_ok_iff] at he
  obtain ⟨o, ho, he⟩ := he
  cases hb : o.lock with
  | some bound =>
    simp only [hb, demand_bind_eq_ok] at he
    exact hm.sitAndPassOn (hid.trans hq.current.symm) he.2
  | none =>
    simp only [hb, changeCondition_bind_eq_ok] at he
    have hs : (m.mapCondition c fun cond => { cond with lock := some l }).stance = m.stance := by
      unfold stance
      rw [(alike_mapCondition ho rfl).seating]
      rfl
    exact (hm.congr hs).sitAndPassOn (hid.trans hq.current.symm) he.2

theorem signalOne (h : k.Poised .running) {r : Option ThreadId}
    (he : Core.signalOne c l k = .ok r k') : k'.Poised .running := by
  unfold Core.signalOne at he
  simp only [ask_bind_eq_ok, condition_eq_ok_iff, mostUrgent_eq_ok] at he
  obtain ⟨o, ho, next, ⟨-, hnext⟩, he⟩ := he
  cases next with
  | none => exact (pure_eq_ok.mp he).2 ▸ h
  | some t =>
    have hmem : t ∈ k.seating.queue (.condition c) := by
      rw [queue_condition ho]
      exact Queue.mem_of_foremostOf hnext
    simp only [changeCondition_bind_eq_ok, get_bind_eq_ok] at he
    simp only [bind_eq_ok, pure_eq_ok] at he
    obtain ⟨-, _, m, hm, _, m', hm', -, rfl⟩ := he
    have hseat :
        (k.mapCondition c fun cond => { cond with waiters := cond.waiters.remove t }).seating =
        k.seating.setQueue (.condition c) ((k.seating.queue (.condition c)).erase t) := by
      rw [seating_mapCondition ho, queue_condition ho]
      rfl
    have hl := h.leave (p := .condition c) (by simp) (by simp) hseat rfl rfl
    refine (hl.waitForLock (fun hi => ⟨?_, h.stands_leave hmem hi hseat⟩) hm).quiet (quiet_say hm')
    obtain ⟨hc, hb⟩ := h.blocked (p := .condition c) (by simp) hmem hi
    rw [hseat, Seating.aside_leave]
    exact (Seating.about_of_ne hc).trans hb

theorem signalMany {n count : Nat} (h : k.Poised .running)
    (he : Core.signalMany c l n k = .ok count k') : k'.Poised .running := by
  induction n generalizing k count with
  | zero => exact (pure_eq_ok.mp he).2 ▸ h
  | succ n ih =>
    unfold Core.signalMany at he
    rw [bind_eq_ok] at he
    obtain ⟨r, m, hm, he⟩ := he
    have hs := h.signalOne hm
    cases r with
    | none => exact (pure_eq_ok.mp he).2 ▸ hs
    | some t =>
      simp only [bind_eq_ok, pure_eq_ok] at he
      obtain ⟨_, m', hm', -, rfl⟩ := he
      exact ih hs hm'

theorem signal (h : k.Poised .running) {b : Bool} (he : Core.signal c l k = .ok b k') :
    k'.Poised .running := by
  unfold Core.signal at he
  simp only [bind_eq_ok, pure_eq_ok] at he
  obtain ⟨_, _, hc, r, n, hn, -, rfl⟩ := he
  obtain ⟨rfl, -⟩ := checkHeld_eq_ok hc
  obtain ⟨m, m', hq, hn, hq'⟩ := masked_eq_ok hn
  exact ((h.quiet hq).signalOne hn).quiet hq'

theorem broadcast (h : k.Poised .running) {count : Nat} (he : Core.broadcast c l k = .ok count k') :
    k'.Poised .running := by
  unfold Core.broadcast at he
  rw [bind_eq_ok] at he
  obtain ⟨_, _, hc, he⟩ := he
  obtain ⟨rfl, -⟩ := checkHeld_eq_ok hc
  obtain ⟨m, m', hq, he, hq'⟩ := masked_eq_ok he
  simp only [ask_bind_eq_ok] at he
  obtain ⟨o, -, he⟩ := he
  exact ((h.quiet hq).signalMany he).quiet hq'

/-! ## Objects -/

/-- A table of objects in which one queue is empty, and the others are as before. -/
theorem seating_refurnish {o : Objects}
    (hq : ∀ q, ({ k with objects := o } : Core).seating.queue q =
    if q = p then [] else k.seating.queue q) :
    ({ k with objects := o } : Core).seating = k.seating.setQueue p [] := by
  have hqueue : ({ k with objects := o } : Core).seating.queue =
      Function.update k.seating.queue p [] := by
    funext q
    rw [hq, Function.update_apply]
  exact congrArg (fun q => ({ k.seating with queue := q } : Seating)) hqueue

theorem refurnish (h : k.Poised σ) {o : Objects} (hr : p ≠ .ready) (hs : p ≠ .sleep)
    (hq : ∀ q, ({ k with objects := o } : Core).seating.queue q =
      if q = p then [] else k.seating.queue q) : Poised { k with objects := o } σ :=
  h.clear hr hs (seating_refurnish hq) rfl rfl

theorem newSemaphore (h : k.Poised σ) {v : Nat} (he : Core.newSemaphore v k = .ok s k') :
    k'.Poised σ ∧ ∀ t, k.seating.aside.Stands t → k'.seating.aside.Stands t := by
  obtain ⟨-, rfl⟩ := newSemaphore_eq_ok he
  have hseat := seating_refurnish (k := k) (p := .semaphore s) (o := { k.objects with
    lastId := k.objects.lastId + 1
    semaphores := k.objects.semaphores.insert s ⟨v, .empty⟩ }) fun q => by
      cases q with
      | semaphore m =>
        simp only [Core.seating, Std.ExtTreeMap.getElem?_insert, compare_eq_iff_eq,
          Seat.semaphore.injEq]
        grind [Queue.empty]
      | _ => simp [Core.seating]
  refine ⟨h.clear (p := .semaphore s) (by simp) (by simp) hseat rfl rfl, fun t ht p hp => ?_⟩
  rw [hseat, Seating.mem_aside] at hp
  simp only [Seating.setQueue, Function.update_apply] at hp
  split at hp
  · cases hp.1
  · exact ht p (Seating.mem_aside.mpr hp)

theorem newLock (h : k.Poised σ) (he : Core.newLock k = .ok l k') : k'.Poised σ := by
  obtain ⟨-, rfl⟩ := newLock_eq_ok he
  refine h.refurnish (p := .lock l) (by simp) (by simp) fun q => ?_
  cases q with
  | lock m =>
    simp only [Core.seating, Std.ExtTreeMap.getElem?_insert, compare_eq_iff_eq, Seat.lock.injEq]
    grind [Queue.empty]
  | _ => simp [Core.seating]

theorem newCondition (h : k.Poised σ) (he : Core.newCondition k = .ok c k') : k'.Poised σ := by
  obtain ⟨-, rfl⟩ := newCondition_eq_ok he
  refine h.refurnish (p := .condition c) (by simp) (by simp) fun q => ?_
  cases q with
  | condition m =>
    simp only [Core.seating, Std.ExtTreeMap.getElem?_insert, compare_eq_iff_eq,
      Seat.condition.injEq]
    grind [Queue.empty]
  | _ => simp [Core.seating]

theorem dropSemaphore (h : k.Poised σ) (he : Core.dropSemaphore s k = .ok u k') : k'.Poised σ := by
  rw [Core.dropSemaphore, modify_eq_ok] at he
  subst he
  refine h.refurnish (p := .semaphore s) (by simp) (by simp) fun q => ?_
  cases q with
  | semaphore m =>
    simp only [Core.seating, Std.ExtTreeMap.getElem?_erase, compare_eq_iff_eq, Seat.semaphore.injEq]
    grind
  | _ => simp [Core.seating]

theorem destroySemaphore (h : k.Poised σ) {a : Except Refusal Unit}
    (he : Core.destroySemaphore s k = .ok a k') : k'.Poised σ := by
  unfold Core.destroySemaphore at he
  simp only [ask_bind_eq_ok] at he
  obtain ⟨o, -, he⟩ := he
  split at he
  · simp only [bind_eq_ok, pure_eq_ok] at he
    obtain ⟨_, m, hm, -, rfl⟩ := he
    exact h.dropSemaphore hm
  · exact (pure_eq_ok.mp he).2 ▸ h

theorem destroyLock (h : k.Poised σ) {a : Except Refusal Unit}
    (he : Core.destroyLock l k = .ok a k') : k'.Poised σ := by
  unfold Core.destroyLock at he
  simp only [ask_bind_eq_ok] at he
  obtain ⟨o, -, he⟩ := he
  cases hh : o.holder with
  | some t =>
    simp only [hh] at he
    exact (pure_eq_ok.mp he).2 ▸ h
  | none =>
    simp only [hh, modify_bind_eq_ok, pure_eq_ok] at he
    obtain ⟨-, rfl⟩ := he
    refine h.refurnish (p := .lock l) (by simp) (by simp) fun q => ?_
    cases q with
    | lock m =>
      simp only [Core.seating, Std.ExtTreeMap.getElem?_erase, compare_eq_iff_eq, Seat.lock.injEq]
      grind
    | _ => simp [Core.seating]

theorem destroyCondition (h : k.Poised σ) {a : Except Refusal Unit}
    (he : Core.destroyCondition c k = .ok a k') : k'.Poised σ := by
  unfold Core.destroyCondition at he
  simp only [ask_bind_eq_ok] at he
  obtain ⟨o, -, he⟩ := he
  split at he
  · simp only [modify_bind_eq_ok, pure_eq_ok] at he
    obtain ⟨-, rfl⟩ := he
    refine h.refurnish (p := .condition c) (by simp) (by simp) fun q => ?_
    cases q with
    | condition m =>
      simp only [Core.seating, Std.ExtTreeMap.getElem?_erase, compare_eq_iff_eq,
        Seat.condition.injEq]
      grind
    | _ => simp [Core.seating]
  · exact (pure_eq_ok.mp he).2 ▸ h

/-! ## Families -/

theorem changeFamily (h : k.Poised σ) {f : Family → Family}
    (he : Core.changeFamily t f k = .ok u k') : k'.Poised σ :=
  h.congr (stance_changeFamily t f _ _ _ he)

theorem dropRecord (h : k.Poised σ) {r : ChildRecord} (he : Core.dropRecord r k = .ok u k') :
    k'.Poised σ := by
  unfold Core.dropRecord at he
  rw [bind_eq_ok] at he
  obtain ⟨_, m, hm, he⟩ := he
  exact (h.dropSemaphore hm).dropSemaphore he

theorem adopt (h : k.Poised σ) {p c : ThreadId} (he : Core.adopt p c k = .ok u k') :
    k'.Poised σ ∧ ∀ t, k.seating.aside.Stands t → k'.seating.aside.Stands t := by
  unfold Core.adopt at he
  simp only [bind_eq_ok] at he
  obtain ⟨_, m₁, h₁, _, m₂, h₂, _, m₃, h₃, he⟩ := he
  obtain ⟨hm₁, hs₁⟩ := h.newSemaphore h₁
  obtain ⟨hm₂, hs₂⟩ := hm₁.newSemaphore h₂
  refine ⟨(hm₂.changeFamily h₃).changeFamily he, fun t ht => ?_⟩
  have e := (stance_changeFamily _ _ _ _ _ he).trans (stance_changeFamily _ _ _ _ _ h₃)
  rw [show k'.seating = m₂.seating from congrArg Prod.fst e]
  exact hs₂ t (hs₁ t ht)

/-- A new thread is blocked and sits nowhere. -/
theorem enlist (h : k.Poised σ) {name : String} {priority : Priority} {page : Page}
    {entry : Option String} {task : Option Task} :
    (k.enlist (.create k.nextThread name priority page entry task)).Poised σ ∧
      (k.enlist (.create k.nextThread name priority page entry task)).seating.aside.Stands
        k.nextThread := by
  have hnone : k.seating.aside.state k.nextThread = none := by
    show (k.threads[k.nextThread]?).map Thread.state = none
    rw [h.fresh]
    rfl
  have hseat : (k.enlist (.create k.nextThread name priority page entry task)).seating.aside =
      (k.seating.setState k.nextThread (some .blocked)).aside :=
    congrArg Seating.aside (seating_enlist_of_fresh h.fresh)
  refine ⟨⟨?_, fun t th ht => ?_, h.home⟩, fun p hp => ?_⟩
  · rw [hseat]
    exact h.seating.register hnone
  · rw [getElem?_enlist] at ht
    split at ht
    · rename_i he
      cases ht
      subst he
      exact ⟨rfl, Nat.lt_succ_self k.nextThread⟩
    · obtain ⟨hid, hlt⟩ := h.number t th ht
      exact ⟨hid, hlt.trans (Nat.lt_succ_self _)⟩
  · rw [hseat] at hp
    have hs := h.seating.seated k.nextThread p hp
    rw [Seating.about] at hs
    split at hs
    · rename_i he
      have hr := h.seating.current_running
      rw [← he, hnone] at hr
      cases hr
    · rw [hnone] at hs
      cases hs

theorem spawn (h : k.Poised .running) {name : String} {priority : Priority} {task : Option Task}
    {a : Except Refusal ThreadId} (he : Core.spawn name priority task k = .ok a k') :
    k'.Poised .running := by
  unfold Core.spawn checkPriority at he
  simp only [demand_bind_eq_ok, ask_bind_eq_ok] at he
  obtain ⟨-, th, -, he⟩ := he
  rw [bind_eq_ok] at he
  obtain ⟨r, m, hm, he⟩ := he
  rcases register_eq_ok hm with ⟨refusal, rfl, hq⟩ | ⟨n, page, hq, rfl, rfl⟩
  · simp only [bind_eq_ok, pure_eq_ok] at he
    obtain ⟨_, m', hm', -, rfl⟩ := he
    exact (h.quiet hq).quiet (quiet_say hm')
  · simp only [bind_eq_ok, pure_eq_ok] at he
    obtain ⟨_, m₁, h₁, _, m₂, h₂, _, m₃, h₃, _, m₄, h₄, -, rfl⟩ := he
    obtain ⟨hn, hstands⟩ := Poised.enlist (h.quiet hq)
    obtain ⟨hm₁, hs₁⟩ := hn.adopt h₁
    have hstands₂ : m₂.seating.aside.Stands n.nextThread := by
      rw [(quiet_say h₂).seating]
      exact hs₁ _ hstands
    exact ((hm₁.quiet (quiet_say h₂)).unblock hstands₂ h₃).preempt h₄

theorem orphan {entries : List (ThreadId × ChildRecord)} (h : k.Poised σ)
    (he : Core.orphan entries k = .ok u k') : k'.Poised σ := by
  induction entries generalizing k with
  | nil => exact (pure_eq_ok.mp he).2 ▸ h
  | cons entry rest ih =>
    unfold Core.orphan at he
    rw [get_bind_eq_ok] at he
    have hrest : ∀ m : Core, m.Poised σ →
        (Core.dropRecord entry.2 >>= fun _ => Core.orphan rest) m = .ok u k' → k'.Poised σ := by
      intro m hm he
      rw [bind_eq_ok] at he
      obtain ⟨_, n, hn, he⟩ := he
      exact ih (hm.dropRecord hn) he
    split at he
    · rw [bind_eq_ok] at he
      obtain ⟨_, m, hm, he⟩ := he
      exact hrest m (h.changeFamily hm) he
    · exact hrest k h he

theorem reportExit (h : k.Poised σ) {p : ThreadId} {v : Int32}
    (he : Core.reportExit t v p k = .ok u k') : k'.Poised σ := by
  unfold Core.reportExit at he
  rw [get_bind_eq_ok] at he
  cases hp : k.threads[p]? with
  | none =>
    simp only [hp] at he
    exact (pure_eq_ok.mp he).2 ▸ h
  | some pth =>
    simp only [hp] at he
    cases hr : pth.family.children[t]? with
    | none =>
      simp only [hr] at he
      exact (pure_eq_ok.mp he).2 ▸ h
    | some entry =>
      simp only [hr] at he
      rw [bind_eq_ok] at he
      obtain ⟨_, m, hm, he⟩ := he
      have h₁ := h.changeFamily hm
      have hrest : ∀ n : Core, n.Poised σ →
          (Core.wakeOne entry.exitSemaphore >>= fun _ => say (.reports t v p)) n = .ok u k' →
          k'.Poised σ := by
        intro n hn he
        rw [bind_eq_ok] at he
        obtain ⟨_, n', hn', he⟩ := he
        exact (hn.wakeOne hn').quiet (quiet_say he)
      split at he
      · rw [bind_eq_ok] at he
        obtain ⟨_, n, hn, he⟩ := he
        exact hrest n (h₁.wakeOne hn) he
      · exact hrest m h₁ he

theorem leaveFamily (h : k.Poised σ) (he : Core.leaveFamily t k = .ok u k') : k'.Poised σ := by
  obtain ⟨th, m, n, hth, hq, hn, he⟩ := leaveFamily_eq_ok he
  have hcut : Core.changeFamily t (fun f => { f with parent := none, children := ∅ }) m =
      .ok () _ :=
    changeFamily_eq_ok.mpr ⟨⟨th, hq.threads ▸ hth⟩, rfl⟩
  have hn := ((h.quiet hq).changeFamily hcut).orphan hn
  rcases he with ⟨-, rfl⟩ | ⟨p, -, he⟩
  · exact hn
  · exact hn.reportExit he

/-- Another thread runs after an exit. -/
theorem exit (h : k.Poised .running) (he : Core.exit k = .ok u k') :
    k'.Poised .running ∧ k'.current ≠ k.current := by
  obtain ⟨m₁, m₂, m₃, hi, -, h₁, hq, he, hq'⟩ := exit_eq_ok (fun _ hr => (h.running_id hr).1) he
  have hm₂ := (h.leaveFamily h₁).quiet hq
  have hpost : m₂.post = k.post := hq.post.trans (post_leaveFamily _ _ _ _ h₁)
  have hcurrent : m₂.current = k.current := congrArg Prod.fst hpost
  have hidle : m₂.idle = k.idle := congrArg Prod.snd hpost
  have hi₂ : m₂.current ≠ m₂.idle := by rwa [hcurrent, hidle]
  refine ⟨((hm₂.stand (by decide)).endTurn (by decide) (fun _ => hi₂) he).quiet hq', ?_⟩
  rw [hq'.current, ← hcurrent]
  refine current_ne_of_endTurn (fun hready => ?_) hi₂ he
  exact hm₂.current_stands .ready (Seating.mem_aside.mpr ⟨hready, hi₂⟩)

theorem collect (h : k.Poised σ) {p c : ThreadId} {a : Except Refusal ChildStatus}
    (he : Core.collect p c k = .ok a k') : k'.Poised σ := by
  unfold Core.collect at he
  simp only [ask_bind_eq_ok] at he
  obtain ⟨o, -, he⟩ := he
  cases o with
  | none => exact (pure_eq_ok.mp he).2 ▸ h
  | some r =>
    cases hs : r.status with
    | none =>
      simp only [hs] at he
      exact (pure_eq_ok.mp he).2 ▸ h
    | some v =>
      simp only [hs, bind_eq_ok, pure_eq_ok] at he
      obtain ⟨_, m, hm, _, m', hm', -, rfl⟩ := he
      exact (h.changeFamily hm).dropRecord hm'

theorem reportFork (h : k.Poised .running) {a : Except Refusal Unit}
    (he : Core.reportFork k = .ok a k') : k'.Poised .running := by
  unfold Core.reportFork at he
  simp only [ask_bind_eq_ok] at he
  obtain ⟨th, -, th', -, he⟩ := he
  cases hp : th'.family.parent with
  | none =>
    simp only [hp] at he
    exact (pure_eq_ok.mp he).2 ▸ h
  | some parent =>
    simp only [hp, ask_bind_eq_ok] at he
    obtain ⟨o, -, he⟩ := he
    cases o with
    | none => exact (pure_eq_ok.mp he).2 ▸ h
    | some r =>
      by_cases hf : r.forked = true
      · simp only [hf, if_true] at he
        exact (pure_eq_ok.mp he).2 ▸ h
      · simp only [if_neg hf, bind_eq_ok, pure_eq_ok] at he
        obtain ⟨_, m, hm, _, m', hm', -, rfl⟩ := he
        exact (h.changeFamily hm).up hm'

theorem awaitFork (h : k.Poised .running) {c : ThreadId} {a : Except Refusal Unit}
    (he : Core.awaitFork c k = .ok a k') : k'.Poised .running := by
  unfold Core.awaitFork at he
  simp only [ask_bind_eq_ok] at he
  obtain ⟨th, -, o, -, he⟩ := he
  cases o with
  | none => exact (pure_eq_ok.mp he).2 ▸ h
  | some r =>
    simp only [bind_eq_ok, pure_eq_ok] at he
    obtain ⟨_, m, hm, -, rfl⟩ := he
    exact h.down hm

theorem awaitExit (h : k.Poised .running) {c : ThreadId} {a : Except Refusal Int32}
    (he : Core.awaitExit c k = .ok a k') : k'.Poised .running := by
  unfold Core.awaitExit at he
  simp only [ask_bind_eq_ok] at he
  obtain ⟨th, -, he⟩ := he
  rw [bind_eq_ok] at he
  obtain ⟨first, m, hm, he⟩ := he
  have h₁ := h.collect hm
  rcases first with refusal | _ | _
  · exact (pure_eq_ok.mp he).2 ▸ h₁
  · exact (pure_eq_ok.mp he).2 ▸ h₁
  · simp only [ask_bind_eq_ok] at he
    obtain ⟨o, -, he⟩ := he
    cases o with
    | none => exact (pure_eq_ok.mp he).2 ▸ h₁
    | some r =>
      simp only at he
      rw [bind_eq_ok] at he
      obtain ⟨_, n, hn, he⟩ := he
      have h₂ := h₁.down hn
      rw [get_bind_eq_ok] at he
      split at he
      · exact (pure_eq_ok.mp he).2 ▸ h₂
      · rw [bind_eq_ok] at he
        obtain ⟨second, n', hn', he⟩ := he
        have h₃ := h₂.collect hn'
        rcases second with refusal | _ | _
        · exact (pure_eq_ok.mp he).2 ▸ h₃
        · exact (pure_eq_ok.mp he).2 ▸ h₃
        · simp [throw_eq_ok] at he

theorem setExitStatus (h : k.Poised .running) {v : Int32} (he : Core.setExitStatus v k = .ok u k') :
    k'.Poised .running := by
  unfold Core.setExitStatus at he
  simp only [ask_bind_eq_ok] at he
  obtain ⟨th, -, he⟩ := he
  exact h.changeFamily he

/-! ## Handlers -/

theorem enterHandler (h : k.Poised σ) {was : Bool} (he : Core.enterHandler k = .ok was k') :
    k'.Poised σ := by
  unfold Core.enterHandler at he
  simp only [bind_eq_ok, setHandler_eq_ok, pure_eq_ok] at he
  obtain ⟨_, m, hm, _, _, ⟨-, rfl⟩, -, rfl⟩ := he
  exact (h.quiet (quiet_mask hm)).congr rfl

theorem leaveHandler (h : k.Poised .running) {was : Bool}
    (he : Core.leaveHandler was k = .ok u k') : k'.Poised .running := by
  unfold Core.leaveHandler at he
  rw [bind_eq_ok] at he
  obtain ⟨_, m, hm, he⟩ := he
  obtain ⟨-, rfl⟩ := setHandler_eq_ok.mp hm
  rw [get_bind_eq_ok, modify_bind_eq_ok, get_bind_eq_ok] at he
  have h₁ :
      Poised { k with machine := { k.machine with inHandler := false }, yieldPending := false }
      .running := h.congr rfl
  split at he
  · rw [bind_eq_ok] at he
    obtain ⟨_, n, hn, he⟩ := he
    exact ((h₁.stand (by decide)).pause (by decide) (by decide) hn).quiet (quiet_unmask he)
  · split at he
    · rw [bind_eq_ok] at he
      obtain ⟨_, n, hn, he⟩ := he
      exact (h₁.yieldNow hn).quiet (quiet_unmask he)
    · exact h₁.quiet (quiet_unmask he)

theorem timerInterrupt (h : k.Poised .running) (he : Core.timerInterrupt k = .ok u k') :
    k'.Poised .running := by
  unfold Core.timerInterrupt handleInterrupt at he
  rw [bind_eq_ok] at he
  obtain ⟨was, m, hm, he⟩ := he
  rw [bind_eq_ok] at he
  obtain ⟨_, n, hn, he⟩ := he
  rw [get_bind_eq_ok] at hn
  simp only [bind_eq_ok, pure_eq_ok] at hn he
  obtain ⟨_, m₁, h₁, _, m₂, h₂, _, m₃, h₃, -, rfl⟩ := hn
  obtain ⟨_, n', hn', -, rfl⟩ := he
  have hslice : Keeps stance countSlice := by
    refine keeps_get.bind fun _ => .bind (fun _ _ _ h => (increment_eq_ok.mp h).2.2 ▸ rfl) fun _ =>
      .bind (keeps_modify fun _ => rfl) fun _ => keeps_get.bind fun _ => ?_
    split
    · exact keeps_modify fun _ => rfl
    · exact keeps_pure _
  have hm₂ := ((h.enterHandler hm).quiet (quiet_countTick h₁)).congr (hslice _ _ _ h₂)
  exact (hm₂.wakeSleepers h₃).leaveHandler hn'

theorem ticks {n : Nat} (h : k.Poised .running) (he : Core.ticks n k = .ok u k') :
    k'.Poised .running := by
  induction n generalizing k with
  | zero => exact (pure_eq_ok.mp he).2 ▸ h
  | succ n ih =>
    unfold Core.ticks tick at he
    simp only [bind_eq_ok] at he
    obtain ⟨_, m, ⟨_, m', hm', hm⟩, he⟩ := he
    exact ih ((h.quiet (quiet_advance hm')).timerInterrupt hm) he

theorem yieldOnReturn (h : k.Poised σ) (he : Core.yieldOnReturn k = .ok u k') : k'.Poised σ := by
  unfold Core.yieldOnReturn at he
  rw [get_bind_eq_ok, demand_bind_eq_ok, modify_eq_ok] at he
  exact he.2 ▸ h.congr rfl

end Poised

end Core

namespace Session

variable {s s' : Session} {a : Answer} {c : Call} {d : Deed} {log : List Entry} {frames : List Bool}

/-! ## Calls -/

/-- A blocked thread that does not sleep and is in no queue of an object sits nowhere. -/
theorem stands_of_unblock (hk : s.core.Poised .running) {t : ThreadId} {u : Unit} {k : Core}
    (hs : t ∉ s.core.sleepers) (hw : ∀ e ∈ s.core.objects.waitLists, t ∉ e.2)
    (h : Core.unblock t s.core = .ok u k) : s.core.seating.aside.Stands t := by
  intro p hp
  obtain ⟨hmem, hi⟩ := Seating.mem_aside.mp hp
  rcases Core.mem_waitLists hmem with hr | hsl | ⟨e, he, ht⟩
  · have hm : t ∈ s.core.seating.aside.queue .ready := Seating.mem_aside.mpr ⟨hr, hi⟩
    have hready := hk.seating.seated t .ready hm
    have hblocked := (Core.unblock_state h).1
    rw [Seating.about] at hready
    split at hready
    · cases hready
    · exact absurd (hblocked.symm.trans hready) (by decide)
  · exact hs hsl
  · exact hw e he ht

/-- **Calls.** A call that unblocks no thread that waits somewhere keeps the rules of seating for
all threads but the idle one. -/
theorem execute_poised (hk : s.core.Poised .running) (hl : Loose s c) (h : execute c s = .ok a s') :
    s'.core.Poised .running := by
  obtain hquiet | ⟨hq, α, e, r, hp, hx⟩ := execute_step h
  · exact hk.quiet hquiet
  cases hp with
  | create _ _ | spawn _ _ _ => exact hk.spawn hx
  | exit => exact (hk.exit hx).1
  | yield => exact hk.yieldNow hx
  | block => exact hk.block hx
  | unblock t => exact hk.unblock (stands_of_unblock hk (hl t rfl).1 (hl t rfl).2 hx) hx
  | setPriority _ => exact hk.setPriority hx
  | overwrite _ _ _ =>
    obtain ⟨stack, -, hx⟩ := Core.ask_bind_eq_ok.mp hx
    rw [(Core.changeThread_eq_ok.mp hx).2]
    exact hk.congr (Core.stance_mapThread (fun _ => rfl) (fun _ => rfl) fun _ => rfl)
  | sleepUntil _ => exact hk.sleepUntil hx
  | sleepFor _ => exact hk.sleepFor hx
  | wakeSleepers _ => exact hk.wakeSleepers hx
  | timer => exact hk.timerInterrupt hx
  | tick _ => exact hk.ticks hx
  | yieldOnReturn => exact hk.yieldOnReturn hx
  | setHandler _ =>
    rw [(Core.setHandler_eq_ok.mp hx).2]
    exact hk.congr rfl
  | newSemaphore _ => exact (hk.newSemaphore hx).1
  | down _ => exact hk.down hx
  | tryDown _ => exact hk.tryDown hx
  | up _ => exact hk.up hx
  | destroySemaphore _ => exact hk.destroySemaphore hx
  | newLock => exact hk.newLock hx
  | acquire _ => exact hk.acquire hx
  | tryAcquire _ => exact hk.tryAcquire hx
  | release _ => exact hk.release hx
  | destroyLock _ => exact hk.destroyLock hx
  | newCondition => exact hk.newCondition hx
  | await _ _ => exact hk.await hx
  | signal _ _ => exact hk.signal hx
  | broadcast _ _ => exact hk.broadcast hx
  | destroyCondition _ => exact hk.destroyCondition hx
  | setExitStatus _ => exact hk.setExitStatus hx
  | reportFork => exact hk.reportFork hx
  | awaitFork _ => exact hk.awaitFork hx
  | awaitExit _ => exact hk.awaitExit hx
  | tryCollect _ =>
    obtain ⟨th, -, hx⟩ := Core.ask_bind_eq_ok.mp hx
    exact hk.collect hx
  | ask ha => cases hq.symm.trans ha.isQuiet
  | _ => cases hq

theorem leads_poised (hk : s.core.Poised .running) (hl : ∀ c a, d = .call c a → Loose s c)
    (h : Leads s d s') : s'.core.Poised .running := by
  cases h with
  | call he => exact execute_poised hk (hl _ _ rfl) he
  | enter he =>
    obtain ⟨k, hk', rfl⟩ := onCore_eq_ok.mp he
    exact hk.enterHandler hk'
  | leave he =>
    obtain ⟨_, k, hk', rfl⟩ := act_eq_ok he
    exact hk.leaveHandler hk'

/-- **Runs.** In every state of a run in which nobody unblocks a thread that waits somewhere, all
threads but the idle one are seated by the rules. -/
theorem Logged.poised {allowed : List Entry → Session → Call → Prop}
    (hall : ∀ log s c, allowed log s c → Loose s c) (h : Logged allowed log frames s) :
    s.core.Poised .running := by
  refine h.invariant (P := fun _ s => s.core.Poised .running) (fun setup config k _ hk => ?_)
    fun log _ s _ _ _ ih hd ha => leads_poised ih (fun c a hda => hall log s c (ha c a hda)) hd
  have hsound := (reached_boot hk).1
  refine ⟨hsound.seating.aside, fun t th ht => ?_,
    (Core.boot_ties (k := setup.core config) rfl rfl hk).2.1⟩
  obtain ⟨hid, hlt, -⟩ := hsound.registered.thread t th ht
  exact ⟨hid, hlt⟩

end Session

end ThreadCore
