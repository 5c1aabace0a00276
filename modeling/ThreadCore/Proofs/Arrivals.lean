import ThreadCore.Proofs.Handlers
import ThreadCore.Proofs.Lifetimes
import ThreadCore.Proofs.Parts

/-!
# The order of arrival

Threads that become ready join the ready queue at its end, and nothing but a dispatch takes one out.
So the queue is in the order of arrival, and a dispatch takes the earliest among the most urgent
threads (`dispatch_picks`). No operation ends the turn of a thread more than once: it lets threads
join, and then there may be one dispatch (`Scheduled`).

For most steps this follows from their parts alone, whatever state they begin in (`Admits`,
`Schedules`). Only for an exit it matters that the thread that is gone was not in the queue.
-/

namespace ThreadCore

namespace Core

variable {α β : Type} {k k' m : Core} {g : Stage} {t : ThreadId} {u : Unit}

/-- `t` is the earliest of the most urgent threads in `q`, or the idle thread if there are none, and
`rest` is the queue without it. -/
def Picks (rank : ThreadId → Priority) (idle : ThreadId) (q : List ThreadId) (t : ThreadId)
    (rest : List ThreadId) : Prop :=
  (q = [] ∧ t = idle ∧ rest = []) ∨
    ∃ before after, q = before ++ t :: after ∧ rest = before ++ after ∧
      (∀ v ∈ before, rank v < rank t) ∧ ∀ v ∈ after, rank v ≤ rank t

/-- The threads that join, none of them in the ready queue. -/
def Newcomers (k : Core) (added : List ThreadId) : Prop :=
  added.Nodup ∧ ∀ t ∈ added, t ∉ k.ready

/-- Threads have joined the ready queue at its end, and nobody was dispatched. -/
structure Admitted (k k' : Core) : Prop where
  current : k'.current = k.current
  handler : k'.machine.inHandler = k.machine.inHandler
  joined : ∃ added, k.Newcomers added ∧ k'.ready.entries = k.ready.entries ++ added

/-- Threads have joined the ready queue at its end, and then there may have been a dispatch. -/
def Scheduled (k k' : Core) : Prop :=
  ∃ added, k.Newcomers added ∧
    ((k'.current = k.current ∧ k'.ready.entries = k.ready.entries ++ added) ∨
      Picks k'.priorityOf k'.idle (k.ready.entries ++ added) k'.current k'.ready.entries)

/-! ## Dispatches -/

theorem Picks.congr {rank rank' : ThreadId → Priority} {idle : ThreadId} {q rest : List ThreadId}
    (h : Picks rank idle q t rest) (hr : ∀ v, v = t ∨ v ∈ q → rank' v = rank v) :
    Picks rank' idle q t rest := by
  rcases h with h | ⟨before, after, hq, hrest, hb, ha⟩
  · exact .inl h
  · have ht := hr t (.inl rfl)
    refine .inr ⟨before, after, hq, hrest, fun v hv => ?_, fun v hv => ?_⟩
    · rw [ht, hr v (.inr (by simp [hq, hv]))]
      exact hb v hv
    · rw [ht, hr v (.inr (by simp [hq, hv]))]
      exact ha v hv

theorem Chooses.picks (h : k.Chooses t) :
    Picks k.priorityOf k.idle k.ready.entries t (k.ready.entries.erase t) := by
  rcases h.foremost with ⟨he, ht⟩ | ⟨before, after, he, hb, ha⟩
  · exact .inl ⟨he, ht, by rw [he]; rfl⟩
  · have hnot : t ∉ before := fun hm => lt_irrefl _ (hb t hm)
    refine .inr ⟨before, after, he, ?_, hb, ha⟩
    rw [he, List.erase_append_right _ hnot, List.erase_cons_head]

/-- **Dispatching.** Whenever the scheduler dispatches, the thread that runs next is the earliest of
the most urgent ready threads, or the idle thread if none is ready. -/
theorem dispatch_picks (h : dispatch k = .ok u k') :
    Picks k.priorityOf k.idle k.ready.entries k'.current k'.ready.entries := by
  obtain ⟨t, src, th, hch, -, -, -, ha⟩ := dispatch_alike h
  have hcurrent : k'.current = t := congrArg Seating.current ha.seating
  have hready : k'.ready.entries = k.ready.entries.erase t :=
    congrArg (fun s : Seating => s.queue .ready) ha.seating
  rw [hcurrent, hready]
  exact hch.picks

/-- The end of a turn of a thread that lives on. -/
theorem endTurn_picks {σ : ThreadState} (hσ : σ ≠ .dying) (h : endTurn σ k = .ok u k') :
    Picks k'.priorityOf k'.idle k.ready.entries k'.current k'.ready.entries := by
  obtain ⟨m, t, hq, hch, -, ha⟩ := endTurn_alike h
  have hcurrent : k'.current = t := congrArg Seating.current ha.seating
  have hidle : k'.idle = m.idle := congrArg Seating.idle ha.seating
  have hready : k'.ready.entries = m.ready.entries.erase t :=
    congrArg (fun s : Seating => s.queue .ready) ha.seating
  have hpriority : ∀ v, k'.priorityOf v = m.priorityOf v := by
    intro v
    rw [priorityOf_eq, priorityOf_eq, ha.waits, waits_turned_of_lives hσ]
  rw [hcurrent, hready, hidle, ← hq.ready]
  exact hch.picks.congr fun v _ => hpriority v

/-! ## Steps that let threads join -/

/-- If the step succeeds, it has let threads join the ready queue and nothing else. -/
def Admits (x : CoreM α) : Prop := ∀ k a k', x k = .ok a k' → k.Admitted k'

/-- If the step succeeds, it has let threads join, and then there may have been a dispatch. -/
def Schedules (x : CoreM α) : Prop := ∀ k a k', x k = .ok a k' → k.Scheduled k'

theorem Newcomers.nil (k : Core) : k.Newcomers [] := ⟨List.nodup_nil, by simp⟩

theorem Newcomers.append {added more : List ThreadId} (h : k.Newcomers added)
    (hr : m.ready.entries = k.ready.entries ++ added) (h' : m.Newcomers more) :
    k.Newcomers (added ++ more) := by
  have hnot : ∀ t ∈ more, t ∉ k.ready.entries ∧ t ∉ added := by
    intro t ht
    have := h'.2 t ht
    rwa [Queue.mem_def, hr, List.mem_append, not_or] at this
  refine ⟨List.nodup_append'.mpr ⟨h.1, h'.1, fun t ht ht' => (hnot t ht').2 ht⟩, fun t ht => ?_⟩
  rcases List.mem_append.mp ht with ht | ht
  · exact h.2 t ht
  · exact (hnot t ht).1

theorem Admitted.of_eq (hc : k'.current = k.current)
    (hh : k'.machine.inHandler = k.machine.inHandler) (hr : k'.ready = k.ready) : k.Admitted k' :=
  ⟨hc, hh, [], .nil k, by rw [hr, List.append_nil]⟩

theorem Admitted.trans (h : k.Admitted m) (h' : m.Admitted k') : k.Admitted k' := by
  obtain ⟨hc, hh, added, hn, hr⟩ := h
  obtain ⟨hc', hh', more, hn', hr'⟩ := h'
  refine ⟨hc'.trans hc, hh'.trans hh, added ++ more, hn.append hr hn', ?_⟩
  rw [hr', hr, List.append_assoc]

theorem Admitted.scheduled (h : k.Admitted k') : k.Scheduled k' := by
  obtain ⟨hc, -, added, hn, hr⟩ := h
  exact ⟨added, hn, .inl ⟨hc, hr⟩⟩

theorem Scheduled.admitted_left (h : k.Admitted m) (h' : m.Scheduled k') : k.Scheduled k' := by
  obtain ⟨hc, -, added, hn, hr⟩ := h
  obtain ⟨more, hn', hrest⟩ := h'
  refine ⟨added ++ more, hn.append hr hn', ?_⟩
  rw [hr, List.append_assoc] at hrest
  rwa [hc] at hrest

theorem Calm.admitted (h : Calm k k') : k.Admitted k' :=
  ⟨h.current, h.handler, [], .nil k, by rw [h.ready, List.append_nil]⟩

theorem Scheduled.calm_right (h : k.Scheduled m) (hc : Calm m k') : k.Scheduled k' := by
  have hp : k'.priorityOf = m.priorityOf := funext hc.priority
  unfold Scheduled
  rw [hc.current, hc.idle, hc.ready, hp]
  exact h

theorem admits_pure (a : α) : Admits (pure a) := by
  intro k _ k' h
  obtain ⟨-, rfl⟩ := pure_eq_ok.mp h
  exact .of_eq rfl rfl rfl

theorem admits_get : Admits get := by
  intro k _ k' h
  cases h
  exact .of_eq rfl rfl rfl

theorem admits_throw (e : Halt) : Admits (throw e : CoreM α) := by
  intro k _ k' h
  cases h

theorem admits_modify {f : Core → Core} (hc : ∀ k, (f k).current = k.current)
    (hh : ∀ k, (f k).machine.inHandler = k.machine.inHandler) (hr : ∀ k, (f k).ready = k.ready) :
    Admits (modify f) := by
  intro k _ k' h
  rw [modify_eq_ok] at h
  exact h ▸ .of_eq (hc k) (hh k) (hr k)

theorem admits_ask (question : Core → Except Halt α) : Admits (ask question) := by
  intro k _ k' h
  obtain ⟨-, rfl⟩ := ask_eq_ok_iff.mp h
  exact .of_eq rfl rfl rfl

theorem Admits.of_quiet {x : CoreM α} (h : ∀ k a k', x k = .ok a k' → Quiet k k') : Admits x :=
  fun k a k' hx => (h k a k' hx).alike.calm.admitted

theorem admits_mask : Admits (onMachine Machine.mask) := .of_quiet fun _ _ _ => quiet_mask

theorem admits_unmask (was : Bool) : Admits (onMachine (Machine.unmask was)) :=
  .of_quiet fun _ _ _ => quiet_unmask

theorem Admits.bind {x : CoreM α} {f : α → CoreM β} (hx : Admits x) (hf : ∀ a, Admits (f a)) :
    Admits (x >>= f) := by
  intro k _ k' h
  obtain ⟨a, m, hm, h⟩ := bind_eq_ok.mp h
  exact (hx k a m hm).trans (hf a m _ k' h)

theorem Admits.bind_schedules {x : CoreM α} {f : α → CoreM β} (hx : Admits x)
    (hf : ∀ a, Schedules (f a)) : Schedules (x >>= f) := by
  intro k _ k' h
  obtain ⟨a, m, hm, h⟩ := bind_eq_ok.mp h
  exact (hf a m _ k' h).admitted_left (hx k a m hm)

theorem Admits.schedules {x : CoreM α} (hx : Admits x) : Schedules x :=
  fun k a k' h => (hx k a k' h).scheduled

theorem Schedules.bind_pure {x : CoreM α} (hx : Schedules x) (f : α → β) :
    Schedules (x >>= fun a => pure (f a)) := by
  intro k _ k' h
  obtain ⟨a, m, hm, h⟩ := bind_eq_ok.mp h
  obtain ⟨-, rfl⟩ := pure_eq_ok.mp h
  exact hx k a m hm

theorem admits_masked {body : CoreM α} (hb : Admits body) : Admits (masked body) :=
  admits_mask.bind fun _ => hb.bind fun _ => (admits_unmask _).bind fun _ => admits_pure _

theorem schedules_masked {body : CoreM α} (hb : Schedules body) : Schedules (masked body) := by
  intro k a k' h
  obtain ⟨m, m', hq, h, hq'⟩ := masked_eq_ok h
  refine Scheduled.calm_right ?_ hq'.alike.calm
  exact (hb m a m' h).admitted_left hq.alike.calm.admitted

theorem admits_say (n : Notice) : Admits (say n) := by
  refine admits_get.bind fun k => ?_
  split
  · exact admits_modify (fun _ => rfl) (fun _ => rfl) fun _ => rfl
  · exact admits_pure _

theorem discreet_admits : Discreet fun _ => Admits where
  bind := .bind
  pure := admits_pure
  get := admits_get
  ask := admits_ask
  throw := admits_throw
  say := admits_say
  masked := admits_masked

theorem closes_schedules : Closes (fun _ => Admits) fun _ => Schedules where
  within := discreet_admits
  of := Admits.schedules
  bind := Admits.bind_schedules
  bind_pure := .bind_pure
  masked := schedules_masked

theorem admits_changeThread (t : ThreadId) (f : Thread → Thread) : Admits (changeThread t f) :=
  (admits_ask _).bind fun _ => admits_modify (fun _ => rfl) (fun _ => rfl) fun _ => rfl

theorem admits_changeSemaphore (s : ObjectId) (f : Semaphore → Semaphore) :
    Admits (changeSemaphore s f) :=
  (admits_ask _).bind fun _ => admits_modify (fun _ => rfl) (fun _ => rfl) fun _ => rfl

theorem admits_changeLock (l : ObjectId) (f : Lock → Lock) : Admits (changeLock l f) :=
  (admits_ask _).bind fun _ => admits_modify (fun _ => rfl) (fun _ => rfl) fun _ => rfl

theorem admits_changeCondition (c : ObjectId) (f : Condition → Condition) :
    Admits (changeCondition c f) :=
  (admits_ask _).bind fun _ => admits_modify (fun _ => rfl) (fun _ => rfl) fun _ => rfl

theorem admits_freshObject : Admits freshObject :=
  discreet_admits.freshObject fun _ => admits_modify (fun _ => rfl) (fun _ => rfl) fun _ => rfl

theorem admits_newSemaphore (value : Nat) : Admits (newSemaphore value) := by
  refine admits_freshObject.bind fun s => ?_
  exact .bind (admits_modify (fun _ => rfl) (fun _ => rfl) fun _ => rfl) fun _ => admits_pure _

theorem admits_dropSemaphore (s : ObjectId) : Admits (dropSemaphore s) :=
  admits_modify (fun _ => rfl) (fun _ => rfl) fun _ => rfl

theorem admits_dropRecord (entry : ChildRecord) : Admits (dropRecord entry) :=
  discreet_admits.dropRecord entry admits_dropSemaphore

theorem admits_refreshPriority (t : ThreadId) : Admits (refreshPriority t) :=
  discreet_admits.refreshPriority t fun _ => admits_changeThread t _

theorem admits_addDonor (t d : ThreadId) : Admits (addDonor t d) :=
  discreet_admits.addDonor t d fun _ => admits_changeThread t _

theorem admits_waitForLock (t : ThreadId) (l : ObjectId) (holder : ThreadId) :
    Admits (waitForLock t l holder) :=
  discreet_admits.waitForLock t l holder (fun _ => admits_changeLock l _) (admits_changeThread t _)
    (admits_addDonor _ _) admits_refreshPriority

/-! ## Operations that let threads join -/

theorem admits_enqueueReady (t : ThreadId) : Admits (enqueueReady t) := by
  intro k _ k' h
  unfold enqueueReady at h
  simp only [ask_bind_eq_ok, modify_eq_ok, Queue.push_eq_ok_iff] at h
  obtain ⟨ready, ⟨ht, hr⟩, rfl⟩ := h
  refine ⟨rfl, rfl, [t], ⟨List.nodup_singleton t, ?_⟩, hr⟩
  simpa using ht

theorem admits_unblock (t : ThreadId) : Admits (unblock t) :=
  discreet_admits.unblock t (admits_changeThread t _) (admits_enqueueReady t)

theorem admits_wakeOne (s : ObjectId) : Admits (wakeOne s) :=
  discreet_admits.wakeOne s (fun _ => admits_changeSemaphore s _)
    (fun _ => admits_changeSemaphore s _) admits_unblock

theorem admits_passOn (l : ObjectId) (holder : ThreadId) : Admits (passOn l holder) :=
  discreet_admits.passOn l holder (admits_changeLock l _) (fun _ => admits_changeThread _ _)
    admits_refreshPriority (fun _ => admits_changeLock l _)
    (fun _ => admits_changeThread _ _) admits_addDonor
    admits_unblock

theorem admits_wakeDue (now n : Nat) : Admits (wakeDue now n) :=
  discreet_admits.wakeDue now n (fun _ => admits_modify (fun _ => rfl) (fun _ => rfl) fun _ => rfl)
    (fun t => admits_changeThread t _) admits_unblock

theorem admits_changeFamily (t : ThreadId) (f : Family → Family) : Admits (changeFamily t f) :=
  admits_changeThread _ _

theorem admits_orphan (records : List (ThreadId × ChildRecord)) : Admits (orphan records) :=
  discreet_admits.orphan records admits_changeFamily admits_dropRecord

theorem admits_reportExit (t : ThreadId) (status : Int32) (parent : ThreadId) :
    Admits (reportExit t status parent) :=
  discreet_admits.reportExit t status parent admits_changeFamily admits_wakeOne

theorem admits_leaveFamily (t : ThreadId) : Admits (leaveFamily t) :=
  discreet_admits.leaveFamily t
    (fun _ _ => admits_modify (fun _ => rfl) (fun _ => rfl) fun _ => rfl)
    admits_changeFamily admits_orphan (admits_reportExit t)

/-! ## Operations that may dispatch -/

theorem schedules_endTurn {σ : ThreadState} (hσ : σ ≠ .dying) : Schedules (endTurn σ) := by
  intro k _ k' h
  refine ⟨[], .nil k, .inr ?_⟩
  rw [List.append_nil]
  exact endTurn_picks hσ h

theorem schedules_yieldNow : Schedules yieldNow :=
  closes_schedules.yieldNow admits_enqueueReady (schedules_endTurn (by decide))
    (schedules_endTurn (by decide))

theorem schedules_preempt : Schedules preempt :=
  closes_schedules.preempt (admits_modify (fun _ => rfl) (fun _ => rfl) fun _ => rfl)
    schedules_yieldNow

theorem schedules_block : Schedules block := closes_schedules.block (schedules_endTurn (by decide))

theorem schedules_sleepUntil (tick : Nat) : Schedules (sleepUntil tick) :=
  closes_schedules.sleepUntil tick (fun t => admits_changeThread t _)
    (fun _ => admits_modify (fun _ => rfl) (fun _ => rfl) fun _ => rfl)
    (schedules_endTurn (by decide))

theorem schedules_sleepFor (ticks : Nat) : Schedules (sleepFor ticks) :=
  admits_get.bind_schedules fun _ => schedules_sleepUntil _

theorem schedules_down (s : ObjectId) : Schedules (down s) :=
  closes_schedules.down s (admits_changeSemaphore s _) (fun _ => admits_changeSemaphore s _)
    (schedules_endTurn (by decide))

theorem schedules_up (s : ObjectId) : Schedules (up s) :=
  closes_schedules.up s (admits_wakeOne s) schedules_preempt

theorem schedules_setPriority (p : Priority) : Schedules (setPriority p) :=
  closes_schedules.setPriority p (fun t => admits_changeThread t _) admits_refreshPriority
    schedules_preempt

theorem schedules_acquire (l : ObjectId) : Schedules (acquire l) :=
  closes_schedules.acquire l (fun _ => admits_changeLock l _) (admits_waitForLock · l)
    (schedules_endTurn (by decide))

theorem schedules_release (l : ObjectId) : Schedules (release l) :=
  closes_schedules.release l (admits_passOn l) schedules_preempt

theorem schedules_await (c l : ObjectId) : Schedules (await c l) :=
  closes_schedules.await c l (admits_changeCondition c _) (fun _ => admits_changeCondition c _)
    (admits_passOn l) (schedules_endTurn (by decide))

theorem admits_signalOne (c l : ObjectId) : Admits (signalOne c l) :=
  discreet_admits.signalOne c l (fun _ => admits_changeCondition c _) (admits_waitForLock · l)

theorem admits_tryAcquire (l : ObjectId) : Admits (tryAcquire l) :=
  discreet_admits.tryAcquire l fun _ => admits_changeLock l _

theorem admits_signal (c l : ObjectId) : Admits (signal c l) :=
  discreet_admits.signal c l (admits_signalOne c l)

theorem admits_broadcast (c l : ObjectId) : Admits (broadcast c l) :=
  discreet_admits.broadcast c l (admits_signalOne c l)

theorem schedules_wakeSleepers (now : Nat) : Schedules (wakeSleepers now) :=
  closes_schedules.wakeSleepers now (admits_wakeDue now) schedules_preempt

theorem admits_setExitStatus (status : Int32) : Admits (setExitStatus status) :=
  discreet_admits.setExitStatus status admits_changeFamily

theorem admits_collect (parent child : ThreadId) : Admits (collect parent child) :=
  fun _ _ _ h => (collect_calm h).admitted

theorem admits_tryCollect (child : ThreadId) : Admits (tryCollect child) :=
  discreet_admits.tryCollect child (admits_collect · child)

theorem schedules_reportFork : Schedules reportFork :=
  closes_schedules.reportFork admits_changeFamily schedules_up

theorem schedules_awaitFork (child : ThreadId) : Schedules (awaitFork child) :=
  closes_schedules.awaitFork child schedules_down

theorem admits_register (name : String) (priority : Priority) (entry : Option String)
    (task : Option Task) : Admits (register name priority entry task) :=
  discreet_admits.register name priority entry task (.of_quiet fun _ _ _ => quiet_takeStack)
    fun _ _ _ => admits_modify (fun _ => rfl) (fun _ => rfl) fun _ => rfl

theorem admits_adopt (parent child : ThreadId) : Admits (adopt parent child) :=
  discreet_admits.adopt parent child (admits_newSemaphore 0) admits_changeFamily

theorem schedules_spawn (name : String) (priority : Priority) (task : Option Task) :
    Schedules (spawn name priority task) :=
  closes_schedules.spawn name priority task
    (admits_register · priority · task) admits_adopt admits_unblock schedules_preempt

/-! ## Handlers -/

/-- Who runs and who is ready have not changed. -/
theorem Scheduled.same_left (h : m.Scheduled k') (hc : m.current = k.current)
    (hr : m.ready = k.ready) : k.Scheduled k' := by
  unfold Scheduled Newcomers at h ⊢
  rwa [hc, hr] at h

theorem Scheduled.of_same (hc : k'.current = k.current) (hr : k'.ready = k.ready) :
    k.Scheduled k' :=
  ⟨[], .nil k, .inl ⟨hc, by rw [hr, List.append_nil]⟩⟩

theorem enterHandler_eq_ok {was : Bool} (h : enterHandler k = .ok was k') :
    k'.machine.inHandler = true ∧ k'.current = k.current ∧ k'.ready = k.ready := by
  unfold enterHandler at h
  simp only [bind_eq_ok, setHandler_eq_ok, pure_eq_ok] at h
  obtain ⟨_, m, hm, _, _, ⟨-, rfl⟩, -, rfl⟩ := h
  have hq := quiet_mask hm
  exact ⟨rfl, hq.current, hq.ready⟩

/-- Inside a handler nobody is dispatched. -/
theorem preempt_admitted (hh : k.machine.inHandler = true) (h : preempt k = .ok u k') :
    k.Admitted k' := by
  unfold preempt at h
  rw [ask_bind_eq_ok] at h
  obtain ⟨b, -, h⟩ := h
  split at h
  · rw [get_bind_eq_ok, if_pos hh, modify_eq_ok] at h
    exact h ▸ .of_eq rfl rfl rfl
  · obtain ⟨-, rfl⟩ := pure_eq_ok.mp h
    exact .of_eq rfl rfl rfl

theorem wakeSleepers_admitted {now n : Nat} (hh : k.machine.inHandler = true)
    (h : wakeSleepers now k = .ok n k') : k.Admitted k' := by
  unfold wakeSleepers at h
  obtain ⟨woken, m, hm, h⟩ := bind_eq_ok.mp h
  have ha := admits_masked (admits_get.bind fun _ => admits_wakeDue now _) _ _ _ hm
  split at h
  · obtain ⟨_, n, hn, h⟩ := bind_eq_ok.mp h
    obtain ⟨-, rfl⟩ := pure_eq_ok.mp h
    exact ha.trans (preempt_admitted (ha.handler.trans hh) hn)
  · obtain ⟨-, rfl⟩ := pure_eq_ok.mp h
    exact ha

theorem admits_countSlice : Admits countSlice :=
  discreet_admits.countSlice (fun _ => admits_modify (fun _ => rfl) (fun _ => rfl) fun _ => rfl)
    (admits_modify (fun _ => rfl) (fun _ => rfl) fun _ => rfl)

theorem Schedules.bind_unmask {x : CoreM Unit} (hx : Schedules x) (was : Bool) :
    Schedules (x >>= fun _ => onMachine (Machine.unmask was)) := by
  intro k _ k' h
  obtain ⟨_, m, hm, h⟩ := bind_eq_ok.mp h
  exact (hx k _ m hm).calm_right (quiet_unmask h).alike.calm

theorem schedules_leaveHandler (was : Bool) : Schedules (leaveHandler was) := by
  intro k _ k' h
  unfold leaveHandler at h
  obtain ⟨_, m, hm, h⟩ := bind_eq_ok.mp h
  obtain ⟨-, rfl⟩ := setHandler_eq_ok.mp hm
  refine Scheduled.same_left (m := { k with machine := { k.machine with inHandler := false } }) ?_
    rfl rfl
  refine Admits.bind_schedules admits_get (fun n => ?_) _ _ _ h
  refine Admits.bind_schedules (admits_modify (fun _ => rfl) (fun _ => rfl) fun _ => rfl)
    fun _ => admits_get.bind_schedules fun n => ?_
  split
  · exact (schedules_endTurn (by decide)).bind_unmask was
  split
  · exact schedules_yieldNow.bind_unmask was
  · exact (admits_unmask was).schedules

theorem timerInterrupt_scheduled (h : timerInterrupt k = .ok u k') : k.Scheduled k' := by
  unfold timerInterrupt handleInterrupt at h
  obtain ⟨was, m, hm, h⟩ := bind_eq_ok.mp h
  obtain ⟨hh, hc, hr⟩ := enterHandler_eq_ok hm
  refine Scheduled.same_left ?_ hc hr
  obtain ⟨_, n, hn, h⟩ := bind_eq_ok.mp h
  rw [get_bind_eq_ok] at hn
  obtain ⟨_, m₁, h₁, hn⟩ := bind_eq_ok.mp hn
  obtain ⟨_, m₂, h₂, hn⟩ := bind_eq_ok.mp hn
  obtain ⟨_, m₃, h₃, hn⟩ := bind_eq_ok.mp hn
  obtain ⟨-, rfl⟩ := pure_eq_ok.mp hn
  have ha₁ := (quiet_countTick h₁).alike.calm.admitted
  have ha₂ := ha₁.trans (admits_countSlice _ _ _ h₂)
  have ha₃ := ha₂.trans (wakeSleepers_admitted (ha₂.handler.trans hh) h₃)
  exact ((schedules_leaveHandler was).bind_pure _ _ _ _ h).admitted_left ha₃

theorem tick_scheduled (h : tick k = .ok u k') : k.Scheduled k' := by
  unfold tick at h
  obtain ⟨_, m, hm, h⟩ := bind_eq_ok.mp h
  exact (timerInterrupt_scheduled h).admitted_left (quiet_advance hm).alike.calm.admitted

/-! ## Waiting for a child and exiting -/

theorem schedules_awaitExit (child : ThreadId) : Schedules (awaitExit child) := by
  refine (admits_ask _).bind_schedules fun th => (admits_collect _ _).bind_schedules fun first => ?_
  split
  · exact (admits_pure _).schedules
  · exact (admits_pure _).schedules
  refine (admits_ask _).bind_schedules fun r => ?_
  split
  · exact (admits_pure _).schedules
  · intro k a k' h
    obtain ⟨_, m, hm, h⟩ := bind_eq_ok.mp h
    have hs := schedules_down _ _ _ _ hm
    rw [get_bind_eq_ok] at h
    split at h
    · exact (pure_eq_ok.mp h).2 ▸ hs
    · obtain ⟨second, n, hn, h⟩ := bind_eq_ok.mp h
      have hs' := hs.calm_right (collect_calm hn)
      rcases second with refusal | _ | _
      · exact (pure_eq_ok.mp h).2 ▸ hs'
      · exact (pure_eq_ok.mp h).2 ▸ hs'
      · cases h

/-- The thread that exits was not in the queue, so that its priority is of no account. -/
theorem Sound.exit_scheduled (hk : k.Sound g) (hg : g.state = .running)
    (hns : g.terms.strays = []) (h : Core.exit k = .ok u k') : k.Scheduled k' := by
  obtain ⟨m₁, m₂, m₃, h₁, hq, hm, hleave, h, hq'⟩ := hk.exit_eq_ok hns h
  have hdying := hm.stand hg .dying (by decide)
  obtain ⟨t, hpassed, -⟩ := hdying.endTurn (by simp) (fun _ => hleave) h
  have ha : k.Admitted m₂ := (admits_leaveFamily _ _ _ _ h₁).trans hq.alike.calm.admitted
  have hs : m₂.Scheduled m₃ := by
    refine ⟨[], .nil m₂, .inr ?_⟩
    rw [List.append_nil, hpassed.current, hpassed.idle, hpassed.ready]
    exact hpassed.chooses.picks.congr hpassed.priority
  exact (hs.admitted_left ha).calm_right hq'.alike.calm

end Core

end ThreadCore
