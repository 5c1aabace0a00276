import ThreadCore.Proofs.Watches

/-!
# Returns from interrupts

An interrupt takes effect on return. Whatever its handler has done, when it has been left the flag
is off, no request to yield is left, the idle thread runs only if no thread is ready, and a ready
thread outranks the one that runs only if the handler made it ready with a bare `unblock`, or
signalled while the priority of the running thread was out of date, and had not asked for a yield in
the end (`interrupt_returns`).

What the handler keeps is in `Handling.heeds`, call by call in `execute_heeds`; the return then
looks at the request to yield (`Core.Steered.leaveHandler`).
-/

namespace ThreadCore

namespace Core

variable {k k' : Core} {u : Unit} {was : Bool} {t : ThreadId} {σ : ThreadState}
  {excused : ThreadId → Prop}

/-! ## Entering and leaving -/

theorem enterHandler_enters (h : enterHandler k = .ok was k') :
    k.machine.inHandler = false ∧ (k.Orderly → k'.Orderly) := by
  unfold enterHandler at h
  simp only [bind_eq_ok, setHandler_eq_ok, pure_eq_ok] at h
  obtain ⟨_, m, hm, _, _, ⟨hne, rfl⟩, -, rfl⟩ := h
  have hq := quiet_mask hm
  have hm : m.machine.inHandler = false := by simpa using hne
  exact ⟨hq.handler.symm.trans hm, fun ho => (Settled.alike (.inl ho) hq.alike).orderly hm⟩

/-- There is no handler within a handler. -/
theorem watches_handleInterrupt {α : Type} (handler : CoreM α) :
    Watches excused (handleInterrupt handler) := by
  intro k _ k' hh h
  obtain ⟨_, _, hm, -⟩ := bind_eq_ok.mp h
  rw [(enterHandler_enters hm).1] at hh
  cases hh

theorem watches_ticks (n : Nat) : Watches excused (ticks n) := by
  induction n with
  | zero => exact watches_pure _
  | succ n ih =>
    have hadvance : Watches excused (onMachine Machine.advance) :=
      .of_quiet fun _ _ _ => quiet_advance
    exact (hadvance.bind fun _ => watches_handleInterrupt _).bind fun _ => ih

/-- The thread that runs was chosen last. -/
structure Chosen (k k' : Core) : Prop where
  orderly : k'.Orderly
  handler : k'.machine.inHandler = k.machine.inHandler
  pending : k'.yieldPending = k.yieldPending

theorem Chosen.quiet_left {m : Core} (h : Chosen m k') (hq : Quiet k m) : Chosen k k' :=
  ⟨h.orderly, h.handler.trans hq.handler, h.pending.trans hq.alike.pending⟩

theorem Chosen.quiet_right {m : Core} (h : Chosen k m) (hh : k.machine.inHandler = false)
    (hq : Quiet m k') : Chosen k k' := by
  have hhandler := hq.handler.trans h.handler
  have hset : k'.Settled := Settled.alike (.inl h.orderly) hq.alike
  exact ⟨hset.orderly (hhandler.trans hh), hhandler, hq.alike.pending.trans h.pending⟩

theorem chosen_endTurn (hσ : σ ≠ .dying) (hi : k.idle ∉ k.ready.entries)
    (h : endTurn σ k = .ok u k') : Chosen k k' := by
  obtain ⟨m, t, hq, hch, -, ha⟩ := endTurn_alike h
  have hpassed : m.Passed k' t := by
    refine ⟨hch, congrArg Seating.current ha.seating, congrArg Seating.idle ha.seating,
      congrArg (fun s : Seating => s.queue .ready) ha.seating, fun v _ => ?_, ha.handler⟩
    rw [priorityOf_eq, priorityOf_eq, ha.waits, waits_turned_of_lives hσ]
  have hm : Chosen m k' := ⟨hpassed.orderly (by rwa [hq.idle, hq.ready]), ha.handler, ha.pending⟩
  exact hm.quiet_left hq

theorem chosen_yieldNow (hid : ∀ th, k.running = .ok th → th.id = k.current)
    (hi : k.idle ∉ k.ready.entries) (h : yieldNow k = .ok u k') : Chosen k k' := by
  unfold yieldNow at h
  simp only [outsideHandler_bind_eq_ok, ask_bind_eq_ok] at h
  obtain ⟨hh, th, hr, h⟩ := h
  obtain ⟨m, m', hq, h, hq'⟩ := masked_eq_ok h
  have him : m.idle ∉ m.ready.entries := by rwa [hq.idle, hq.ready]
  rw [get_bind_eq_ok, hid th hr] at h
  refine Chosen.quiet_left ?_ hq
  have hhm : m.machine.inHandler = false := hq.handler.trans hh
  split at h
  · exact (chosen_endTurn (by decide) him h).quiet_right hhm hq'
  · rename_i hne
    obtain ⟨_, n, hn, h⟩ := bind_eq_ok.mp h
    obtain ⟨-, rfl⟩ := enqueueReady_eq_ok.mp hn
    have hchosen := chosen_endTurn (by decide) (by simpa using ⟨him, fun e => hne e.symm⟩) h
    exact Chosen.quiet_right ⟨hchosen.orderly, hchosen.handler, hchosen.pending⟩ hhm hq'

/-- A handler has been left: the thread that runs was chosen, or nothing asked for a choice. -/
structure LeftHandler (k k' : Core) : Prop where
  handler : k'.machine.inHandler = false
  pending : k'.yieldPending = false
  order : k'.Orderly ∨ k'.current ≠ k'.idle ∧ k.yieldPending = false ∧ k'.current = k.current ∧
    k'.idle = k.idle ∧ k'.ready.entries = k.ready.entries ∧ ∀ t, k'.priorityOf t = k.priorityOf t

theorem Steered.leaveHandler (hk : k.Steered .running) (h : leaveHandler was k = .ok u k') :
    LeftHandler k k' := by
  unfold Core.leaveHandler at h
  obtain ⟨_, m, hm, h⟩ := bind_eq_ok.mp h
  obtain ⟨-, rfl⟩ := setHandler_eq_ok.mp hm
  rw [get_bind_eq_ok, modify_bind_eq_ok, get_bind_eq_ok] at h
  let m : Core := { k with machine := { k.machine with inHandler := false }, yieldPending := false }
  have hm : m.Steered .running := hk.congr (fun _ => rfl) (fun _ => rfl) rfl rfl rfl rfl
  have hchosen : ∀ n, Chosen m n → onMachine (Machine.unmask was) n = .ok u k' →
      LeftHandler k k' := by
    intro n hn hu
    have hc := hn.quiet_right rfl (quiet_unmask hu)
    exact ⟨hc.handler, hc.pending, .inl hc.orderly⟩
  by_cases hi : k.current = k.idle
  · rw [if_pos hi] at h
    obtain ⟨_, n, hn, h⟩ := bind_eq_ok.mp h
    exact hchosen n (chosen_endTurn (by decide) hm.idle_not_mem hn) h
  rw [if_neg hi] at h
  by_cases hp : k.yieldPending = true
  · rw [if_pos hp] at h
    obtain ⟨_, n, hn, h⟩ := bind_eq_ok.mp h
    have hid : ∀ th, m.running = .ok th → th.id = m.current := fun th hr =>
      hm.current_id (running_eq_ok.mp hr).1
    exact hchosen n (chosen_yieldNow hid hm.idle_not_mem hn) h
  · rw [if_neg hp] at h
    have ha := (quiet_unmask h).alike
    have hi' : k'.current ≠ k'.idle := by rwa [ha.current, ha.idle]
    exact ⟨ha.handler, ha.pending,
      .inr ⟨hi', by simpa using hp, ha.current, ha.idle, ha.ready, ha.priorityOf⟩⟩

/-- Where the order held before the handler and nothing asks for a choice after it, a thread that
outranks the current one is excused. -/
theorem Heeds.excuses (h : Heeds excused k k') (ho : k.Orderly) (hi : k'.current ≠ k'.idle)
    (hp : k'.yieldPending = false) (ht : t ∈ k'.ready.entries)
    (hlt : k'.priorityOf k'.current < k'.priorityOf t) : excused t := by
  rcases h.watched with (ho' | ⟨-, hp' | hi'⟩) | hbefore
  · exact absurd hlt (not_lt.mpr (ho'.priority_le ht))
  · rw [hp] at hp'
    cases hp'
  · exact absurd hi' hi
  · rw [h.current] at hlt
    exact (hbefore t ht hlt).resolve_left fun hm => absurd hm.2 (not_lt.mpr (ho.priority_le hm.1))

end Core

namespace Session

open ThreadCore.Core (Keeps Heeds Watches Calm)

variable {α β : Type} {s s' s₁ s₂ : Session} {a : Answer} {c : Call} {was : Bool} {log : List Entry}
  {excused : ThreadId → Prop}

/-! ## Calls in a handler -/

/-- The call may leave `t` more urgent than the thread at work without asking for a yield. -/
def Unheeded (s : Session) (t : ThreadId) : Call → Prop
  | .unblock v => t = v
  | .signal _ _ | .broadcast _ _ => ¬ s.core.UpToDate
  | _ => False

/-- **Calls.** In a handler, a call that leaves the handler flag alone lets no thread outrank the
current one unheeded, but for `unblock` and a signal while the priority of the current thread is out
of date. -/
theorem execute_heeds (hs : s.core.Steered .running) (hin : s.core.machine.inHandler = true)
    (hc : ∀ on, c ≠ .setHandler on) (h : execute c s = .ok a s') :
    Heeds (fun t => s.Unheeded t c) s.core s'.core := by
  have hid : ∀ th, s.core.running = .ok th → th.id = s.core.current := fun th hr =>
    hs.current_id (Core.running_eq_ok.mp hr).1
  obtain hquiet | ⟨hq, α, e, r, hp, hx⟩ := execute_step h
  · exact hquiet.alike.calm.heeds
  have hdo : ∀ {excused}, Watches excused e.step → Heeds excused s.core s'.core :=
    fun hw => hw _ _ _ hin hx
  cases hp with
  | create _ _ | spawn _ _ _ => exact hdo (Core.watches_spawn _ _ _)
  | exit | yield | block | sleepUntil _ | acquire _ | await _ _ =>
    exact hdo (Core.watches_outside _ _)
  | sleepFor _ => exact hdo (Core.keeps_get.watches.bind fun _ => Core.watches_outside _ _)
  | unblock t => exact hdo (Core.watches_unblock t)
  | setPriority p => exact hdo (Core.settles_setPriority p).watches
  | overwrite _ _ _ => exact hdo (Core.vigil_overwrite _ _).watches
  | wakeSleepers now => exact hdo (Core.watches_wakeSleepers now)
  | timer => exact hdo (Core.watches_handleInterrupt _)
  | tick n => exact hdo (Core.watches_ticks n)
  | yieldOnReturn => exact hdo Core.watches_yieldOnReturn
  | setHandler on => exact absurd rfl (hc on)
  | newSemaphore value => exact hdo (Core.vigil_newSemaphore value).watches
  | down _ => exact hdo (Core.watches_down _)
  | tryDown _ => exact hdo (Core.vigil_tryDown _).watches
  | up _ => exact hdo (Core.watches_up _)
  | destroySemaphore _ => exact hdo (Core.vigil_destroySemaphore _).watches
  | newLock => exact hdo Core.vigil_newLock.watches
  | tryAcquire _ => exact hdo (Core.vigil_tryAcquire _).watches
  | release _ => exact hdo (Core.settles_release _).watches
  | destroyLock _ => exact hdo (Core.vigil_destroyLock _).watches
  | newCondition => exact hdo Core.vigil_newCondition.watches
  | signal _ _ => exact Core.heeds_signal hid hx
  | broadcast _ _ => exact Core.heeds_broadcast hid hx
  | destroyCondition _ => exact hdo (Core.vigil_destroyCondition _).watches
  | setExitStatus status => exact hdo (Core.vigil_setExitStatus status).watches
  | reportFork => exact hdo Core.watches_reportFork
  | awaitFork child => exact hdo (Core.watches_awaitFork child)
  | awaitExit child => exact hdo (Core.watches_awaitExit child)
  | tryCollect child => exact hdo (Core.vigil_tryCollect child).watches
  | ask ha => cases hq.symm.trans ha.isQuiet
  | _ => cases hq

/-! ## Handlers -/

/-- A handler at work: it makes calls, of which none moves the handler flag. The log has the latest
first. -/
inductive Handling (s : Session) : List Entry → Session → Prop
  | start : Handling s [] s
  | call {log : List Entry} {s₁ s₂ : Session} {c : Call} {a : Answer} : Handling s log s₁ →
      (∀ on, c ≠ .setHandler on) → execute c s₁ = .ok a s₂ →
      Handling s (⟨s₁, .call c a, s₂⟩ :: log) s₂

/-- A call in the log may have left `t` more urgent than the thread at work without asking for a
yield. -/
def LeftUnheeded (log : List Entry) (t : ThreadId) : Prop :=
  ∃ e ∈ log, ∃ c a, e.deed = .call c a ∧ e.before.Unheeded t c

/-- **Handlers.** What one call does in a handler, a whole handler does. -/
theorem Handling.heeds (h : Handling s log s') (hs : s.core.Steered .running)
    (hin : s.core.machine.inHandler = true) :
    s'.core.Steered .running ∧ Heeds (LeftUnheeded log) s.core s'.core := by
  induction h with
  | start => exact ⟨hs, (Calm.refl _).heeds⟩
  | @call log s₁ s₂ c a _ hc he ih =>
    obtain ⟨hs₁, hbefore⟩ := ih
    have hin₁ : s₁.core.machine.inHandler = true := hbefore.handler.trans hin
    refine ⟨hs₁.course (Leads.course (.call he)), Heeds.trans hin (hbefore.mono ?_)
      ((execute_heeds hs₁ hin₁ hc he).mono ?_)⟩
    · rintro t ⟨e, hmem, hcall⟩
      exact ⟨e, List.mem_cons_of_mem _ hmem, hcall⟩
    · intro t hunheeded
      exact ⟨_, List.mem_cons_self, c, a, rfl, hunheeded⟩

/-- In a considerate run the thread at work is up to date, so that no signal goes unheeded. -/
theorem Logged.upToDate {allowed : List Entry → Session → Call → Prop} {frames : List Bool}
    (hall : ∀ log s c, allowed log s c → Considerate s c) (h : Logged allowed log frames s) :
    s.core.UpToDate :=
  (h.inOrder hall).upToDate rfl

/-! ## Interrupts of a run -/

theorem perform_call (h : (perform s (.call c)).2 = (s', none)) : ∃ a, execute c s = .ok a s' := by
  unfold perform at h
  cases he : execute c s with
  | error halt m =>
    rw [he] at h
    cases h
  | ok a m =>
    rw [he] at h
    cases h
    exact ⟨a, rfl⟩

theorem performAll_cons {op : Operation} {ops : List Operation}
    (h : (performAll s (op :: ops)).2 = (s', none)) :
    ∃ m, (perform s op).2 = (m, none) ∧ (performAll m ops).2 = (s', none) := by
  unfold performAll at h
  rcases hp : perform s op with ⟨step, m, halted⟩
  rw [hp] at h
  cases halted with
  | some halt => cases h
  | none => exact ⟨m, rfl, h⟩

/-- An interrupt that does not halt enters its handler, performs it and leaves it. -/
theorem perform_interrupt {handler : List Operation}
    (h : (perform s (.interrupt handler)).2 = (s', none)) :
    ∃ was s₁ s₂ a, onCore Core.enterHandler s = .ok was s₁ ∧
      (performAll s₁ handler).2 = (s₂, none) ∧ act (Core.leaveHandler was) s₂ = .ok a s' := by
  unfold perform at h
  cases he : onCore Core.enterHandler s with
  | error halt m =>
    rw [he] at h
    cases h
  | ok was s₁ =>
    simp only [he] at h
    rcases hp : performAll s₁ handler with ⟨steps, s₂, halted⟩
    rw [hp] at h
    cases halted with
    | some halt => cases h
    | none =>
      cases hl : act (Core.leaveHandler was) s₂ with
      | error halt m =>
        simp only [hl] at h
        cases h
      | ok a m =>
        simp only [hl] at h
        cases h
        exact ⟨was, s₁, s₂, a, rfl, by rw [hp], hl⟩

/-- The operations of a handler, if none halts, are the calls of a handler at work. -/
theorem handling_performAll {ops : List Operation} (hs : s.core.Steered .running)
    (hin : s.core.machine.inHandler = true) (hflag : ∀ on, .call (.setHandler on) ∉ ops)
    (hh : Handling s log s₁) (h : (performAll s₁ ops).2 = (s₂, none)) :
    ∃ log', Handling s log' s₂ ∧
      ∀ e ∈ log', e ∈ log ∨ ∃ c a, e.deed = .call c a ∧ Operation.call c ∈ ops := by
  induction ops generalizing log s₁ with
  | nil =>
    cases h
    exact ⟨log, hh, fun e he => .inl he⟩
  | cons op ops ih =>
    obtain ⟨m, hop, hops⟩ := performAll_cons h
    cases op with
    | interrupt handler =>
      -- A handler within the handler would have halted.
      obtain ⟨was, _, _, _, he, -⟩ := perform_interrupt hop
      obtain ⟨k, hk, -⟩ := onCore_eq_ok.mp he
      have hin₁ : s₁.core.machine.inHandler = true := (hh.heeds hs hin).2.handler.trans hin
      rw [(Core.enterHandler_enters hk).1] at hin₁
      cases hin₁
    | call c =>
      obtain ⟨a, he⟩ := perform_call hop
      have hnot : ∀ on, c ≠ .setHandler on := by
        rintro on rfl
        exact hflag on List.mem_cons_self
      obtain ⟨log', hlog, hcalls⟩ :=
        ih (fun on hm => hflag on (List.mem_cons_of_mem _ hm)) (hh.call hnot he) hops
      refine ⟨log', hlog, fun e hmem => ?_⟩
      rcases hcalls e hmem with hmem | ⟨c', a', hd, hc⟩
      · rcases List.mem_cons.mp hmem with rfl | hmem
        · exact .inr ⟨c, a, rfl, List.mem_cons_self⟩
        · exact .inl hmem
      · exact .inr ⟨c', a', hd, List.mem_cons_of_mem _ hc⟩

/-! ## The return -/

/-- **Interrupts.** An interrupt comes in a state of any run in which no ready thread outranks the
one that runs, its handler makes calls of any kind, of which none moves the handler flag, and is
left. Then:

* the handler flag is off, and no request to yield is left;
* the idle thread runs only if no thread is ready;
* a ready thread outranks the one that runs only if that is the one that was interrupted, nobody had
  asked for a yield when the handler was left, and the handler unblocked that thread by hand, or
  signalled while the thread at work waited for a lock or its priority was out of date. -/
theorem interrupt_returns {allowed : Session → Call → Prop} {frames : List Bool}
    (h : Reached allowed frames s) (ho : s.core.Orderly)
    (he : onCore Core.enterHandler s = .ok was s₁)
    (hh : Handling s₁ log s₂) (hl : act (Core.leaveHandler was) s₂ = .ok a s') :
    s'.core.machine.inHandler = false ∧ s'.core.yieldPending = false ∧
      (s'.core.current = s'.core.idle → s'.core.ready = .empty) ∧
      ∀ t ∈ s'.core.ready, s'.core.priorityOf s'.core.current < s'.core.priorityOf t →
        s'.core.current = s.core.current ∧ s₂.core.yieldPending = false ∧ LeftUnheeded log t := by
  have hs₁ : s₁.core.Steered .running := h.steered.course (Leads.enter he).course
  obtain ⟨k, hk, rfl⟩ := onCore_eq_ok.mp he
  obtain ⟨hin, hcurrent, -⟩ := Core.enterHandler_eq_ok hk
  obtain ⟨hs₂, hheeds⟩ := hh.heeds hs₁ hin
  obtain ⟨_, k', hk', rfl⟩ := act_eq_ok hl
  obtain ⟨hhandler, hpending, horder⟩ := hs₂.leaveHandler hk'
  rcases horder with ho' | ⟨hi, hp, hcurrent', hidle, hready, hpriority⟩
  · -- The thread that runs was chosen on return.
    exact ⟨hhandler, hpending, ho'.ready_eq_empty, fun t ht hlt =>
      absurd hlt (not_lt.mpr (ho'.priority_le ht))⟩
  · refine ⟨hhandler, hpending, fun hi' => absurd hi' hi, fun t ht hlt => ⟨?_, hp, ?_⟩⟩
    · exact hcurrent'.trans (hheeds.current.trans hcurrent)
    · rw [hcurrent', hpriority, hpriority] at hlt
      rw [Queue.mem_def, hready] at ht
      have hi' : s₂.core.current ≠ s₂.core.idle := by rwa [← hcurrent', ← hidle]
      exact hheeds.excuses ((Core.enterHandler_enters hk).2 ho) hi' hp ht hlt

/-- The handler makes its thread less urgent, brings a unit that a more urgent thread waits for, and
creates a third one. On return the woken thread runs. -/
theorem interrupt_returns_woken : ∃ s was s₁ log s₂ a s', Reached (fun _ _ => True) [] s ∧
    s.core.Orderly ∧ s.core.current = 1 ∧ onCore Core.enterHandler s = .ok was s₁ ∧
    Handling s₁ log s₂ ∧ act (Core.leaveHandler was) s₂ = .ok a s' ∧ s'.core.current = 3 ∧
    s'.core.ready.entries = [4, 1] ∧
    (s'.core.machine.inHandler = false ∧ s'.core.yieldPending = false ∧
      (s'.core.current = s'.core.idle → s'.core.ready = .empty) ∧
      ∀ t ∈ s'.core.ready, s'.core.priorityOf s'.core.current < s'.core.priorityOf t →
        s'.core.current = s.core.current ∧ s₂.core.yieldPending = false ∧ LeftUnheeded log t) := by
  let handler : List Operation := [.call (.setPriority 20), .call (.up 0), .call (.create "new" 35)]
  have hrun : (replayFrom (fun _ _ _ => true) ⟨none, none, none, false, none⟩
      [.newSemaphore 0, .create "waits" 40, .down 0]).any (fun r =>
        let after := (perform r.2 (.interrupt handler)).2
        r.2.core.Orderly ∧ r.2.core.current = 1 ∧ after.2 = none ∧ after.1.core.current = 3 ∧
          after.1.core.ready.entries = [4, 1]) = true := by
    decide +kernel
  obtain ⟨⟨log, s⟩, hs, hrun⟩ := (Option.any_eq_true _ _).mp hrun
  obtain ⟨ho, hcurrent, hdone, hwoken, hready⟩ := of_decide_eq_true hrun
  have hlog : Logged (fun _ _ _ => True) log [] s := logged_replayFrom (fun _ _ _ _ => trivial) hs
  have hreach : Reached (fun _ _ => True) [] s := hlog.reached fun _ _ _ _ => trivial
  obtain ⟨was, s₁, s₂, a, he, hp, hl⟩ := perform_interrupt (Prod.ext rfl hdone)
  have hs₁ : s₁.core.Steered .running := hreach.steered.course (Leads.enter he).course
  obtain ⟨k, hk, rfl⟩ := onCore_eq_ok.mp he
  obtain ⟨calls, hh, -⟩ := handling_performAll hs₁ (Core.enterHandler_eq_ok hk).1
    (by simp [handler]) .start hp
  exact ⟨s, was, _, calls, s₂, a, _, hreach, ho, hcurrent, he, hh, hl, hwoken, hready,
    interrupt_returns hreach ho he hh hl⟩

/-- A thread that is not in any queue is unblocked in a handler and outranks the thread that runs
when the handler has returned. And a signal in a handler takes a priority from the thread that runs
which it had from a thread that was unblocked while it waited, and which it needs to outrank a third
one. -/
theorem outranked_on_return :
    (∃ s s', Reached (fun _ _ => True) [] s ∧ s.core.Orderly ∧ Loose s (.unblock 3) ∧
      (perform s (.interrupt [.call (.unblock 3)])).2 = (s', none) ∧ s'.core.current = 1 ∧
      s'.core.ready.entries = [3] ∧ s'.core.priorityOf 1 = 31 ∧ s'.core.priorityOf 3 = 40) ∧
    ∃ s s', Reached (fun _ _ => True) [] s ∧ s.core.Orderly ∧
      (perform s (.interrupt [.call (.signal 0 0)])).2 = (s', none) ∧ s'.core.current = 1 ∧
      s'.core.ready.entries = [4, 5] ∧ s'.core.priorityOf 1 = 40 ∧ s'.core.priorityOf 5 = 45 := by
  have hreach : ∀ {cs : List Call} {log : List Entry} {s : Session},
      replayFrom (fun _ _ _ => true) ⟨none, none, none, false, none⟩ cs = some (log, s) →
      Reached (fun _ _ => True) [] s := by
    intro cs log s hs
    have hlog : Logged (fun _ _ _ => True) log [] s := logged_replayFrom (fun _ _ _ _ => trivial) hs
    exact hlog.reached fun _ _ _ _ => trivial
  constructor
  · have hrun : (replayFrom (fun _ _ _ => true) ⟨none, none, none, false, none⟩
        [.create "blocks" 40, .disableInterrupts, .block, .enableInterrupts]).any (fun r =>
          let after := (perform r.2 (.interrupt [.call (.unblock 3)])).2
          r.2.core.Orderly ∧ (3 ∉ r.2.core.sleepers ∧ ∀ e ∈ r.2.core.objects.waitLists, 3 ∉ e.2) ∧
            after.2 = none ∧ after.1.core.current = 1 ∧ after.1.core.ready.entries = [3] ∧
            after.1.core.priorityOf 1 = 31 ∧ after.1.core.priorityOf 3 = 40) = true := by
      decide +kernel
    obtain ⟨⟨log, s⟩, hs, hrun⟩ := (Option.any_eq_true _ _).mp hrun
    obtain ⟨ho, hloose, hdone, hafter⟩ := of_decide_eq_true hrun
    exact ⟨s, _, hreach hs, ho, fun t ht => Call.unblock.inj ht ▸ hloose, Prod.ext rfl hdone,
      hafter⟩
  · have hrun : (replayFrom (fun _ _ _ => true) ⟨none, none, none, false, none⟩
        [.newLock, .newCondition, .create "waits" 40, .acquire 0, .await 0 0, .acquire 0,
          .create "donates" 50, .acquire 0, .unblock 4, .yield, .setPriority 5,
          .create "ready" 45]).any (fun r =>
          let after := (perform r.2 (.interrupt [.call (.signal 0 0)])).2
          r.2.core.Orderly ∧ after.2 = none ∧ after.1.core.current = 1 ∧
            after.1.core.ready.entries = [4, 5] ∧ after.1.core.priorityOf 1 = 40 ∧
            after.1.core.priorityOf 5 = 45) = true := by
      decide +kernel
    obtain ⟨⟨log, s⟩, hs, hrun⟩ := (Option.any_eq_true _ _).mp hrun
    obtain ⟨ho, hdone, hafter⟩ := of_decide_eq_true hrun
    exact ⟨s, _, hreach hs, ho, Prod.ext rfl hdone, hafter⟩

end Session

end ThreadCore
