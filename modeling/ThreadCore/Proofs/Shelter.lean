import ThreadCore.Proofs.Restraint
import ThreadCore.Proofs.Returns

/-!
# Handlers do not switch

An operation that ends a turn moves nobody into a queue of an object, or among the sleepers, but the
thread that it blocks, and that one only if it has to wait. Inside a handler it does not end a turn
at all: what waits halts before it has done anything, and what gives way leaves it to the return
(`Core.Sheltered`).

So from when a handler is entered until it returns, the interrupted thread keeps the processor,
whatever operations the handler performs and however it ends. All that it calls for happens after
the handler flag was cleared (`Session.handler_abides`).
-/

namespace ThreadCore

namespace Core

variable {α β : Type} {k k' m : Core} {t : ThreadId} {s l c : ObjectId} {σ : ThreadState}
  {N : Set (Seat × ThreadId)}

/-! ## Who joins a queue when a turn ends -/

theorem passes_modify {g : Core → Core}
    (hg : ∀ k,
      ((g k).sleepers, (g k).objects, (g k).machine) = (k.sleepers, k.objects, k.machine)) :
    Respects (Passes N) (modify g) := by
  refine respects_modify fun k => ⟨joins_of_eq ?_ ?_, ?_⟩
  · exact congrArg (·.1) (hg k)
  · exact congrArg (·.2.1) (hg k)
  · exact (congrArg (·.2.2.ticks) (hg k)).ge

theorem passes_onMachine {step : MachineM α} (h : Respects Machine.Onward step) :
    Respects (Passes N) (onMachine step) := by
  intro k
  unfold RespectsAt
  rw [finalState_onMachine]
  exact ⟨joins_of_eq rfl rfl, h k.machine⟩

theorem onward_freePage : Respects Machine.Onward Machine.freePage := by
  intro w
  unfold RespectsAt Machine.freePage Machine.onPool
  split <;> exact le_rfl (α := Nat)

theorem onward_switch (running next : Context) :
    Respects Machine.Onward (Machine.switch running next) :=
  respects_get.bind fun _ => (respects_demand _ _).bind fun _ => (respects_demand _ _).bind fun _ =>
    .bind (respects_modify fun _ => le_rfl (α := Nat)) fun _ => respects_pure _

theorem onward_setHandler (on : Bool) : Respects Machine.Onward (Machine.setHandler on) :=
  respects_get.bind fun _ => (respects_demand _ _).bind fun _ =>
    respects_modify fun _ => le_rfl (α := Nat)

theorem discreet_passes (N : Set (Seat × ThreadId)) : Discreet fun _ => Respects (Passes N) :=
  discreet_respects fun _ _ h => h.passes.mono (Set.empty_subset N)

theorem passes_record (e : Event) : Respects (Passes N) (record e) :=
  passes_modify fun _ => rfl

theorem passes_say (n : Notice) : Respects (Passes N) (say n) := (discreet_passes N).say n

theorem passes_changeThread (t : ThreadId) (f : Thread → Thread) :
    Respects (Passes N) (changeThread t f) :=
  (abides_changeThread t f).mono fun _ _ h => h.passes

theorem passes_reclaim (n : Nat) : Respects (Passes N) (reclaim n) :=
  (discreet_passes N).reclaim n (fun _ => passes_modify fun _ => rfl) (fun _ => passes_record _)
    (passes_onMachine onward_freePage)

theorem passes_takeNext : Respects (Passes N) takeNext :=
  (discreet_passes N).takeNext fun _ => passes_modify fun _ => rfl

theorem passes_resume (source target : ThreadId) (running resumed : Context) :
    Respects (Passes N) (resume source target running resumed) :=
  (discreet_passes N).resume source target running resumed passes_record
    (passes_onMachine (onward_switch running resumed)) fun _ => passes_changeThread target _

theorem passes_switchTo (source target : ThreadId) : Respects (Passes N) (switchTo source target) :=
  (discreet_passes N).switchTo source target (passes_modify fun _ => rfl)
    (fun _ => passes_modify fun _ => rfl) (passes_resume source target)

theorem passes_dispatch : Respects (Passes N) dispatch :=
  (discreet_passes N).dispatch passes_takeNext (fun t => passes_changeThread t _)
    (fun _ => passes_record _) (passes_modify fun _ => rfl) passes_switchTo

theorem passes_endTurn (σ : ThreadState) : Respects (Passes N) (endTurn σ) :=
  (discreet_passes N).endTurn σ passes_reclaim (fun t => passes_changeThread t _) passes_dispatch

theorem RespectsAt.passes_masked {body : CoreM α}
    (hb : ∀ m, Quiet k m → RespectsAt (Passes N) body m) :
    RespectsAt (Passes N) (Core.masked body) k :=
  .masked (fun _ _ h => h.passes.mono (Set.empty_subset N)) hb

/-- Nobody waits after booting who did not wait before. -/
theorem passes_boot : Respects (Passes N) boot := by
  have hshutDown : Respects (Passes N) shutDown := by
    refine (discreet_passes N).masked <|
      respects_get.bind fun _ => .bind (passes_modify fun _ => rfl) fun _ =>
      partwise_respects.forM (fun _ => ?_) _
    exact (passes_record _).bind fun _ => passes_onMachine onward_freePage
  have hregister : ∀ name priority, Respects (Passes N) (register name priority none none) :=
    fun name priority => (abides_register name priority none none).mono fun _ _ h => h.passes
  have hunmask : Respects (Passes N) (onMachine (modify (·.withInterrupts true))) :=
    passes_onMachine (respects_modify fun _ => le_rfl (α := Nat))
  refine respects_get.bind fun _ => (respects_demand _ _).bind fun _ => respects_get.bind fun _ =>
    (hregister _ _).bind fun main => ?_
  split
  · exact hshutDown.bind fun _ => respects_pure _
  · refine (passes_changeThread _ _).bind fun _ =>
      .bind (passes_modify fun _ => rfl) fun _ =>
      (hregister _ _).bind fun idle => ?_
    split
    · exact hshutDown.bind fun _ => respects_pure _
    · exact .bind (passes_modify fun _ => rfl) fun _ =>
        hunmask.bind fun _ => (passes_say _).bind fun _ => respects_pure _

/-! ## Sheltered operations -/

/-- Nobody but `N` joins a queue, and inside a handler the turn goes on and nobody at all does. -/
def Sheltered (N : Set (Seat × ThreadId)) (k k' : Core) : Prop :=
  Passes N k k' ∧ (k.machine.inHandler = true → Abides ∅ k k')

instance : IsPreorder Core (Sheltered N) where
  refl k := ⟨refl_of (Passes N) k, fun _ => refl_of (Abides ∅) k⟩
  trans _ _ _ h h' := by
    refine ⟨trans_of (Passes N) h.1 h'.1, fun hh => ?_⟩
    have hs := h.2 hh
    exact trans_of (Abides ∅) hs (h'.2 (hs.handler.trans hh))

theorem Abides.sheltered (h : Abides ∅ k k') : Sheltered N k k' :=
  ⟨h.passes.mono (Set.empty_subset N), fun _ => h⟩

theorem Respects.sheltered {x : CoreM α} (hx : Respects (Restful ∅) x) : Respects (Sheltered N) x :=
  hx.mono fun _ _ h => h.toAbides.sheltered

theorem discreet_shelters (N : Set (Seat × ThreadId)) : Discreet fun _ => Respects (Sheltered N) :=
  discreet_respects fun _ _ h => h.toAbides.sheltered

theorem RespectsAt.outside {x : CoreM α} (hh : k.machine.inHandler = false)
    (hx : RespectsAt (Passes N) x k) : RespectsAt (Sheltered N) x k :=
  ⟨hx, fun h => Bool.noConfusion (h.symm.trans hh)⟩

/-- What is out of place in a handler halts there at once. -/
theorem RespectsAt.outsideHandler_bind {attempt : Attempt} {g : Unit → CoreM β}
    (hg : RespectsAt (Passes N) (g ()) k) :
    RespectsAt (Sheltered N) (outsideHandler attempt >>= g) k := by
  by_cases hh : k.machine.inHandler = false
  · refine .outside hh ((respects_outsideHandler attempt k).bind fun _ m hm => ?_)
    rw [outsideHandler, get_bind_eq_ok, demand_eq_ok] at hm
    exact hm.2 ▸ hg
  · refine (respects_outsideHandler attempt k).bind fun _ m hm => ?_
    rw [outsideHandler, get_bind_eq_ok, demand_eq_ok] at hm
    exact absurd hm.1 hh

theorem RespectsAt.sheltered_masked {body : CoreM α}
    (hb : ∀ m, Quiet k m → RespectsAt (Sheltered N) body m) :
    RespectsAt (Sheltered N) (Core.masked body) k :=
  .masked (fun _ _ h => h.toAbides.sheltered) hb

theorem shelters_block : Respects (Sheltered N) block := fun _ => .outsideHandler_bind <|
  (respects_get.bind fun _ => (respects_demand _ _).bind fun _ => passes_endTurn _) _

theorem shelters_yieldNow : Respects (Sheltered N) yieldNow := by
  refine fun k => .outsideHandler_bind <| (respects_ask _ _).bind fun th m _ => ?_
  refine .passes_masked fun n _ => (respects_get.bind fun k => ?_) n
  split
  · exact passes_endTurn _
  · exact Respects.bind ((rests_enqueueReady _).mono fun _ _ h => h.passes) fun _ => passes_endTurn
      _

theorem shelters_preempt : Respects (Sheltered N) preempt :=
  (discreet_shelters N).closes.preempt rests_request.sheltered shelters_yieldNow

theorem shelters_setPriority (p : Priority) : Respects (Sheltered N) (setPriority p) :=
  (discreet_shelters N).closes.setPriority p
    (fun t => .sheltered <| rests_changeThread t fun _ => rfl)
    (fun t => (rests_refreshPriority t).sheltered) shelters_preempt

theorem shelters_up (s : ObjectId) : Respects (Sheltered N) (up s) :=
  (discreet_shelters N).closes.up s (rests_wakeOne s).sheltered shelters_preempt

theorem shelters_release (l : ObjectId) : Respects (Sheltered N) (release l) :=
  (discreet_shelters N).closes.release l (fun t => (rests_passOn l t).sheltered) shelters_preempt

theorem shelters_reportFork : Respects (Sheltered N) reportFork :=
  (discreet_shelters N).closes.reportFork
    (fun t f => (rests_changeFamily t f).sheltered) shelters_up

theorem shelters_spawn (name : String) (priority : Priority) (task : Option Task) :
    Respects (Sheltered N) (spawn name priority task) :=
  (discreet_shelters N).closes.spawn name priority task
    (fun name entry => (abides_register name priority entry task).mono fun _ _ => Abides.sheltered)
    (fun parent child => (rests_adopt parent child).sheltered)
    (fun t => (rests_unblock t).sheltered) shelters_preempt

theorem shelters_wakeSleepers (now : Nat) : Respects (Sheltered N) (wakeSleepers now) :=
  (discreet_shelters N).closes.wakeSleepers now
    (fun n => (abides_wakeDue now n).mono fun _ _ => Abides.sheltered) shelters_preempt

theorem shelters_exit : Respects (Sheltered N) exit := by
  refine fun k => .outsideHandler_bind (Respects.bind (respects_ask _) (fun th => ?_) k)
  have hrest : Respects (Passes N) (do
      leaveFamily th.id
      say (.exits th.id (← ask (thread th.id)).name)
      masked (endTurn .dying)) :=
    .bind ((rests_leaveFamily _).mono fun _ _ h => h.passes) fun _ => (respects_ask _).bind fun _ =>
      (passes_say _).bind fun _ _ => .passes_masked fun m _ => passes_endTurn _ m
  refine respects_get.bind fun _ => (respects_demand _ _).bind fun _ =>
    respects_get.bind fun _ => ?_
  split
  · exact (respects_throw _).bind fun _ => hrest
  · exact hrest

/-! ### Operations that wait -/

theorem shelters_sleepUntil {tick : Nat}
    (hN : ∀ th, k.running = .ok th → th.id ≠ k.idle → (.sleep, th.id) ∈ N) :
    RespectsAt (Sheltered N) (sleepUntil tick) k := by
  refine .outsideHandler_bind (.ask_bind fun th hr => .get_bind ?_)
  split
  · exact respects_pure _ _
  rename_i hidle
  have ht : (.sleep, th.id) ∈ N := hN th hr fun hi => hidle (.inl hi)
  refine .passes_masked fun m _ => (passes_changeThread _ _ m).bind fun _ m₁ _ => ?_
  refine .ask_bind fun sleepers hs => ?_
  rw [Queue.push_eq_ok_iff] at hs
  have hpush : RespectsAt (Passes N) (modify fun k => { k with sleepers := sleepers }) m₁ := by
    refine ⟨joins_setQueue (seating_sleepers sleepers) fun u hu => ?_, le_rfl⟩
    rw [hs.2, List.mem_append, List.mem_singleton] at hu
    rcases hu with hu | rfl
    · exact .inl hu
    · exact .inr ht
  exact hpush.bind fun _ n _ => ((passes_say _).bind fun _ => passes_endTurn _) n

theorem shelters_sleepFor {ticks : Nat}
    (hN : ∀ th, k.running = .ok th → th.id ≠ k.idle → (.sleep, th.id) ∈ N) :
    RespectsAt (Sheltered N) (sleepFor ticks) k :=
  .get_bind (shelters_sleepUntil hN)

theorem shelters_down
    (hN : ∀ th o, k.running = .ok th → k.objects.semaphores[s]? = some o → o.value = 0 →
      (.semaphore s, th.id) ∈ N) : RespectsAt (Sheltered N) (down s) k := by
  refine .ask_bind fun th hr => .sheltered_masked fun m hq => .ask_bind fun sema hs => ?_
  rw [semaphore_eq_ok_iff] at hs
  split
  · exact (rests_setValue s (· - 1)).sheltered m
  rename_i hv
  have ht : (.semaphore s, th.id) ∈ N := hN th sema hr (hq.objects ▸ hs) (by omega)
  refine .outsideHandler_bind (.ask_bind fun waiters hw => ?_)
  rw [Queue.push_eq_ok_iff] at hw
  have hpush : RespectsAt (Passes N)
      (changeSemaphore s fun sema => { sema with waiters := waiters }) m := by
    refine (rests_changeSemaphore fun o ho u hu => ?_).mono fun _ _ h => h.passes
    rw [hw.2, List.mem_append, List.mem_singleton] at hu
    rw [Seated, queue_semaphore hs]
    rcases hu with hu | rfl
    · exact .inl hu
    · exact .inr ht
  exact hpush.bind fun _ n _ => ((passes_say _).bind fun _ => passes_endTurn _) n

theorem shelters_acquire
    (hN : ∀ th o, k.running = .ok th → k.objects.locks[l]? = some o → o.holder ≠ none →
      (.lock l, th.id) ∈ N) : RespectsAt (Sheltered N) (acquire l) k := by
  refine .outsideHandler_bind
    (.ask_bind fun th hr => .passes_masked fun m hq => .ask_bind fun lk hl => ?_)
  rw [lock_eq_ok_iff] at hl
  cases hh : lk.holder with
  | none => exact (rests_setHolder l _ m).mono fun _ _ h => h.passes
  | some holder =>
    have ht : (.lock l, th.id) ∈ N := hN th lk hr (hq.objects ▸ hl) (by simp [hh])
    exact ((respects_demand _ _).bind fun _ => .bind
      ((rests_waitForLock ht).mono fun _ _ h => h.passes)
      fun _ => (passes_say _).bind fun _ => passes_endTurn _) m

theorem shelters_await (hN : ∀ th, k.running = .ok th → (.condition c, th.id) ∈ N) :
    RespectsAt (Sheltered N) (await c l) k := by
  have hheld : Respects (Passes N) (checkHeld .wait c l) :=
    partwise_respects.checkHeld _ _ _
  refine .outsideHandler_bind ((hheld k).bind fun _ k₁ h₁ => .ask_bind fun th hr => ?_)
  obtain rfl : k = k₁ := by
    unfold checkHeld at h₁
    rw [ask_bind_eq_ok] at h₁
    obtain ⟨_, -, h₁⟩ := h₁
    exact (demand_eq_ok.mp h₁).2
  have hwait : Respects (Passes N) (do
      let waiters ← ask fun k => do (← k.condition c).waiters.push th.id
      changeCondition c fun cond => { cond with waiters := waiters }
      let _ ← passOn l th.id
      say (.waits th.id (.condition c))
      endTurn .blocked) := by
    refine fun m => .ask_bind fun waiters hw => ?_
    simp only [except_bind_ok, condition_eq_ok_iff, Queue.push_eq_ok_iff] at hw
    obtain ⟨cond, hcond, -, hentries⟩ := hw
    have hpush : RespectsAt (Passes N)
        (changeCondition c fun cond => { cond with waiters := waiters }) m := by
      refine (rests_changeCondition fun o ho u hu => ?_).mono fun _ _ h => h.passes
      rw [hentries, List.mem_append, List.mem_singleton] at hu
      rw [Seated, queue_condition hcond]
      rcases hu with hu | rfl
      · exact .inl hu
      · exact .inr (hN th hr)
    exact hpush.bind fun _ n _ => (Respects.bind ((rests_passOn _ _).mono fun _ _ h => h.passes)
      fun _ => (passes_say _).bind fun _ => passes_endTurn _) n
  refine .passes_masked fun m _ => .ask_bind fun cond _ => ?_
  split
  · exact ((respects_demand _ _).bind fun _ => hwait) m
  · exact (Respects.bind ((rests_bindLock _ _).mono fun _ _ h => h.passes) fun _ => hwait) m

theorem shelters_awaitFork {child : ThreadId}
    (hN : ∀ th r o, k.running = .ok th → k.recordOf th.id child = some r →
      k.objects.semaphores[r.forkSemaphore]? = some o → o.value = 0 →
      (.semaphore r.forkSemaphore, th.id) ∈ N) :
    RespectsAt (Sheltered N) (awaitFork child) k := by
  refine .ask_bind fun th hr => .ask_bind fun entry hentry => ?_
  obtain ⟨-, hrecord⟩ := childRecord_eq_ok.mp hentry
  cases entry with
  | none => exact respects_pure _ _
  | some r =>
    refine (shelters_down fun th' o hr' ho hv => ?_).bind fun _ _ _ => respects_pure _ _
    obtain rfl : th = th' := Except.ok.inj (hr.symm.trans hr')
    exact hN th r o hr hrecord ho hv

theorem shelters_awaitExit {child : ThreadId}
    (hN : ∀ th r o, k.running = .ok th → k.recordOf th.id child = some r → r.status = none →
      k.objects.semaphores[r.exitSemaphore]? = some o → o.value = 0 →
      (.semaphore r.exitSemaphore, th.id) ∈ N) :
    RespectsAt (Sheltered N) (awaitExit child) k := by
  refine .ask_bind fun th hr => ((rests_collect _ _).sheltered k).bind fun first m hm => ?_
  split
  · exact respects_pure _ _
  · exact respects_pure _ _
  obtain ⟨rfl, r, hrecord, hstatus⟩ := collect_running hm
  refine .ask_bind fun entry hentry => ?_
  obtain ⟨-, hentry⟩ := childRecord_eq_ok.mp hentry
  obtain rfl : some r = entry := hrecord.symm.trans hentry
  refine (shelters_down fun th' o hr' ho hv => ?_).bind fun _ n _ => .get_bind ?_
  · obtain rfl : th = th' := Except.ok.inj (hr.symm.trans hr')
    exact hN th r o hr hrecord hstatus ho hv
  split
  · exact respects_pure _ _
  refine ((rests_collect _ _).sheltered n).bind fun second _ _ => ?_
  split
  · exact respects_pure _ _
  · exact respects_pure _ _
  · exact respects_throw _ _

/-! ### Handlers -/

theorem passes_leaveHandler (was : Bool) : Respects (Passes N) (leaveHandler was) := by
  have hyield : Respects (Passes N) yieldNow := shelters_yieldNow.mono fun _ _ h => h.1
  exact (discreet_passes N).leaveHandler was (passes_onMachine (onward_setHandler false))
    (passes_modify fun _ => rfl) (passes_endTurn _) hyield
    ((rests_unmask was).mono fun _ _ h => h.passes)

/-- The flag cannot be switched on in a handler. -/
theorem finalState_setHandler {w : Machine} (hw : w.inHandler = true) :
    finalState (Machine.setHandler true w) = w := by
  show finalState ((demand (w.inHandler ≠ true) (.unbalanced true) >>= fun _ =>
    modify fun m => { m with inHandler := true } : MachineM Unit) w) = w
  rw [demand, if_neg (not_not.mpr hw)]
  rfl

theorem shelters_enterHandler : Respects (Sheltered N) enterHandler := by
  refine rests_mask.sheltered.bind fun was => Respects.bind (fun k => ?_) fun _ => respects_pure _
  cases hh : k.machine.inHandler with
  | false => exact .outside hh (passes_onMachine (onward_setHandler true) k)
  | true =>
    rw [RespectsAt, finalState_onMachine, finalState_setHandler hh]
    exact refl_of (Sheltered N) k

/-- Handlers do not nest: inside a handler none is entered. -/
theorem RespectsAt.handler_bind {g : Bool → CoreM β}
    (hg : ∀ was, Respects (Passes N) (g was)) :
    RespectsAt (Sheltered N) (enterHandler >>= g) k := by
  cases hh : k.machine.inHandler with
  | false =>
    have henter : Respects (Passes N) enterHandler := shelters_enterHandler.mono fun _ _ h => h.1
    exact .outside hh (henter.bind hg k)
  | true =>
    refine (shelters_enterHandler k).bind fun was m hm => ?_
    have hout := (enterHandler_enters hm).1
    rw [hh] at hout
    cases hout

theorem shelters_timerInterrupt : Respects (Sheltered N) timerInterrupt := by
  refine fun k => .handler_bind fun was => Respects.bind ?_ fun _ =>
    (passes_leaveHandler was).bind fun _ => respects_pure _
  exact respects_get.bind fun _ => .bind (rests_countTick.mono fun _ _ h => h.passes) fun _ =>
    .bind (rests_countSlice.mono fun _ _ h => h.passes) fun _ =>
    .bind ((shelters_wakeSleepers _).mono fun _ _ h => h.1) fun _ => respects_pure _

theorem shelters_ticks (n : Nat) : Respects (Sheltered N) (ticks n) :=
  (discreet_shelters N).ticks n rests_advance.sheltered shelters_timerInterrupt

end Core

/-! ## Calls -/

namespace Session

open Relation (ReflTransGen)
open ThreadCore.Core (Respects RespectsAt Restful Sheltered Passes Abides respects_pure respects_get
  respects_modify)

variable {α β : Type} {s s' : Session} {c : Call} {R : Core → Core → Prop}
  {N : Set (Seat × ThreadId)}

/-- The relation holds between the cores. -/
def OnCore (R : Core → Core → Prop) (s s' : Session) : Prop := R s.core s'.core

theorem respects_onCore {step : CoreM α} (hx : RespectsAt R step s.core) :
    RespectsAt (OnCore R) (onCore step) s := by
  unfold RespectsAt OnCore onCore
  unfold RespectsAt at hx
  cases hs : step s.core with
  | ok a k =>
    rw [hs] at hx
    exact hx
  | error h k =>
    rw [hs] at hx
    exact hx

variable [IsPreorder Core R]

/-- A call respects what its errands respect. -/
theorem respects_execute
    (h : ∀ {α : Type} {e : Errand α}, s.Performs c e → RespectsAt R e.step s.core) :
    RespectsAt (OnCore R) (execute c) s := by
  unfold RespectsAt OnCore
  obtain ⟨a, hl⟩ | ⟨α, e, hp⟩ := s.looks_or_performs c
  · rw [hl.execute]
    exact refl_of R s.core
  · have hx := h hp
    unfold RespectsAt at hx
    rw [hp.execute]
    cases hs : e.step s.core with
    | ok r k =>
      rw [hs] at hx
      rw [Errand.run_of_ok hs]
      exact (e.core_keep r { s with core := k }).symm ▸ hx
    | error halt k =>
      rw [hs] at hx
      rw [Errand.run_of_error hs]
      exact hx

/-- **Calls.** However a call ends, the only thread that it may move into a queue of an object, or
among the sleepers, is the one that makes it, and the idle thread only if it has to wait for an
object. Inside a handler it moves nobody there, and the interrupted thread keeps the processor. -/
theorem execute_shelters (hs : s.core.Steered .running) (hc : ∀ on, c ≠ .setHandler on)
    (hN : ∀ p, (s.core.current = s.core.idle → p ≠ .sleep ∧ s.Queues c) → (p, s.core.current) ∈ N) :
    RespectsAt (OnCore (Sheltered N)) (execute c) s := by
  have hid : ∀ th, s.core.running = .ok th → th.id = s.core.current := fun th hr =>
    hs.current_id (Core.running_eq_ok.mp hr).1
  have hrest : ∀ {α : Type} {step : CoreM α}, Respects (Restful ∅) step →
      RespectsAt (Sheltered N) step s.core := fun hx => hx.sheltered _
  refine respects_execute fun hp => ?_
  cases hp with
  | create _ _ => exact Core.shelters_spawn _ _ _ _
  | spawn _ _ _ => exact Core.shelters_spawn _ _ _ _
  | exit => exact Core.shelters_exit _
  | yield => exact Core.shelters_yieldNow _
  | block => exact Core.shelters_block _
  | unblock t => exact hrest (Core.rests_unblock t)
  | setPriority p => exact Core.shelters_setPriority p _
  | @overwrite t _ _ _ _ =>
    exact hrest (.bind (Core.respects_ask _) fun _ => Core.rests_changeThread t fun _ => rfl)
  | printUsage => exact hrest (Core.rests_write _)
  | sleepUntil _ =>
    exact Core.shelters_sleepUntil fun th hr hi =>
      hid th hr ▸ hN _ fun he => absurd ((hid th hr).trans he) hi
  | sleepFor _ =>
    exact Core.shelters_sleepFor fun th hr hi =>
      hid th hr ▸ hN _ fun he => absurd ((hid th hr).trans he) hi
  | wakeSleepers now => exact Core.shelters_wakeSleepers now _
  | advance ticks => exact hrest (Core.rests_advances ticks)
  | timer => exact Core.shelters_timerInterrupt _
  | tick n => exact Core.shelters_ticks n _
  | yieldOnReturn => exact hrest Core.rests_yieldOnReturn
  | openGuard => exact hrest Core.rests_mask
  | closeGuard _ => exact hrest (Core.rests_unmask _)
  | enableInterrupts => exact hrest (Core.rests_onMachine (Core.unswitched_withInterrupts true))
  | disableInterrupts => exact hrest (Core.rests_onMachine (Core.unswitched_withInterrupts false))
  | setHandler on => exact absurd rfl (hc on)
  | newSemaphore value => exact hrest (Core.rests_newSemaphore value)
  | newLock => exact hrest Core.rests_newLock
  | newCondition => exact hrest Core.rests_newCondition
  | down hi =>
    exact Core.shelters_down fun th o hr ho hv => hid th hr ▸ hN _ fun _ =>
      ⟨nofun, _, o, hi, ho, hv⟩
  | tryDown _ => exact hrest (Core.rests_tryDown _)
  | up _ => exact Core.shelters_up _ _
  | destroySemaphore _ => exact hrest (Core.rests_destroySemaphore _)
  | acquire hi =>
    exact Core.shelters_acquire fun th o hr ho hh =>
      hid th hr ▸ hN _ fun _ => ⟨nofun, _, o, hi, ho, hh⟩
  | tryAcquire _ => exact hrest (Core.rests_tryAcquire _)
  | release _ => exact Core.shelters_release _ _
  | destroyLock _ => exact hrest (Core.rests_destroyLock _)
  | await hi hj =>
    exact Core.shelters_await fun th hr => hid th hr ▸ hN _ fun _ => ⟨nofun, _, _, hi, hj⟩
  | signal _ _ => exact hrest (Core.rests_signal _ _)
  | broadcast _ _ => exact hrest (Core.rests_broadcast _ _)
  | destroyCondition _ => exact hrest (Core.rests_destroyCondition _)
  | setExitStatus status => exact hrest (Core.rests_setExitStatus status)
  | reportFork => exact Core.shelters_reportFork _
  | awaitFork child =>
    refine Core.shelters_awaitFork fun th r o hr hrecord ho hv => ?_
    rw [hid th hr] at hrecord ⊢
    exact hN _ fun _ => ⟨nofun, r, o, hrecord, ho, hv⟩
  | awaitExit child =>
    refine Core.shelters_awaitExit fun th r o hr hrecord hst ho hv => ?_
    rw [hid th hr] at hrecord ⊢
    exact hN _ fun _ => ⟨nofun, r, o, hrecord, hst, ho, hv⟩
  | tryCollect child => exact hrest (Core.rests_tryCollect child)
  | print text => exact hrest (Core.rests_write text)
  | announce severity text =>
    refine hrest (respects_get.bind fun k => ?_)
    split
    · exact Core.rests_write _
    · exact respects_pure _
  | log severity text => exact hrest (Core.rests_writeLine severity text)
  | setThreshold _ | setQuiet _ =>
    exact hrest (respects_modify fun _ => .of_eq rfl rfl rfl rfl le_rfl rfl rfl rfl rfl rfl)
  | ask _ => exact Core.respects_ask _ s.core

/-- **Transitions.** Only by a call does a transition move anybody new into a queue of an object, or
among the sleepers, and then the caller. The timer does not go back. -/
theorem leads_passes {d : Deed} (hs : s.core.Steered .running)
    (hN : ∀ c a p, d = .call c a → (s.core.current = s.core.idle → p ≠ .sleep ∧ s.Queues c) →
      (p, s.core.current) ∈ N) (h : Leads s d s') : Passes N s.core s'.core := by
  cases h with
  | @call c a _ he =>
    by_cases hc : ∃ on, c = .setHandler on
    · obtain ⟨on, rfl⟩ := hc
      obtain ⟨_, k, hk, rfl, rfl⟩ := report_ok.mp he
      exact (Core.passes_onMachine (Core.onward_setHandler on) s.core).ok hk
    · exact ((execute_shelters hs (fun on hon => hc ⟨on, hon⟩) fun p => hN c a p rfl).ok he).1
  | enter he =>
    obtain ⟨k, hk, rfl⟩ := onCore_eq_ok.mp he
    exact ((Core.shelters_enterHandler s.core).ok hk).1
  | leave he =>
    obtain ⟨_, k, hk, rfl⟩ := act_eq_ok he
    exact (Core.passes_leaveHandler _ s.core).ok hk

/-! ## A whole handler -/

/-- No operation of a handler, halting or not, takes the processor from the interrupted thread. -/
theorem perform_abides {op : Operation} {halted : Option Halt} (hs : s.core.Steered .running)
    (hin : s.core.machine.inHandler = true) (hflag : ∀ on, op ≠ .call (.setHandler on))
    (h : (perform s op).2 = (s', halted)) :
    Abides ∅ s.core s'.core ∧ (halted = none → s'.core.Steered .running) := by
  cases op with
  | call c =>
    have hc : ∀ on, c ≠ .setHandler on := fun on he => hflag on (he ▸ rfl)
    have hend : RespectsAt (OnCore (Sheltered Set.univ)) (execute c) s :=
      execute_shelters hs hc fun _ _ => Set.mem_univ _
    unfold perform at h
    unfold RespectsAt OnCore at hend
    cases he : execute c s with
    | ok a m =>
      rw [he] at h hend
      cases h
      exact ⟨hend.2 hin, fun _ => hs.course (Leads.course (.call he))⟩
    | error e m =>
      rw [he] at h hend
      cases h
      exact ⟨hend.2 hin, nofun⟩
  | interrupt handler =>
    have hend : RespectsAt (OnCore (Sheltered ∅)) (onCore Core.enterHandler) s :=
      respects_onCore (Core.shelters_enterHandler s.core)
    unfold RespectsAt OnCore at hend
    unfold perform at h
    cases he : onCore Core.enterHandler s with
    | ok was m =>
      obtain ⟨k, hk, -⟩ := onCore_eq_ok.mp he
      rw [(Core.enterHandler_enters hk).1] at hin
      cases hin
    | error e m =>
      rw [he] at h hend
      cases h
      exact ⟨hend.2 hin, nofun⟩

theorem performAll_abides {ops : List Operation} {halted : Option Halt}
    (hs : s.core.Steered .running) (hin : s.core.machine.inHandler = true)
    (hflag : ∀ on, .call (.setHandler on) ∉ ops) (h : (performAll s ops).2 = (s', halted)) :
    Abides ∅ s.core s'.core ∧ (halted = none → s'.core.Steered .running) := by
  induction ops generalizing s with
  | nil =>
    cases h
    exact ⟨refl_of (Abides ∅) _, fun _ => hs⟩
  | cons op ops ih =>
    have hop : ∀ on, op ≠ .call (.setHandler on) := fun on he =>
      hflag on (he ▸ List.mem_cons_self)
    unfold performAll at h
    rcases hp : perform s op with ⟨step, m, halted'⟩
    obtain ⟨hfirst, hsteered⟩ := perform_abides hs hin hop (congrArg Prod.snd hp)
    rw [hp] at h
    cases halted' with
    | some e =>
      cases h
      exact ⟨hfirst, nofun⟩
    | none =>
      have hrest := ih (hsteered rfl) (hfirst.handler.trans hin)
        (fun on hm => hflag on (List.mem_cons_of_mem _ hm)) h
      exact ⟨trans_of (Abides ∅) hfirst hrest.1, hrest.2⟩

end Session

/-! ## The return -/

namespace Core

open Relation (ReflTransGen)

variable {α : Type} {k k' m : Core} {was : Bool}

/-- The core with its handler flag cleared. -/
def cleared (k : Core) : Core := { k with machine := { k.machine with inHandler := false } }

/-- A step within a turn, or the end of a turn, in which no handler runs. -/
def Outside (k k' : Core) : Prop :=
  (Act k k' ∨ Turn k k') ∧ k.machine.inHandler = false ∧ k'.machine.inHandler = false

theorem Act.handler (h : Act k k') : k'.machine.inHandler = k.machine.inHandler := by
  cases h with
  | clerical _ _ _ _ _ _ _ _ hi => exact hi
  | _ => rfl

theorem Turn.handler (h : Turn k k') : k'.machine.inHandler = k.machine.inHandler := by
  have hend : ∀ {σ : ThreadState} {k k' : Core}, endTurn σ k = .ok () k' →
      k'.machine.inHandler = k.machine.inHandler := by
    intro σ k k' h
    obtain ⟨m, t, hq, -, -, ha⟩ := endTurn_alike h
    exact ha.handler.trans hq.handler
  cases h with
  | block h => exact hend h
  | lineUp _ _ hm h =>
    unfold enqueueReady at hm
    simp only [ask_bind_eq_ok, modify_eq_ok] at hm
    obtain ⟨_, -, rfl⟩ := hm
    exact (hend h).trans rfl
  | die _ h => exact hend h

/-- What is left of a return once the flag is cleared. -/
def finishHandler (was : Bool) : CoreM Unit := do
  let pending := (← get).yieldPending
  modify fun k => { k with yieldPending := false }
  let k ← get
  if k.current = k.idle then
    endTurn .blocked
  else if pending then
    yieldNow
  onMachine (Machine.unmask was)

theorem leaveHandler_of_inHandler (hh : k.machine.inHandler = true) :
    leaveHandler was k = finishHandler was k.cleared := by
  refine bind_of_ok (f := fun _ => finishHandler was) (a := ()) (setHandler_eq_ok.mpr ⟨?_, rfl⟩)
  simp [hh]

theorem makes_finishHandler (was : Bool) :
    Makes (fun k k' => Act k k' ∨ Turn k k') (finishHandler was) := by
  have hunmask : Makes (fun k k' => Act k k' ∨ Turn k k') (onMachine (Machine.unmask was)) :=
    (makes_unmask was).mono fun _ _ => .inl
  refine makes_get.bind fun k => .bind (makes_modify fun k => ?_) fun _ =>
    makes_get.bind fun k => ?_
  · exact .inl (.clerical k.machine k.console k.usage k.journal.output k.slice false rfl rfl rfl)
  split
  · exact (makes_endTurn_of fun _ _ => .inr).bind fun _ => hunmask
  · split
    · exact (makes_yieldNow_of (fun _ _ => .inl) fun _ _ => .inr).bind fun _ => hunmask
    · exact hunmask

/-- Where no handler runs, none runs at any point of what amounts to such steps. -/
theorem MakesAt.outside {x : CoreM α} (hh : k.machine.inHandler = false)
    (hx : MakesAt (fun k k' => Act k k' ∨ Turn k k') x k) : MakesAt Outside x k := by
  have hsteps : ∀ {k'}, ReflTransGen (fun k k' => Act k k' ∨ Turn k k') k k' →
      ReflTransGen Outside k k' ∧ k'.machine.inHandler = false := by
    intro k' h
    induction h with
    | refl => exact ⟨.refl, hh⟩
    | tail _ hstep ih =>
      have hout : _ = false := (hstep.elim Act.handler Turn.handler).trans ih.2
      exact ⟨ih.1.tail ⟨hstep, ih.2, hout⟩, hout⟩
  exact ⟨fun a k' h => (hsteps (hx.ok a k' h)).1, fun e k' h =>
    (hx.halts e k' h).imp (fun h => (hsteps h).1) fun ⟨m, hm, hf⟩ => ⟨m, (hsteps hm).1, hf⟩⟩

theorem abides_enterHandler (h : enterHandler k = .ok was m) : Abides ∅ k m.cleared := by
  unfold enterHandler at h
  simp only [bind_eq_ok, setHandler_eq_ok, pure_eq_ok] at h
  obtain ⟨_, n, hn, _, _, ⟨hne, rfl⟩, -, rfl⟩ := h
  have hout : n.machine.inHandler = false := by simpa using hne
  have hmask : Abides ∅ k n := ((rests_mask k).ok hn).toAbides
  refine trans_of (Abides ∅) hmask (b := n) ?_
  exact ⟨rfl, rfl, hout.symm, rfl, rfl, no_events n, joins_of_eq rfl rfl, le_rfl⟩

theorem Abides.cleared (h : Abides ∅ k k') : Abides ∅ k.cleared k'.cleared :=
  ⟨h.current, h.idle, rfl, h.switches, h.dead, h.events, h.joins, h.ticks⟩

end Core

namespace Session

open ThreadCore.Core (Abides MakesAt Outside)

variable {s s₁ s₂ : Session} {was : Bool} {halted : Option Halt} {ops : List Operation}

/-- **Handlers do not switch.** An interrupt comes in any state of any run, and its handler has
performed operations of any kind, of which none moves the handler flag, when the handler is done or
halts. Then:

* the flag has been on all the time, and the interrupted thread has kept the processor: nothing was
  switched, no stack was reclaimed, and nobody was put into the queue of an object, or among the
  sleepers, but for waiters of condition variables that went on to wait for locks;
* unless the handler halted, that thread still runs, and no other does;
* the return clears the flag first. What it does after that, halting or not, consists of steps
  within a turn and of ends of turns, all of them with the flag cleared. -/
theorem handler_abides {allowed : Session → Call → Prop} {frames : List Bool}
    (h : Reached allowed frames s) (he : onCore Core.enterHandler s = .ok was s₁)
    (hflag : ∀ on, .call (.setHandler on) ∉ ops) (hp : (performAll s₁ ops).2 = (s₂, halted)) :
    s₁.core.machine.inHandler = true ∧ s₂.core.machine.inHandler = true ∧
      Abides ∅ s.core s₂.core.cleared ∧
      (halted = none → s₂.core.runningThreads = [s.core.current]) ∧
      Core.leaveHandler was s₂.core = Core.finishHandler was s₂.core.cleared ∧
      MakesAt Outside (Core.finishHandler was) s₂.core.cleared := by
  have hs₁ : s₁.core.Steered .running := h.steered.course (Leads.enter he).course
  obtain ⟨k, hk, rfl⟩ := onCore_eq_ok.mp he
  have hin : k.machine.inHandler = true := (Core.enterHandler_eq_ok hk).1
  obtain ⟨habides, hsteered⟩ := performAll_abides hs₁ hin hflag hp
  have hin₂ : s₂.core.machine.inHandler = true := habides.handler.trans hin
  have hall : Abides ∅ s.core s₂.core.cleared :=
    trans_of (Abides ∅) (Core.abides_enterHandler hk) habides.cleared
  refine ⟨hin, hin₂, hall, fun hdone => ?_, Core.leaveHandler_of_inHandler hin₂,
    .outside rfl (Core.makes_finishHandler was _)⟩
  rw [(hsteered hdone).steady.running]
  exact congrArg ([·]) hall.current

/-- The handler brings a unit that a more urgent thread waits for, and halts when it waits itself.
The woken thread is ready, and was not switched to. Without the wait the handler returns, and it
runs. -/
theorem handler_abides_waits : ∃ s was s₁ s₂ e s', Reached (fun _ _ => True) [] s ∧
    s.core.current = 1 ∧ onCore Core.enterHandler s = .ok was s₁ ∧
    (performAll s₁ [.call (.up 0), .call (.down 0)]).2 = (s₂, some e) ∧ 3 ∈ s₂.core.ready ∧
    (perform s (.interrupt [.call (.up 0)])).2 = (s', none) ∧ s'.core.current = 3 ∧
    s₁.core.machine.inHandler = true ∧ s₂.core.machine.inHandler = true ∧
    Abides ∅ s.core s₂.core.cleared ∧
    (some e = none → s₂.core.runningThreads = [s.core.current]) ∧
    Core.leaveHandler was s₂.core = Core.finishHandler was s₂.core.cleared ∧
    MakesAt Outside (Core.finishHandler was) s₂.core.cleared := by
  have hrun : (replayFrom (fun _ _ _ => true) ⟨none, none, none, false, none⟩
      [.newSemaphore 0, .create "waits" 40, .down 0]).any (fun r =>
        let after := (perform r.2 (.interrupt [.call (.up 0)])).2
        decide (r.2.core.current = 1 ∧ after.2 = none ∧ after.1.core.current = 3) &&
          succeeds (fun _ m =>
            let halted := (performAll m [.call (.up 0), .call (.down 0)]).2
            decide (halted.2.isSome ∧ 3 ∈ halted.1.core.ready)) (onCore Core.enterHandler r.2)) =
            true := by
    decide +kernel
  obtain ⟨⟨log, s⟩, hs, hrun⟩ := (Option.any_eq_true _ _).mp hrun
  have hlog : Logged (fun _ _ _ => True) log [] s := logged_replayFrom (fun _ _ _ _ => trivial) hs
  have hreach : Reached (fun _ _ => True) [] s := hlog.reached fun _ _ _ _ => trivial
  obtain ⟨hafter, hrun⟩ := Bool.and_eq_true_iff.mp hrun
  obtain ⟨hcurrent, hdone, hwoken⟩ := of_decide_eq_true hafter
  obtain ⟨was, s₁, he, hrun⟩ := exists_of_succeeds hrun
  obtain ⟨hsome, hready⟩ := of_decide_eq_true hrun
  obtain ⟨e, hhalted⟩ := Option.isSome_iff_exists.mp hsome
  exact ⟨s, was, s₁, _, e, _, hreach, hcurrent, he, Prod.ext rfl hhalted, hready,
    Prod.ext rfl hdone, hwoken, handler_abides hreach he (by simp) (Prod.ext rfl hhalted)⟩

end Session

end ThreadCore
