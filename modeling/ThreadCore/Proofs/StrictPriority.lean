import ThreadCore.Proofs.Arrivals
import ThreadCore.Proofs.Runs

/-!
# Strict priorities

In the runs in which nobody is unblocked by hand and only handlers move the handler flag, no ready
thread outranks the one that runs, the thread that is dispatched is the earliest of the most urgent,
and a call that neither blocks nor yields takes the processor away exactly if a ready thread
outranks its caller (`reached_strict`).
-/

namespace ThreadCore

namespace Session

open ThreadCore.Core (InOrder Scheduled GivesWay Calm)

variable {s s' : Session} {a : Answer} {c : Call} {frames : List Bool} {pristine : Bool}

/-! ## The order of arrival -/

/-- A call lets threads join the ready queue, and then there may be a dispatch. Only a call for
several ticks of the timer may dispatch more than once. -/
theorem execute_scheduled (hk : s.core.InOrder pristine) (hc : ∀ n, c ≠ .tick n)
    (h : execute c s = .ok a s') : s.core.Scheduled s'.core := by
  have hg : (s.core.stage pristine).state = .running := rfl
  have hcalm : Calm s.core s'.core → s.core.Scheduled s'.core := fun hc => hc.admitted.scheduled
  obtain hquiet | ⟨hq, α, e, r, hp, hx⟩ := execute_step h
  · exact hcalm hquiet.alike.calm
  cases hp with
  | create _ _ | spawn _ _ _ => exact Core.schedules_spawn _ _ _ _ _ _ hx
  | exit => exact hk.exit_scheduled hg rfl hx
  | yield => exact Core.schedules_yieldNow _ _ _ hx
  | block => exact Core.schedules_block _ _ _ hx
  | unblock _ => exact (Core.admits_unblock _ _ _ _ hx).scheduled
  | setPriority _ => exact Core.schedules_setPriority _ _ _ _ hx
  | overwrite _ _ _ =>
    obtain ⟨stack, -, hx⟩ := Core.ask_bind_eq_ok.mp hx
    rw [Core.changeThread_eq_ok] at hx
    rw [hx.2]
    exact .of_same rfl rfl
  | sleepUntil _ => exact Core.schedules_sleepUntil _ _ _ _ hx
  | sleepFor _ => exact Core.schedules_sleepFor _ _ _ _ hx
  | wakeSleepers _ => exact Core.schedules_wakeSleepers _ _ _ _ hx
  | timer => exact Core.timerInterrupt_scheduled hx
  | tick n => exact absurd rfl (hc n)
  | yieldOnReturn =>
    rw [(modify_eq_ok.mp (demand_bind_eq_ok.mp (get_bind_eq_ok.mp hx)).2)]
    exact .of_same rfl rfl
  | setHandler _ =>
    rw [(Core.setHandler_eq_ok.mp hx).2]
    exact .of_same rfl rfl
  | newSemaphore _ => exact hcalm (Core.alike_newSemaphore hk hx).calm
  | down _ => exact Core.schedules_down _ _ _ _ hx
  | tryDown _ => exact hcalm (Core.alike_tryDown hx).calm
  | up _ => exact Core.schedules_up _ _ _ _ hx
  | destroySemaphore _ => exact hcalm (Core.alike_destroySemaphore hk hx).calm
  | newLock => exact hcalm (Core.alike_newLock hk hx).calm
  | acquire _ => exact Core.schedules_acquire _ _ _ _ hx
  | tryAcquire _ => exact (Core.admits_tryAcquire _ _ _ _ hx).scheduled
  | release _ => exact Core.schedules_release _ _ _ _ hx
  | destroyLock _ => exact hcalm (Core.alike_destroyLock hk hx).calm
  | newCondition => exact hcalm (Core.alike_newCondition hk hx).calm
  | await _ _ => exact Core.schedules_await _ _ _ _ _ hx
  | signal _ _ => exact (Core.admits_signal _ _ _ _ _ hx).scheduled
  | broadcast _ _ => exact (Core.admits_broadcast _ _ _ _ _ hx).scheduled
  | destroyCondition _ => exact hcalm (Core.alike_destroyCondition hk hx).calm
  | setExitStatus _ => exact (Core.admits_setExitStatus _ _ _ _ hx).scheduled
  | reportFork => exact Core.schedules_reportFork _ _ _ hx
  | awaitFork _ => exact Core.schedules_awaitFork _ _ _ _ hx
  | awaitExit _ => exact Core.schedules_awaitExit _ _ _ _ hx
  | tryCollect _ => exact (Core.admits_tryCollect _ _ _ _ hx).scheduled
  | ask ha => cases hq.symm.trans ha.isQuiet
  | _ => cases hq

/-- The stretches of an operation that begins in `s`: a call, unless it is for ticks of the timer,
one of those ticks, and the way into or out of a handler. -/
inductive Stretch (s : Session) : Core → Core → Prop
  | call {c : Call} {a : Answer} {s' : Session} :
      (∀ n, c ≠ .tick n) → execute c s = .ok a s' → Stretch s s.core s'.core
  | tick {n : Nat} {u u' : Unit} {k k' : Core} :
      Core.ticks n s.core = .ok u k → Core.tick k = .ok u' k' → Stretch s k k'
  | enter {was : Bool} {s' : Session} :
      onCore Core.enterHandler s = .ok was s' → Stretch s s.core s'.core
  | leave {was : Bool} {a : Answer} {s' : Session} :
      act (Core.leaveHandler was) s = .ok a s' → Stretch s s.core s'.core

theorem stretch_scheduled (hk : s.core.InOrder pristine) {k k' : Core} (h : Stretch s k k') :
    k.Scheduled k' := by
  cases h with
  | call hc h => exact execute_scheduled hk hc h
  | tick _ h => exact Core.tick_scheduled h
  | enter h =>
    obtain ⟨m, hm, rfl⟩ := onCore_eq_ok.mp h
    obtain ⟨-, hc, hr⟩ := Core.enterHandler_eq_ok hm
    exact .of_same hc hr
  | leave h =>
    obtain ⟨_, k, h, rfl⟩ := act_eq_ok h
    exact Core.schedules_leaveHandler _ _ _ _ h

/-! ## Giving way -/

/-- The calls that neither block nor yield but may make a thread more urgent than their caller. -/
def MayPreempt : Call → Prop
  | .create _ _ | .spawn _ _ _ | .setPriority _ | .up _ | .release _ | .reportFork
  | .wakeSleepers _ => True
  | _ => False

theorem MayPreempt.plain (h : MayPreempt c) : isDelicate c = false := by
  cases c <;> first | rfl | cases h

theorem execute_givesWay (hk : s.core.InOrder pristine) (hc : MayPreempt c)
    (h : execute c s = .ok a s') : GivesWay s.core s'.core := by
  have hg : (s.core.stage pristine).state = .running := rfl
  obtain hsame | ⟨α, e, r, hp, hx⟩ := execute_core h
  · rw [hsame]
    exact fun _ => .inl rfl
  cases hp with
  | create _ _ | spawn _ _ _ => exact (hk.spawn hg hx).2
  | setPriority _ => exact (hk.setPriority hg hx).2
  | up _ => exact (hk.up hg hx).2
  | release _ => exact (hk.release hg hx).2
  | reportFork => exact (hk.reportFork hg hx).2
  | wakeSleepers _ => exact (hk.wakeSleepers hg hx).2
  | ask ha => cases ha <;> cases hc
  | _ => cases hc

/-- Outside handlers the order is that of strict priorities. -/
theorem Reached.orderly (h : Reached Strict [] s) : s.core.Orderly := by
  obtain ⟨-, hset, hh, -⟩ := h.settled
  exact hset.orderly hh

/-- A call that neither blocks nor yields takes the processor away from its caller exactly if a
thread that is ready then outranks the caller. -/
theorem switches_iff (h : Reached Strict [] s) (hi : s.core.current ≠ s.core.idle)
    (hc : MayPreempt c) (he : execute c s = .ok a s') :
    s'.core.current ≠ s.core.current ↔
      ∃ t ∈ s'.core.current :: s'.core.ready.entries,
        s'.core.priorityOf s.core.current < s'.core.priorityOf t := by
  obtain ⟨hk, -, -, -⟩ := h.settled
  constructor
  · intro hne
    refine ⟨s'.core.current, List.mem_cons_self, ?_⟩
    exact (execute_givesWay hk hc he hi).resolve_left hne
  · rintro ⟨t, ht, hlt⟩ hsame
    have ho := (h.call (Strict.plain hc.plain hi) he).orderly
    have hidle : s'.core.idle = s.core.idle :=
      (execute_serves hk (fun h => absurd h hi) hc.plain he).sound.idle
    unfold Core.Orderly at ho
    rw [if_neg (by rwa [hsame, hidle])] at ho
    rw [← hsame] at hlt
    rcases List.mem_cons.mp ht with rfl | ht
    · exact lt_irrefl _ hlt
    · exact absurd hlt (not_lt.mpr (ho t ht))

/-- **Strict priorities.** In every state of a run in which nobody is unblocked by hand and only
handlers move the handler flag:

* outside handlers the idle thread runs only if no thread is ready, and no ready thread outranks
  another thread that runs;
* a dispatch takes the earliest of the most urgent threads from the ready queue, which every stretch
  of an operation keeps in the order of arrival;
* outside handlers, a call that neither blocks nor yields takes the processor away from its caller,
  unless that is the idle thread, exactly if a thread that is ready then outranks the caller. -/
theorem reached_strict (h : Reached Strict frames s) :
    (frames = [] →
      (s.core.current = s.core.idle → s.core.ready = .empty) ∧
      (s.core.current ≠ s.core.idle →
        ∀ t ∈ s.core.ready, s.core.priorityOf t ≤ s.core.priorityOf s.core.current)) ∧
    ((∀ k u k', Core.dispatch k = .ok u k' →
        Core.Picks k.priorityOf k.idle k.ready.entries k'.current k'.ready.entries) ∧
      ∀ k k', Stretch s k k' → k.Scheduled k') ∧
    (frames = [] → s.core.current ≠ s.core.idle → ∀ c a s', MayPreempt c → execute c s = .ok a s' →
      (s'.core.current ≠ s.core.current ↔
        ∃ t ∈ s'.core.current :: s'.core.ready.entries,
          s'.core.priorityOf s.core.current < s'.core.priorityOf t)) := by
  refine ⟨?_, ⟨fun k u k' => Core.dispatch_picks, fun k k' => stretch_scheduled h.settled.1⟩, ?_⟩
  · rintro rfl
    have ho := h.orderly
    unfold Core.Orderly at ho
    constructor
    · intro hi
      rw [if_pos hi] at ho
      cases hr : s.core.ready
      rw [hr] at ho
      exact congrArg Queue.mk ho
    · intro hi
      rw [if_neg hi] at ho
      exact ho
  · rintro rfl hi c a s' hc he
    exact switches_iff h hi hc he

/-- A more urgent thread waits for a unit, a less urgent one is ready: a unit that is brought takes
the processor away. -/
theorem reached_strict_up : ∃ s a s', Reached Strict [] s ∧ s.core.current = 1 ∧
    s.core.ready.entries = [3] ∧ execute (.up 0) s = .ok a s' ∧ s'.core.current = 4 ∧
    s'.core.ready.entries = [3, 1] ∧
    (∀ t ∈ s.core.ready, s.core.priorityOf t ≤ s.core.priorityOf 1) ∧ s.core.Scheduled s'.core ∧
    ∃ t ∈ s'.core.current :: s'.core.ready.entries,
      s'.core.priorityOf 1 < s'.core.priorityOf t := by
  have hrun : (afterBoot ⟨none, none, none, false, none⟩
      [.newSemaphore 0, .create "patient" 5, .create "urgent" 40, .down 0]).any (fun s =>
        s.core.current = 1 ∧ s.core.idle ≠ 1 ∧ s.core.ready.entries = [3] ∧
          (s.afterCalls [.up 0]).any (fun s' =>
            s'.core.current = 4 ∧ s'.core.ready.entries = [3, 1]) = true) = true := by
    decide +kernel
  obtain ⟨s, hs, hrun⟩ := (Option.any_eq_true _ _).mp hrun
  obtain ⟨hcur, hidle, hready, hup⟩ := of_decide_eq_true hrun
  have hreach : Reached Strict [] s := reached_afterBoot (fun _ _ => Strict.plain) hs
  have hne : s.core.current ≠ s.core.idle := by
    rw [hcur]
    exact hidle.symm
  obtain ⟨horder, ⟨-, harrival⟩, hswitch⟩ := reached_strict hreach
  rw [afterCalls, if_pos ⟨rfl, hne⟩] at hup
  cases he : execute (.up 0) s with
  | error e s' => simp [he] at hup
  | ok a s' =>
    simp only [he] at hup
    have hup := of_decide_eq_true hup
    have hle := (horder rfl).2 hne
    have hiff := hswitch rfl hne (.up 0) a s' trivial he
    rw [hcur] at hle hiff
    refine ⟨s, a, s', hreach, hcur, hready, he, hup.1, hup.2, hle, ?_, ?_⟩
    · exact harrival _ _ (.call (fun _ h => by cases h) he)
    · refine hiff.mp ?_
      rw [hup.1]
      decide

end Session

end ThreadCore
