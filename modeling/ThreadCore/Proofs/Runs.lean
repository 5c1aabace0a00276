import ThreadCore.Proofs.Audits
import ThreadCore.Proofs.Errands
import ThreadCore.Proofs.Handlers
import ThreadCore.Proofs.Lifetimes
import ThreadCore.Session.Run

/-!
# Runs

A run boots a core and then makes calls, enters handlers and leaves them. `Session.Reached` are the
states in between, for runs that keep to the calls that are allowed. Every call keeps the rules
(`execute_serves`), except three that need more care: `unblock`, which must not be applied to a
thread that waits somewhere, `overwrite`, which may destroy a canary, and `setHandler`, which moves
the handler flag behind the back of the core.
-/

namespace ThreadCore

namespace Core

variable {k k' : Core} {pristine : Bool} {t : ThreadId}

/-- The stage between operations. -/
def stage (k : Core) (pristine : Bool) : Stage :=
  ⟨k.current, k.idle, .running, k.machine.inHandler, ⟨pristine, []⟩⟩

/-- The state obeys the rules, between operations. -/
def InOrder (k : Core) (pristine : Bool) : Prop := k.Sound (k.stage pristine)

theorem Sound.inOrder {g : Stage} (hk : k.Sound g) (hs : g.state = .running)
    (ht : g.terms = ⟨pristine, []⟩) : k.InOrder pristine := by
  obtain ⟨c, i, s, h, terms⟩ := g
  obtain ⟨hc, hi, hh, -, -, -⟩ := id hk
  unfold InOrder stage
  rw [hc, hi, hh]
  subst hs ht
  exact hk

theorem Serves.inOrder (h : Serves (k.stage pristine) k k') : k'.InOrder pristine :=
  h.sound.inOrder rfl rfl

end Core

namespace Session

open ThreadCore.Core (Serves InOrder)

variable {s s' : Session} {a : Answer} {c : Call} {α : Type}

/-! ## Quiet calls -/

/-- Whether a call only asks, or is about the console, the count of the timer or the interrupt
flag. -/
def isQuiet : Call → Bool
  | .getPriority | .self | .name | .idle | .current | .thread _ | .config | .usage | .printUsage
  | .validate | .advance _ | .openGuard | .closeGuard | .enableInterrupts | .disableInterrupts
  | .semaphoreValue _ | .semaphoreWaiters _ | .heldByCurrent _ | .holder _ | .lockWaiters _
  | .conditionWaiters _ | .parent | .children | .exitStatus | .print _ | .announce _ _ | .log _ _
  | .setThreshold _ | .setQuiet _ => true
  | _ => false

/-- The core has changed quietly, and the handles of the session are as before. -/
structure Hushed (s s' : Session) : Prop where
  core : Core.Quiet s.core s'.core
  semaphores : s'.semaphores = s.semaphores
  locks : s'.locks = s.locks
  conditions : s'.conditions = s.conditions

theorem Hushed.refl (s : Session) : Hushed s s := ⟨.refl _, rfl, rfl, rfl⟩

theorem Asks.isQuiet {reply : α → Reply} {question : Core → Except Halt α}
    (h : s.Asks c reply question) : isQuiet c = true := by
  cases h <;> rfl

theorem execute_quiet (hc : isQuiet c = true) (h : execute c s = .ok a s') : Hushed s s' := by
  obtain ⟨-, rfl⟩ | ⟨α, e, r, k, hp, hx, -, rfl⟩ := execute_ok h
  · exact .refl s'
  cases hp with
  | ask _ =>
    obtain ⟨-, rfl⟩ := Core.ask_eq_ok_iff.mp hx
    exact .refl s
  | printUsage | print _ => exact ⟨Core.quiet_write hx, rfl, rfl, rfl⟩
  | log _ _ => exact ⟨Core.quiet_writeLine hx, rfl, rfl, rfl⟩
  | announce severity text =>
    refine ⟨?_, rfl, rfl, rfl⟩
    replace hx := get_bind_eq_ok.mp hx
    split at hx
    · exact Core.quiet_write hx
    · exact (pure_eq_ok.mp hx).2 ▸ .refl s.core
  | advance _ => exact ⟨Core.quiet_advances hx, rfl, rfl, rfl⟩
  | openGuard => exact ⟨Core.quiet_mask hx, rfl, rfl, rfl⟩
  | closeGuard _ => exact ⟨Core.quiet_unmask hx, rfl, rfl, rfl⟩
  | enableInterrupts =>
    exact ⟨Core.quiet_modifyMachine (f := (·.withInterrupts true)) (fun _ => rfl) hx, rfl, rfl, rfl⟩
  | disableInterrupts =>
    exact ⟨Core.quiet_modifyMachine (f := (·.withInterrupts false)) (fun _ => rfl) hx, rfl, rfl,
      rfl⟩
  | setThreshold _ | setQuiet _ =>
    obtain rfl := modify_eq_ok.mp hx
    exact ⟨⟨rfl, rfl, rfl, rfl, rfl, rfl, rfl, rfl, rfl⟩, rfl, rfl, rfl⟩
  | _ => cases hc

/-- A call that is not quiet comes to the step that it performs, if it does anything. -/
theorem execute_step (h : execute c s = .ok a s') : Core.Quiet s.core s'.core ∨
    isQuiet c = false ∧
      ∃ (α : Type) (e : Errand α) (r : α), s.Performs c e ∧ e.step s.core = .ok r s'.core := by
  by_cases hq : isQuiet c = true
  · exact .inl (execute_quiet hq h).core
  obtain hsame | hstep := execute_core h
  · exact .inl (hsame ▸ .refl s.core)
  · exact .inr ⟨Bool.eq_false_of_not_eq_true hq, hstep⟩

/-! ## What a call asks for -/

/-- If the idle thread makes the call, it has to wait in a queue. -/
def Queues (s : Session) : Call → Prop
  | .down i => ∃ id o, s.semaphores[i]? = some id ∧ s.core.objects.semaphores[id]? = some o ∧
      o.value = 0
  | .acquire i => ∃ id o, s.locks[i]? = some id ∧ s.core.objects.locks[id]? = some o ∧
      o.holder ≠ none
  | .await i j => ∃ cond lock, s.conditions[i]? = some cond ∧ s.locks[j]? = some lock
  | .awaitFork child => ∃ r o, s.core.recordOf s.core.current child = some r ∧
      s.core.objects.semaphores[r.forkSemaphore]? = some o ∧ o.value = 0
  | .awaitExit child => ∃ r o, s.core.recordOf s.core.current child = some r ∧ r.status = none ∧
      s.core.objects.semaphores[r.exitSemaphore]? = some o ∧ o.value = 0
  | _ => False

/-- Whether a call is one of the three that need more care. -/
def isDelicate : Call → Bool
  | .unblock _ | .overwrite _ _ _ | .setHandler _ => true
  | _ => false

variable {pristine : Bool}

theorem serves_refl (hk : s.core.InOrder pristine) :
    Serves (s.core.stage pristine) s.core s.core :=
  hk.serves_alike (.refl _)

/-- **Calls.** A call that succeeds keeps the rules and the order, if the idle thread makes none
that it would have to wait in. -/
theorem execute_serves (hk : s.core.InOrder pristine)
    (hi : s.core.current = s.core.idle → ¬ s.Queues c) (hc : isDelicate c = false)
    (h : execute c s = .ok a s') : Serves (s.core.stage pristine) s.core s'.core := by
  have hg : (s.core.stage pristine).state = .running := rfl
  obtain hquiet | ⟨hq, α, e, r, hp, hx⟩ := execute_step h
  · exact hk.serves_alike hquiet.alike
  cases hp with
  | create _ _ | spawn _ _ _ => exact (hk.spawn hg hx).1
  | exit => exact hk.exit hg rfl hx
  | yield =>
    obtain ⟨-, t, hs, ho, -⟩ := hk.yieldNow hg hx
    exact ⟨hs.current ▸ hs, fun _ => .inl ho⟩
  | block => exact hk.block hg hx
  | setPriority _ => exact (hk.setPriority hg hx).1
  | sleepUntil _ => exact hk.sleepUntil hg hx
  | sleepFor _ => exact hk.sleepFor hg hx
  | wakeSleepers _ => exact (hk.wakeSleepers hg hx).1
  | timer => exact hk.timerInterrupt hg hx
  | tick _ => exact hk.ticks hg hx
  | yieldOnReturn => exact hk.yieldOnReturn hx
  | newSemaphore _ => exact hk.serves_alike (Core.alike_newSemaphore hk hx)
  | down hid => exact hk.down hg (fun he o ho hv => hi he ⟨_, o, hid, ho, hv⟩) hx
  | tryDown _ => exact hk.serves_alike (Core.alike_tryDown hx)
  | up _ => exact (hk.up hg hx).1
  | destroySemaphore _ => exact hk.serves_alike (Core.alike_destroySemaphore hk hx)
  | newLock => exact hk.serves_alike (Core.alike_newLock hk hx)
  | acquire hid =>
    exact hk.acquire hg (fun he o ho => by_contra fun hh => hi he ⟨_, o, hid, ho, hh⟩) hx
  | tryAcquire _ => exact hk.tryAcquire hx
  | release _ => exact (hk.release hg hx).1
  | destroyLock _ => exact hk.serves_alike (Core.alike_destroyLock hk hx)
  | newCondition => exact hk.serves_alike (Core.alike_newCondition hk hx)
  | await hv hl => exact hk.await hg (fun he => hi he ⟨_, _, hv, hl⟩) hx
  | signal _ _ => exact hk.signal hg hx
  | broadcast _ _ => exact hk.broadcast hg hx
  | destroyCondition _ => exact hk.serves_alike (Core.alike_destroyCondition hk hx)
  | setExitStatus _ => exact hk.setExitStatus hx
  | reportFork => exact (hk.reportFork hg hx).1
  | awaitFork _ => exact hk.awaitFork hg (fun he r o hr ho hv => hi he ⟨r, o, hr, ho, hv⟩) hx
  | awaitExit _ => exact hk.awaitExit hg (fun he r o hr hs ho hv => hi he ⟨r, o, hr, hs, ho, hv⟩) hx
  | tryCollect _ => exact hk.tryCollect hx
  | unblock _ | overwrite _ _ _ | setHandler _ => cases hc
  | ask ha => cases hq.symm.trans ha.isQuiet
  | _ => cases hq

/-! ## Calls that need more care -/

/-- A blocked thread that does not sleep and is in no queue of an object sits nowhere. -/
theorem stands_of_loose (hk : s.core.InOrder pristine) {t : ThreadId} {th : Thread}
    (hth : s.core.threads[t]? = some th) (hb : th.state = .blocked) (hs : t ∉ s.core.sleepers)
    (hw : ∀ e ∈ s.core.objects.waitLists, t ∉ e.2) : s.core.seating.Stands t := by
  intro p hp
  rcases Core.mem_waitLists hp with hr | hsl | ⟨e, he, ht⟩
  · obtain ⟨th', hth', hs'⟩ := hk.state_of_mem rfl (p := .ready) hr
    rw [hth, Option.some.injEq] at hth'
    rw [← hth', hb] at hs'
    cases hs'
  · exact hs hsl
  · exact hw e he ht

theorem inOrder_unblock (hk : s.core.InOrder pristine) {t : ThreadId} (hs : t ∉ s.core.sleepers)
    (hw : ∀ e ∈ s.core.objects.waitLists, t ∉ e.2) (h : execute (.unblock t) s = .ok a s') :
    s'.core.InOrder pristine := by
  obtain ⟨_, k, h, rfl⟩ := act_eq_ok h
  obtain ⟨-, m, th, hq, hth, hb, -⟩ := Core.unblock_eq_ok h
  rw [hq.threads] at hth
  exact (hk.unblock (stands_of_loose hk hth hb hs hw) h).inOrder rfl rfl

theorem inOrder_setHandler (hk : s.core.InOrder pristine) {on : Bool}
    (h : execute (.setHandler on) s = .ok a s') : s'.core.InOrder pristine := by
  obtain ⟨_, k, h, hk'⟩ := act_eq_ok h
  rw [Core.setHandler_eq_ok] at h
  rw [hk', h.2]
  exact (hk.withMachine _).inOrder rfl rfl

theorem overwrite_eq_ok {t : ThreadId} {offset : Nat} {byte : UInt8}
    (h : execute (.overwrite t offset byte) s = .ok a s') :
    (t ∉ s.core.threads ∧ s' = s) ∨
      t ∈ s.core.threads ∧
        ∃ stack, s'.core = s.core.mapThread t fun th => { th with stack := stack } := by
  unfold execute overwrite at h
  rw [get_bind_eq_ok] at h
  cases ht : s.core.threads[t]? with
  | none =>
    simp only [ht, pure_eq_ok] at h
    refine .inl ⟨fun hm => ?_, h.2.symm⟩
    rw [Std.ExtTreeMap.mem_iff_isSome_getElem?, ht] at hm
    cases hm
  | some th =>
    simp only [ht, onCore_bind_eq_ok, Core.ask_bind_eq_ok, Core.changeThread_eq_ok, pure_eq_ok] at h
    obtain ⟨_, _, ⟨stack, -, -, rfl⟩, -, rfl⟩ := h
    refine .inr ⟨?_, stack, rfl⟩
    rw [Std.ExtTreeMap.mem_iff_isSome_getElem?, ht]
    rfl

/-- The stack of a thread matters to its canary only. -/
theorem overwrite_serves (hk : s.core.InOrder false) {t : ThreadId} {offset : Nat} {byte : UInt8}
    (h : execute (.overwrite t offset byte) s = .ok a s') :
    Serves (s.core.stage false) s.core s'.core := by
  rcases overwrite_eq_ok h with ⟨-, rfl⟩ | ⟨-, stack, hs'⟩
  · exact serves_refl hk
  rw [hs']
  have hwaits : (s.core.mapThread t fun th => { th with stack := stack }).waits = s.core.waits :=
    Core.waits_mapThread (fun _ => rfl) (fun _ => rfl) (fun _ => rfl) fun _ => rfl
  have hseat : (s.core.mapThread t fun th => { th with stack := stack }).seating = s.core.seating :=
    Core.seating_mapThread (fun _ => rfl) fun _ => rfl
  refine Core.Sound.serves_calm ⟨rfl, rfl, rfl, ?_, ?_, ?_⟩ ⟨rfl, rfl, rfl, ?_, rfl, rfl⟩
  · rw [hseat]
    exact hk.seating
  · rw [hwaits]
    exact hk.waits
  · exact hk.registered.change (fun _ => rfl) (fun hp => by cases hp) fun _ => rfl
  · intro u
    rw [Core.priorityOf_eq, Core.priorityOf_eq, hwaits]

/-! ## Runs -/

/-- The states of a run between its operations, if the run makes only calls that are allowed. The
list has an entry for each handler that was entered and not left. -/
inductive Reached (allowed : Session → Call → Prop) : List Bool → Session → Prop
  | boot {setup : Setup} {config : Config} {k : Core} :
      Config.build setup.timeSlice setup.mainPriority = .ok config →
      Core.boot (setup.core config) = .ok (.ok ()) k → Reached allowed [] (.ofCore k)
  | call {frames : List Bool} {s s' : Session} {c : Call} {a : Answer} :
      Reached allowed frames s → allowed s c → execute c s = .ok a s' → Reached allowed frames s'
  | enter {frames : List Bool} {s s' : Session} {was : Bool} :
      Reached allowed frames s → onCore Core.enterHandler s = .ok was s' →
      Reached allowed (was :: frames) s'
  | leave {frames : List Bool} {s s' : Session} {was : Bool} {a : Answer} :
      Reached allowed (was :: frames) s → act (Core.leaveHandler was) s = .ok a s' →
      Reached allowed frames s'

mutual

/-- Every call of the operation is allowed when it is made. -/
def Obeys (allowed : Session → Call → Prop) (s : Session) : Operation → Prop
  | .call c => allowed s c
  | .interrupt handler => ∀ was s', onCore Core.enterHandler s = .ok was s' →
      ObeysAll allowed s' handler

def ObeysAll (allowed : Session → Call → Prop) (s : Session) : List Operation → Prop
  | [] => True
  | op :: ops => Obeys allowed s op ∧
      ∀ step s', perform s op = (step, s', none) → ObeysAll allowed s' ops

end

mutual

/-- An operation that does not halt ends in a state of the run. -/
theorem Reached.perform {allowed : Session → Call → Prop} {frames : List Bool} {s s' : Session}
    {step : Step} (hs : Reached allowed frames s) :
    (op : Operation) → Obeys allowed s op → Session.perform s op = (step, s', none) →
      Reached allowed frames s'
  | .call c, ho, h => by
    unfold Session.perform at h
    cases he : execute c s with
    | ok a s₁ =>
      simp only [he, outcomeOf, Prod.mk.injEq, and_true] at h
      exact h.2 ▸ hs.call ho he
    | error halt s₁ => simp [he, outcomeOf] at h
  | .interrupt handler, ho, h => by
    unfold Session.perform at h
    cases he : onCore Core.enterHandler s with
    | error halt s₁ => simp [he] at h
    | ok was s₁ =>
      rcases hp : Session.performAll s₁ handler with ⟨steps, s₂, halted⟩
      simp only [he, hp] at h
      cases halted with
      | some halt => simp [outcomeOf] at h
      | none =>
        have hr := Reached.performAll (hs.enter he) handler (ho was s₁ he) hp
        cases hl : act (Core.leaveHandler was) s₂ with
        | ok a s₃ =>
          simp only [hl, outcomeOf, Prod.mk.injEq, and_true] at h
          exact h.2 ▸ hr.leave hl
        | error halt s₃ => simp [hl, outcomeOf] at h

theorem Reached.performAll {allowed : Session → Call → Prop} {frames : List Bool} {s s' : Session}
    {steps : List Step} (hs : Reached allowed frames s) :
    (ops : List Operation) → ObeysAll allowed s ops →
      Session.performAll s ops = (steps, s', none) → Reached allowed frames s'
  | [], _, h => by
    simp only [Session.performAll, Prod.mk.injEq] at h
    exact h.2.1 ▸ hs
  | op :: ops, ho, h => by
    unfold ObeysAll at ho
    unfold Session.performAll at h
    rcases hp : Session.perform s op with ⟨step, s₁, halted⟩
    simp only [hp] at h
    cases halted with
    | some halt => simp at h
    | none =>
      rcases hq : Session.performAll s₁ ops with ⟨steps', s₂, halted⟩
      simp only [hq, Prod.mk.injEq] at h
      obtain ⟨-, rfl, rfl⟩ := h
      exact Reached.performAll (Reached.perform hs op ho.1 hp) ops (ho.2 step s₁ hp) hq

end

/-- What a disciplined run may call: it does not unblock a thread that waits somewhere, it does not
overwrite a stack, and the idle thread does not wait. -/
structure Disciplined (s : Session) (c : Call) : Prop where
  unblock : ∀ t, c = .unblock t →
    t ∉ s.core.sleepers ∧ ∀ e ∈ s.core.objects.waitLists, t ∉ e.2
  overwrite : ∀ t offset byte, c = .overwrite t offset byte → t ∉ s.core.threads
  idle : s.core.current = s.core.idle → ¬ s.Queues c

/-- What a run with strict priorities may call: it does not unblock a thread by hand, it leaves the
handler flag to the handlers, and the idle thread does not wait. -/
structure Strict (s : Session) (c : Call) : Prop where
  unblock : ∀ t, c ≠ .unblock t
  setHandler : ∀ on, c ≠ .setHandler on
  idle : s.core.current = s.core.idle → ¬ s.Queues c

/-- A call that is plain, made by a thread other than the idle one, is allowed in runs of both
kinds. -/
theorem Disciplined.plain (hc : isDelicate c = false) (hi : s.core.current ≠ s.core.idle) :
    Disciplined s c := by
  refine ⟨?_, ?_, fun h => absurd h hi⟩
  · rintro t rfl
    cases hc
  · rintro t offset byte rfl
    cases hc

theorem Strict.plain (hc : isDelicate c = false) (hi : s.core.current ≠ s.core.idle) :
    Strict s c := by
  refine ⟨?_, ?_, fun h => absurd h hi⟩
  · rintro t rfl
    cases hc
  · rintro on rfl
    cases hc

theorem reached_boot {setup : Setup} {config : Config} {k : Core}
    (h : Core.boot (setup.core config) = .ok (.ok ()) k) :
    k.InOrder true ∧ k.Orderly ∧ k.machine.inHandler = false := by
  obtain ⟨hs, ho⟩ := Core.sound_boot (k := setup.core config) ⟨rfl, rfl, rfl, rfl⟩ rfl h
  exact ⟨hs.inOrder rfl rfl, ho, hs.handler⟩

/-- Every state of a disciplined run obeys the rules. -/
theorem Reached.inOrder {frames : List Bool} (h : Reached Disciplined frames s) :
    s.core.InOrder true := by
  induction h with
  | boot _ hb => exact (reached_boot hb).1
  | @call frames s s' c a _ hd he ih =>
    by_cases hc : isDelicate c = true
    · cases c with
      | unblock t => exact inOrder_unblock ih (hd.unblock t rfl).1 (hd.unblock t rfl).2 he
      | setHandler on => exact inOrder_setHandler ih he
      | overwrite t offset byte =>
        rcases overwrite_eq_ok he with ⟨-, rfl⟩ | ⟨ht, -⟩
        · exact ih
        · exact absurd ht (hd.overwrite t offset byte rfl)
      | _ => cases hc
    · exact (execute_serves ih hd.idle (Bool.not_eq_true _ ▸ hc) he).inOrder
  | enter _ he ih =>
    obtain ⟨k, hk, rfl⟩ := onCore_eq_ok.mp he
    exact (ih.enterHandler hk).2.1.inOrder rfl rfl
  | leave _ he ih =>
    obtain ⟨_, k, hk, rfl⟩ := act_eq_ok he
    exact (ih.leaveHandler rfl hk).2.1.inOrder rfl rfl

theorem inOrder_weaken {k : Core} (h : k.InOrder true) : k.InOrder false := by
  obtain ⟨h₁, h₂, h₃, h₄, h₅, h₆⟩ := h
  refine ⟨h₁, h₂, h₃, h₄, h₅, ⟨fun t th ht => ?_, h₆.parent, h₆.holder, h₆.semaphore, h₆.lock,
    h₆.condition⟩⟩
  obtain ⟨hid, hlt, -⟩ := h₆.thread t th ht
  exact ⟨hid, hlt, fun hp => by cases hp⟩

/-- Every state of a run with strict priorities obeys the rules, up to canaries, and its order is
settled. Handlers do not nest. -/
theorem Reached.settled {frames : List Bool} (h : Reached Strict frames s) :
    s.core.InOrder false ∧ s.core.Settled ∧ s.core.machine.inHandler = !frames.isEmpty ∧
      frames.length ≤ 1 := by
  induction h with
  | boot _ hb =>
    obtain ⟨hk, ho, hh⟩ := reached_boot hb
    exact ⟨inOrder_weaken hk, .inl ho, hh, Nat.zero_le 1⟩
  | @call frames s s' c a _ hd he ih =>
    obtain ⟨hk, hset, hh, hone⟩ := ih
    have hserves : Serves (s.core.stage false) s.core s'.core := by
      by_cases hc : isDelicate c = true
      · cases c with
        | unblock t => exact absurd rfl (hd.unblock t)
        | setHandler on => exact absurd rfl (hd.setHandler on)
        | overwrite t offset byte => exact overwrite_serves hk he
        | _ => cases hc
      · exact execute_serves hk hd.idle (Bool.not_eq_true _ ▸ hc) he
    exact ⟨hserves.inOrder, hserves.settled hset, hserves.sound.handler.trans hh, hone⟩
  | @enter frames s s' was _ he ih =>
    obtain ⟨hk, hset, hh, -⟩ := ih
    obtain ⟨k, hk', rfl⟩ := onCore_eq_ok.mp he
    obtain ⟨hout, hs, hset'⟩ := hk.enterHandler hk'
    have hempty : frames = [] := by
      have : (!frames.isEmpty) = false := hh.symm.trans hout
      simpa using this
    subst hempty
    exact ⟨hs.inOrder rfl rfl, hset' hset, hs.handler, le_refl 1⟩
  | @leave frames s s' was a _ he ih =>
    obtain ⟨hk, hset, hh, hone⟩ := ih
    obtain ⟨_, k, hk', rfl⟩ := act_eq_ok he
    obtain ⟨-, hs, ho⟩ := hk.leaveHandler rfl hk'
    obtain rfl : frames = [] :=
      List.length_eq_zero_iff.mp (Nat.le_zero.mp (Nat.le_of_succ_le_succ hone))
    exact ⟨hs.inOrder rfl rfl, .inl (ho hset), hs.handler, Nat.zero_le 1⟩

/-! ## Plain runs -/

/-- The session after plain calls by threads other than the idle one, unless a call halts. -/
def afterCalls (s : Session) : List Call → Option Session
  | [] => some s
  | c :: cs =>
    if isDelicate c = false ∧ s.core.current ≠ s.core.idle then
      match execute c s with
      | .ok _ s' => s'.afterCalls cs
      | .error _ _ => none
    else none

/-- The session after booting and plain calls. -/
def afterBoot (setup : Setup) (cs : List Call) : Option Session :=
  match Config.build setup.timeSlice setup.mainPriority with
  | .error _ => none
  | .ok config =>
    match Core.boot (setup.core config) with
    | .ok (.ok ()) k => (ofCore k).afterCalls cs
    | _ => none

section Plain

variable {allowed : Session → Call → Prop}
  (hall : ∀ s c, isDelicate c = false → s.core.current ≠ s.core.idle → allowed s c)

include hall

theorem reached_afterCalls {frames : List Bool} {cs : List Call} (hs : Reached allowed frames s)
    (h : s.afterCalls cs = some s') : Reached allowed frames s' := by
  induction cs generalizing s with
  | nil => exact Option.some.inj h ▸ hs
  | cons c cs ih =>
    unfold afterCalls at h
    split at h
    · rename_i hc
      split at h
      · rename_i he
        exact ih (hs.call (hall s c hc.1 hc.2) he) h
      · cases h
    · cases h

theorem reached_afterBoot {setup : Setup} {cs : List Call} (h : afterBoot setup cs = some s) :
    Reached allowed [] s := by
  unfold afterBoot at h
  split at h
  · cases h
  · rename_i hb
    split at h
    · rename_i hk
      exact reached_afterCalls hall (.boot hb hk) h
    · cases h

end Plain

end Session

end ThreadCore
