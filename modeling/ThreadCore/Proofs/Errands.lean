import ThreadCore.Proofs.Steps
import ThreadCore.Session.Call

/-!
# Errands

What a call comes to. A few calls only look at the session, or name something that it does not have
(`Session.Looks`). Every other call is an errand: a step of the core, with the answer that its
result gives and what the session keeps of it (`Session.Performs`).

The calls are told apart here, once and for all (`Session.execute_ok`, `Session.execute_error`).
What is to be shown of a call is then shown of the step that it performs.
-/

namespace ThreadCore

variable {α : Type}

/-- A step of the core on behalf of a call. -/
structure Errand (α : Type) where
  step : CoreM α
  answer : α → Answer
  /-- What the session keeps when the step has succeeded. -/
  keep : α → Session → Session
  core_keep : ∀ r s, (keep r s).core = s.core

namespace Errand

/-- A step of which the session keeps nothing. -/
def report (step : CoreM α) (answer : α → Answer) : Errand α :=
  ⟨step, answer, fun _ s => s, fun _ _ => rfl⟩

def act (step : CoreM Unit) : Errand Unit := report step fun _ => .done .nothing

def count (step : CoreM Nat) : Errand Nat := report step fun n => .done (.number n)

def ask (reply : α → Reply) (question : Core → Except Halt α) : Errand α :=
  report (Core.ask question) fun r => .done (reply r)

/-- A refusal is the answer, too. -/
def attempt (reply : α → Reply) (step : CoreM (Except Refusal α)) : Errand (Except Refusal α) :=
  report step (.ofExcept reply)

/-- Nothing, or that the caller would have to wait. -/
def trial (step : CoreM (Except WouldBlock Unit)) : Errand (Except WouldBlock Unit) :=
  report step .ofTry

def run (e : Errand α) : SessionM Answer := fun s =>
  match e.step s.core with
  | .ok r k => .ok (e.answer r) (e.keep r { s with core := k })
  | .error h k => .error h { s with core := k }

variable {e : Errand α} {s : Session} {r : α} {k : Core} {h : Halt}

theorem run_of_ok (hx : e.step s.core = .ok r k) :
    e.run s = .ok (e.answer r) (e.keep r { s with core := k }) := by
  unfold run
  rw [hx]

theorem run_of_error (hx : e.step s.core = .error h k) :
    e.run s = .error h { s with core := k } := by
  unfold run
  rw [hx]

theorem run_eq_ok {a : Answer} {s' : Session} (hr : e.run s = .ok a s') :
    ∃ r k, e.step s.core = .ok r k ∧ a = e.answer r ∧ s' = e.keep r { s with core := k } := by
  cases hx : e.step s.core with
  | ok r k =>
    obtain ⟨rfl, rfl⟩ := EStateM.Result.ok.inj ((run_of_ok hx).symm.trans hr)
    exact ⟨r, k, rfl, rfl, rfl⟩
  | error h k => cases (run_of_error hx).symm.trans hr

theorem run_eq_error {s' : Session} (hr : e.run s = .error h s') :
    ∃ k, e.step s.core = .error h k ∧ s' = { s with core := k } := by
  cases hx : e.step s.core with
  | ok r k => cases (run_of_ok hx).symm.trans hr
  | error h' k =>
    obtain ⟨rfl, rfl⟩ := EStateM.Result.error.inj ((run_of_error hx).symm.trans hr)
    exact ⟨k, rfl, rfl⟩

end Errand

namespace Session

variable {s s' : Session} {c : Call} {a : Answer}

/-! ## Parts of a call -/

theorem onCore_eq_ok {step : CoreM α} {b : α} :
    onCore step s = .ok b s' ↔ ∃ k, step s.core = .ok b k ∧ s' = { s with core := k } := by
  unfold onCore
  cases step s.core <;> grind

theorem onCore_of_ok {step : CoreM α} {r : α} {k : Core} (h : step s.core = .ok r k) :
    onCore step s = .ok r { s with core := k } := by
  unfold onCore
  rw [h]

theorem onCore_of_error {step : CoreM α} {e : Halt} {k : Core} (h : step s.core = .error e k) :
    onCore step s = .error e { s with core := k } := by
  unfold onCore
  rw [h]

theorem onCore_bind_eq_ok {β : Type} {step : CoreM α} {f : α → SessionM β} {b : β} :
    (onCore step >>= f) s = .ok b s' ↔
      ∃ r k, step s.core = .ok r k ∧ f r { s with core := k } = .ok b s' := by
  rw [bind_eq_ok]
  simp only [onCore_eq_ok]
  grind

theorem act_eq_ok {step : CoreM Unit} (h : act step s = .ok a s') :
    ∃ u k, step s.core = .ok u k ∧ s'.core = k := by
  unfold act at h
  simp only [onCore_bind_eq_ok, pure_eq_ok] at h
  obtain ⟨u, k, hk, -, rfl⟩ := h
  exact ⟨u, k, hk, rfl⟩

/-- A call that only reports on a step of the core. -/
theorem report_ok {step : CoreM α} {answer : α → Answer} :
    (onCore step >>= fun r => pure (answer r)) s = .ok a s' ↔
      ∃ r k, step s.core = .ok r k ∧ a = answer r ∧ s' = { s with core := k } := by
  simp only [onCore_bind_eq_ok, pure_eq_ok]
  constructor
  · rintro ⟨r, k, hk, rfl, rfl⟩
    exact ⟨r, k, hk, rfl, rfl⟩
  · rintro ⟨r, k, hk, rfl, rfl⟩
    exact ⟨r, k, hk, rfl, rfl⟩

theorem resolve_of_some {handles : Session → Array ObjectId} {i : Nat} {id : ObjectId}
    {f : ObjectId → SessionM Answer} (h : (handles s)[i]? = some id) :
    resolve handles i f s = f id s := by
  unfold resolve
  rw [get_bind_eq, h]

theorem resolve_of_none {handles : Session → Array ObjectId} {i : Nat}
    {f : ObjectId → SessionM Answer} (h : (handles s)[i]? = none) :
    resolve handles i f s = .ok .misused s := by
  unfold resolve
  rw [get_bind_eq, h]
  rfl

theorem resolve_eq_ok {handles : Session → Array ObjectId} {i : Nat}
    {f : ObjectId → SessionM Answer} : resolve handles i f s = .ok a s' ↔
      ((handles s)[i]? = none ∧ a = .misused ∧ s' = s) ∨
        ∃ id, (handles s)[i]? = some id ∧ f id s = .ok a s' := by
  unfold resolve
  rw [get_bind_eq_ok]
  cases (handles s)[i]? with
  | none => simp [pure_eq_ok, eq_comm]
  | some id => simp

/-! ## The calls one by one -/

/-- The call names something that the session does not have. -/
def Lacks (s : Session) : Call → Prop
  | .overwrite t _ _ => s.core.threads[t]? = none
  | .closeGuard => s.guards = []
  | .down i | .tryDown i | .up i | .semaphoreValue i | .semaphoreWaiters i | .destroySemaphore i =>
    s.semaphores[i]? = none
  | .acquire i | .tryAcquire i | .release i | .heldByCurrent i | .holder i | .lockWaiters i
  | .destroyLock i => s.locks[i]? = none
  | .conditionWaiters i | .destroyCondition i => s.conditions[i]? = none
  | .await i j | .signal i j | .broadcast i j => s.conditions[i]? = none ∨ s.locks[j]? = none
  | _ => False

/-- The call is answered by a look at the session. -/
inductive Looks (s : Session) : Call → Answer → Prop
  | idle : Looks s .idle (.done (.number s.core.idle))
  | thread {t : ThreadId} {th : Thread} : s.core.threads[t]? = some th →
      Looks s (.thread t) (.done (.description th.name th.text))
  | absent {t : ThreadId} : s.core.threads[t]? = none → Looks s (.thread t) (.done .absent)
  | config : Looks s .config (.done (.settings s.core.config))
  | usage : Looks s .usage (.done (.text s.core.usage.text))
  | misused {c : Call} : s.Lacks c → Looks s c .misused

/-- The call asks the core a question. -/
inductive Asks (s : Session) : Call → {α : Type} → (α → Reply) → (Core → Except Halt α) → Prop
  | getPriority : Asks s .getPriority .number Core.getPriority
  | self : Asks s .self (.number ·.id) Core.running
  | name : Asks s .name (.text ·.name) Core.running
  | current : Asks s .current (.text ·.text) Core.running
  | validate : Asks s .validate (fun _ => .nothing) Core.validate
  | semaphoreValue {i : Nat} {id : ObjectId} : s.semaphores[i]? = some id →
      Asks s (.semaphoreValue i) (.number ·.value) (Core.semaphore id)
  | semaphoreWaiters {i : Nat} {id : ObjectId} : s.semaphores[i]? = some id →
      Asks s (.semaphoreWaiters i) (.number ·.waiters.size) (Core.semaphore id)
  | heldByCurrent {i : Nat} {l : ObjectId} : s.locks[i]? = some l →
      Asks s (.heldByCurrent i) .flag (Core.heldByCurrent l)
  | holder {i : Nat} {l : ObjectId} : s.locks[i]? = some l →
      Asks s (.holder i) (.maybeThread ·.holder) (Core.lock l)
  | lockWaiters {i : Nat} {l : ObjectId} : s.locks[i]? = some l →
      Asks s (.lockWaiters i) (.number ·.waiters.size) (Core.lock l)
  | conditionWaiters {i : Nat} {v : ObjectId} : s.conditions[i]? = some v →
      Asks s (.conditionWaiters i) (.number ·.waiters.size) (Core.condition v)
  | parent : Asks s .parent .maybeThread Core.parent
  | children : Asks s .children .threads Core.children
  | exitStatus : Asks s .exitStatus (.integer ·.toInt) Core.exitStatus

/-- The call performs a step of the core. -/
inductive Performs (s : Session) : Call → {α : Type} → Errand α → Prop
  | create (name : String) (priority : Priority) :
      Performs s (.create name priority) (.attempt .number (Core.spawn name priority none))
  | spawn (name : String) (priority : Option Priority) (task : Option Task) :
      Performs s (.spawn name priority task)
        (.attempt .number (Core.spawn name (priority.getD .usual) task))
  | exit : Performs s .exit (.act Core.exit)
  | yield : Performs s .yield (.act Core.yieldNow)
  | block : Performs s .block (.act Core.block)
  | unblock (t : ThreadId) : Performs s (.unblock t) (.act (Core.unblock t))
  | setPriority (p : Priority) : Performs s (.setPriority p) (.act (Core.setPriority p))
  | overwrite {t : ThreadId} {th : Thread} (offset : Nat) (byte : UInt8) :
      s.core.threads[t]? = some th → Performs s (.overwrite t offset byte) (.act do
        let stack ← Core.ask fun _ => th.stack.writeByte offset byte
        Core.changeThread t fun th => { th with stack := stack })
  | printUsage : Performs s .printUsage (.act (Core.write (s.core.usage.text ++ "\n")))
  | sleepUntil (tick : Nat) : Performs s (.sleepUntil tick) (.act (Core.sleepUntil tick))
  | sleepFor (ticks : Nat) : Performs s (.sleepFor ticks) (.act (Core.sleepFor ticks))
  | wakeSleepers (now : Nat) : Performs s (.wakeSleepers now) (.count (Core.wakeSleepers now))
  | advance (ticks : Nat) : Performs s (.advance ticks) (.count (Core.advance ticks))
  | timer : Performs s .timer (.act Core.timerInterrupt)
  | tick (n : Nat) : Performs s (.tick n) (.act (Core.ticks n))
  | yieldOnReturn : Performs s .yieldOnReturn (.act Core.yieldOnReturn)
  | openGuard : Performs s .openGuard
      ⟨Core.onMachine Machine.mask, fun was => .done (.text (interruptText was)),
      fun was s => { s with guards := was :: s.guards }, fun _ _ => rfl⟩
  | closeGuard {was : Bool} {guards : List Bool} : s.guards = was :: guards →
      Performs s .closeGuard ⟨Core.onMachine (Machine.unmask was), fun _ => .done .nothing,
        fun _ s => { s with guards := guards }, fun _ _ => rfl⟩
  | enableInterrupts :
      Performs s .enableInterrupts (.act (Core.onMachine (modify (·.withInterrupts true))))
  | disableInterrupts :
      Performs s .disableInterrupts (.act (Core.onMachine (modify (·.withInterrupts false))))
  | setHandler (on : Bool) :
      Performs s (.setHandler on) (.act (Core.onMachine (Machine.setHandler on)))
  | newSemaphore (value : Nat) : Performs s (.newSemaphore value) ⟨Core.newSemaphore value,
      fun id => .done (.text (Handle.semaphore id).text),
      fun id s => { s with semaphores := s.semaphores.push id }, fun _ _ => rfl⟩
  | down {i : Nat} {id : ObjectId} : s.semaphores[i]? = some id →
      Performs s (.down i) (.act (Core.down id))
  | tryDown {i : Nat} {id : ObjectId} : s.semaphores[i]? = some id →
      Performs s (.tryDown i) (.trial (Core.tryDown id))
  | up {i : Nat} {id : ObjectId} : s.semaphores[i]? = some id →
      Performs s (.up i) (.act (Core.up id))
  | destroySemaphore {i : Nat} {id : ObjectId} : s.semaphores[i]? = some id →
      Performs s (.destroySemaphore i) (.attempt (fun _ => .nothing) (Core.destroySemaphore id))
  | newLock : Performs s .newLock ⟨Core.newLock, fun id => .done (.text (Handle.lock id).text),
      fun id s => { s with locks := s.locks.push id }, fun _ _ => rfl⟩
  | acquire {i : Nat} {l : ObjectId} : s.locks[i]? = some l →
      Performs s (.acquire i) (.act (Core.acquire l))
  | tryAcquire {i : Nat} {l : ObjectId} : s.locks[i]? = some l →
      Performs s (.tryAcquire i) (.trial (Core.tryAcquire l))
  | release {i : Nat} {l : ObjectId} : s.locks[i]? = some l →
      Performs s (.release i) (.act (Core.release l))
  | destroyLock {i : Nat} {l : ObjectId} : s.locks[i]? = some l →
      Performs s (.destroyLock i) (.attempt (fun _ => .nothing) (Core.destroyLock l))
  | newCondition : Performs s .newCondition ⟨Core.newCondition,
      fun id => .done (.text (Handle.condition id).text),
      fun id s => { s with conditions := s.conditions.push id }, fun _ _ => rfl⟩
  | await {i j : Nat} {v l : ObjectId} : s.conditions[i]? = some v → s.locks[j]? = some l →
      Performs s (.await i j) (.act (Core.await v l))
  | signal {i j : Nat} {v l : ObjectId} : s.conditions[i]? = some v → s.locks[j]? = some l →
      Performs s (.signal i j) (.report (Core.signal v l) fun b => .done (.flag b))
  | broadcast {i j : Nat} {v l : ObjectId} : s.conditions[i]? = some v → s.locks[j]? = some l →
      Performs s (.broadcast i j) (.count (Core.broadcast v l))
  | destroyCondition {i : Nat} {v : ObjectId} : s.conditions[i]? = some v →
      Performs s (.destroyCondition i) (.attempt (fun _ => .nothing) (Core.destroyCondition v))
  | setExitStatus (status : Int32) :
      Performs s (.setExitStatus status) (.act (Core.setExitStatus status))
  | reportFork : Performs s .reportFork (.attempt (fun _ => .nothing) Core.reportFork)
  | awaitFork (child : ThreadId) :
      Performs s (.awaitFork child) (.attempt (fun _ => .nothing) (Core.awaitFork child))
  | awaitExit (child : ThreadId) :
      Performs s (.awaitExit child) (.attempt (.integer ·.toInt) (Core.awaitExit child))
  | tryCollect (child : ThreadId) :
      Performs s (.tryCollect child) (.attempt .child (Core.tryCollect child))
  | print (text : String) : Performs s (.print text) (.act (Core.write text))
  | announce (severity : Severity) (text : String) : Performs s (.announce severity text) (.act do
      if !(← get).console.quiet then Core.write (Console.line severity text))
  | log (severity : Severity) (text : String) :
      Performs s (.log severity text) (.act (Core.writeLine severity text))
  | setThreshold (threshold : Option Severity) : Performs s (.setThreshold threshold)
      (.act (modify fun k => { k with console := { k.console with threshold := threshold } }))
  | setQuiet (on : Bool) : Performs s (.setQuiet on)
      (.act (modify fun k => { k with console := { k.console with quiet := on } }))
  | ask {c : Call} {α : Type} {reply : α → Reply} {question : Core → Except Halt α} :
      s.Asks c reply question → Performs s c (.ask reply question)

variable {e : Errand α}

/-- What a call does with a step of the core is its errand. -/
theorem keep_eq (step : CoreM α) (answer : α → Answer) (g : α → Session → Session)
    (hg : ∀ r s, (g r s).core = s.core) :
    (onCore step >>= fun r => modify (g r) >>= fun _ => pure (answer r)) s =
      (Errand.mk step answer g hg).run s := by
  cases hx : step s.core with
  | ok r k =>
    exact (bind_of_ok (onCore_of_ok hx)).trans (Errand.run_of_ok (e := ⟨_, _, _, hg⟩) hx).symm
  | error h k =>
    exact (bind_of_error (onCore_of_error hx)).trans
      (Errand.run_of_error (e := ⟨_, _, _, hg⟩) hx).symm

theorem report_eq (step : CoreM α) (answer : α → Answer) :
    (onCore step >>= fun r => pure (answer r)) s = (Errand.report step answer).run s :=
  keep_eq step answer (fun _ s => s) fun _ _ => rfl

/-- A look changes nothing. -/
theorem Looks.execute (h : s.Looks c a) : execute c s = .ok a s := by
  cases h with
  | idle | config | usage => rfl
  | thread ht | absent ht =>
    refine get_bind_eq.trans ?_
    rw [ht]
    rfl
  | misused hl =>
    cases c with
    | overwrite t offset byte =>
      refine get_bind_eq.trans ?_
      rw [show s.core.threads[t]? = none from hl]
      rfl
    | closeGuard =>
      refine get_bind_eq.trans ?_
      rw [show s.guards = [] from hl]
      rfl
    | await i j | signal i j | broadcast i j =>
      rcases hl with hi | hj
      · exact resolve_of_none hi
      · cases hi : s.conditions[i]? with
        | none => exact resolve_of_none hi
        | some v => exact (resolve_of_some hi).trans (resolve_of_none hj)
    | down _ | tryDown _ | up _ | semaphoreValue _ | semaphoreWaiters _ | destroySemaphore _
    | acquire _
    | tryAcquire _ | release _ | heldByCurrent _ | holder _ | lockWaiters _ | destroyLock _
    | conditionWaiters _ | destroyCondition _ => exact resolve_of_none hl
    | _ => cases hl

/-- A call runs the errand that it performs. -/
theorem Performs.execute (h : s.Performs c e) : execute c s = e.run s := by
  cases h with
  | ask h =>
    cases h with
    | semaphoreValue hi | semaphoreWaiters hi | heldByCurrent hi | holder hi | lockWaiters hi
    | conditionWaiters hi => exact (resolve_of_some hi).trans (report_eq _ _)
    | _ => exact report_eq _ _
  | overwrite offset byte ht =>
    refine get_bind_eq.trans ?_
    rw [ht]
    exact report_eq _ _
  | openGuard => exact keep_eq _ _ _ _
  | closeGuard hg =>
    refine get_bind_eq.trans ?_
    rw [hg]
    rename_i was _
    cases was <;> rfl
  | printUsage => exact get_bind_eq.trans (report_eq _ _)
  | newSemaphore | newLock | newCondition => exact keep_eq _ _ _ _
  | down hi | tryDown hi | up hi | destroySemaphore hi | acquire hi | tryAcquire hi | release hi
  | destroyLock hi | destroyCondition hi => exact (resolve_of_some hi).trans (report_eq _ _)
  | await hi hj | signal hi hj | broadcast hi hj =>
    exact (resolve_of_some hi).trans ((resolve_of_some hj).trans (report_eq _ _))
  | _ => exact report_eq _ _

/-- A call on an object looks, or performs an errand with it. -/
theorem performs_of_handle {handles : Array ObjectId} {i : Nat} {e : ObjectId → Errand α}
    (hnone : handles[i]? = none → s.Lacks c)
    (hsome : ∀ id, handles[i]? = some id → s.Performs c (e id)) :
    (∃ a, s.Looks c a) ∨ ∃ (α : Type) (e : Errand α), s.Performs c e := by
  cases hi : handles[i]? with
  | none => exact .inl ⟨_, .misused (hnone hi)⟩
  | some id => exact .inr ⟨_, _, hsome id hi⟩

/-- **Every call** looks or performs an errand. -/
theorem looks_or_performs (s : Session) (c : Call) :
    (∃ a, s.Looks c a) ∨ ∃ (α : Type) (e : Errand α), s.Performs c e := by
  cases c with
  | idle => exact .inl ⟨_, .idle⟩
  | config => exact .inl ⟨_, .config⟩
  | usage => exact .inl ⟨_, .usage⟩
  | thread t =>
    cases ht : s.core.threads[t]? with
    | none => exact .inl ⟨_, .absent ht⟩
    | some th => exact .inl ⟨_, .thread ht⟩
  | overwrite t offset byte =>
    cases ht : s.core.threads[t]? with
    | none => exact .inl ⟨_, .misused ht⟩
    | some th => exact .inr ⟨_, _, .overwrite offset byte ht⟩
  | closeGuard =>
    cases hg : s.guards with
    | nil => exact .inl ⟨_, .misused hg⟩
    | cons was guards => exact .inr ⟨_, _, .closeGuard hg⟩
  | down i => exact performs_of_handle id fun _ => .down
  | tryDown i => exact performs_of_handle id fun _ => .tryDown
  | up i => exact performs_of_handle id fun _ => .up
  | semaphoreValue i => exact performs_of_handle id fun _ hi => .ask (.semaphoreValue hi)
  | semaphoreWaiters i => exact performs_of_handle id fun _ hi => .ask (.semaphoreWaiters hi)
  | destroySemaphore i => exact performs_of_handle id fun _ => .destroySemaphore
  | acquire i => exact performs_of_handle id fun _ => .acquire
  | tryAcquire i => exact performs_of_handle id fun _ => .tryAcquire
  | release i => exact performs_of_handle id fun _ => .release
  | heldByCurrent i => exact performs_of_handle id fun _ hi => .ask (.heldByCurrent hi)
  | holder i => exact performs_of_handle id fun _ hi => .ask (.holder hi)
  | lockWaiters i => exact performs_of_handle id fun _ hi => .ask (.lockWaiters hi)
  | destroyLock i => exact performs_of_handle id fun _ => .destroyLock
  | conditionWaiters i => exact performs_of_handle id fun _ hi => .ask (.conditionWaiters hi)
  | destroyCondition i => exact performs_of_handle id fun _ => .destroyCondition
  | await i j | signal i j | broadcast i j =>
    cases hi : s.conditions[i]? with
    | none => exact .inl ⟨_, .misused (.inl hi)⟩
    | some v =>
      cases hj : s.locks[j]? with
      | none => exact .inl ⟨_, .misused (.inr hj)⟩
      | some l => exact .inr ⟨_, _, by constructor <;> assumption⟩
  | getPriority | self | name | current | validate | parent | children | exitStatus =>
    exact .inr ⟨_, _, .ask (by constructor)⟩
  | _ => exact .inr ⟨_, _, by constructor⟩

/-- **Calls that succeed** have looked, or have performed a step that succeeds. -/
theorem execute_ok (h : execute c s = .ok a s') : s.Looks c a ∧ s' = s ∨
    ∃ (α : Type) (e : Errand α) (r : α) (k : Core), s.Performs c e ∧ e.step s.core = .ok r k ∧
      a = e.answer r ∧ s' = e.keep r { s with core := k } := by
  obtain ⟨b, hl⟩ | ⟨α, e, hp⟩ := s.looks_or_performs c
  · obtain ⟨rfl, rfl⟩ := EStateM.Result.ok.inj (hl.execute.symm.trans h)
    exact .inl ⟨hl, rfl⟩
  · obtain ⟨r, k, hx, rfl, rfl⟩ := Errand.run_eq_ok (hp.execute.symm.trans h)
    exact .inr ⟨α, e, r, k, hp, hx, rfl, rfl⟩

/-- Calls that halt perform a step that halts. -/
theorem execute_error {halt : Halt} (h : execute c s = .error halt s') :
    ∃ (α : Type) (e : Errand α) (k : Core), s.Performs c e ∧ e.step s.core = .error halt k ∧
      s' = { s with core := k } := by
  obtain ⟨b, hl⟩ | ⟨α, e, hp⟩ := s.looks_or_performs c
  · cases hl.execute.symm.trans h
  · obtain ⟨k, hx, rfl⟩ := Errand.run_eq_error (hp.execute.symm.trans h)
    exact ⟨α, e, k, hp, hx, rfl⟩

/-- What a call does to the core is what its step does. -/
theorem execute_core (h : execute c s = .ok a s') : s'.core = s.core ∨
    ∃ (α : Type) (e : Errand α) (r : α), s.Performs c e ∧ e.step s.core = .ok r s'.core := by
  obtain ⟨-, rfl⟩ | ⟨α, e, r, k, hp, hx, -, rfl⟩ := execute_ok h
  · exact .inl rfl
  · refine .inr ⟨α, e, r, hp, ?_⟩
    rw [e.core_keep]
    exact hx

end Session

end ThreadCore
