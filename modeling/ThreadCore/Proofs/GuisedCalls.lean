import ThreadCore.Proofs.Guises
import ThreadCore.Proofs.Runs

/-!
# Calls in a guise

A session whose core is shown in a guise makes the same calls with the same answers
(`Session.execute_mimics`), except that a thread is created with the task that the guise shows
(`Guise.call`). Calls that may ask for a yield need a guise that shows requests, and calls that read
or count the usage need one that leaves tasks and usage.
-/

namespace ThreadCore

/-- Whether the call may ask for a yield. -/
def Call.requests : Call → Bool
  | .create .. | .spawn .. | .setPriority _ | .wakeSleepers _ | .timer | .tick _ | .yieldOnReturn
  | .up _
  | .release _ | .reportFork => true
  | _ => false

/-- Whether the call reads the usage or counts a tick. -/
def Call.counts : Call → Bool
  | .usage | .printUsage | .timer | .tick _ => true
  | _ => false

namespace Guise

/-- The call of a thread that is created with the task that the guise shows. -/
def call (φ : Guise) : Call → Call
  | .spawn name priority task => .spawn name priority (φ.task task)
  | c => c

/-- What the guise shows of a session. -/
def session (φ : Guise) (s : Session) : Session := { s with core := φ.core s.core }

/-- The guise shows tasks and usage as they are. -/
structure Plain (φ : Guise) : Prop where
  task : ∀ o, φ.task o = o
  usage : ∀ u, φ.usage u = u

theorem Plain.call {φ : Guise} (h : φ.Plain) (c : Call) : φ.call c = c := by
  cases c with
  | spawn name priority task => rw [Guise.call, h.task]
  | _ => rfl

end Guise

/-! ## A journal that goes on -/

theorem append_noted (event : String → Event) (o : Option Task) (es es' : Array Event) :
    es ++ noted event o es' = noted event o (es ++ es') := by
  unfold noted
  cases o.bind Task.label? with
  | none => rfl
  | some label => exact Array.append_push

/-- The look of a core whose journal began with another one. -/
def Guise.prefixed (j : Journal) : Guise :=
  { Guise.plain with
    events := fun es => j.events ++ es
    output := fun ts => j.output ++ ts
    events_push := fun es e _ => by simp
    events_activated := fun o es => append_noted _ o _ es
    output_push := fun ts t => by simp }

theorem prefixed_parting (j : Journal) : (Guise.prefixed j).Parting :=
  fun _ o es => append_noted _ o _ es

theorem prefixed_prompt (j : Journal) : (Guise.prefixed j).Prompt :=
  ⟨⟨fun _ => rfl, fun _ => rfl⟩, fun _ => rfl⟩

theorem prefixed_plain (j : Journal) : (Guise.prefixed j).Plain := ⟨fun _ => rfl, fun _ => rfl⟩

namespace Session

variable {α β : Type} {φ : Guise} {s : Session}

theorem mimics_onCore {x y : CoreM α} (hx : Mimics φ.core x y) :
    Mimics φ.session (onCore x) (onCore y) := by
  intro s
  unfold onCore
  rw [show (φ.session s).core = φ.core s.core from rfl, hx s.core]
  cases x s.core <;> rfl

theorem mimics_run {e e' : Errand α} (hstep : Mimics φ.core e.step e'.step)
    (hanswer : ∀ r, e'.answer r = e.answer r)
    (hkeep : ∀ r s, e'.keep r (φ.session s) = φ.session (e.keep r s)) :
    Mimics φ.session e.run e'.run := by
  intro s
  have hs : e'.step (φ.session s).core = shown φ.core (e.step s.core) := hstep s.core
  cases hx : e.step s.core with
  | ok r k =>
    rw [hx] at hs
    rw [Errand.run_of_ok hx, Errand.run_of_ok hs, hanswer]
    exact congrArg (EStateM.Result.ok _) (hkeep r { s with core := k })
  | error halt k =>
    rw [hx] at hs
    rw [Errand.run_of_error hx, Errand.run_of_error hs]
    rfl

theorem mimics_report {x y : CoreM α} {answer : α → Answer} (hx : Mimics φ.core x y) :
    Mimics φ.session (Errand.report x answer).run (Errand.report y answer).run :=
  mimics_run hx (fun _ => rfl) fun _ _ => rfl

theorem blind_report {step : CoreM α} {answer : α → Answer} (hx : Blind φ.core step) :
    Blind φ.session (Errand.report step answer).run :=
  mimics_report hx

theorem blind_inquire {question : Core → Except Halt α} {reply : α → Reply}
    (hq : ∀ k, question (φ.core k) = question k) :
    Blind φ.session (Errand.ask reply question).run :=
  blind_report (Core.blind_ask hq)

/-- A question about the running thread that does not look at its task. -/
theorem blind_inquireRunning {reply : Thread → Reply} (hr : ∀ th, reply (φ.thread th) = reply th) :
    Blind φ.session (Errand.ask reply Core.running).run := by
  have hrun : Blind φ.core (Core.ask Core.running >>= fun th => pure (reply th)) :=
    Core.blind_running_bind (fun th => congrArg pure (hr th)) fun _ => blind_pure _
  have hask : (Errand.ask reply Core.running).run =
      (Errand.report (Core.ask Core.running >>= fun th => pure (reply th)) .done).run := by
    funext s
    simp only [Errand.run, Errand.ask, Errand.report, Core.ask, bind, EStateM.bind, pure,
      EStateM.pure]
    cases s.core.running <;> rfl
  rw [hask]
  exact blind_report hrun

theorem mimics_asks {c : Call} {reply : α → Reply} {question : Core → Except Halt α}
    (h : s.Asks c reply question) :
    (φ.session s).Asks (φ.call c) reply question ∧
      Blind φ.session (Errand.ask reply question).run := by
  cases h with
  | self => exact ⟨.self, blind_inquireRunning fun _ => rfl⟩
  | name => exact ⟨.name, blind_inquireRunning fun _ => rfl⟩
  | current => exact ⟨.current, blind_inquireRunning fun _ => rfl⟩
  | getPriority => exact ⟨.getPriority, blind_inquire (Core.running_guise fun _ => rfl)⟩
  | parent => exact ⟨.parent, blind_inquire (Core.running_guise fun _ => rfl)⟩
  | children => exact ⟨.children, blind_inquire (Core.running_guise fun _ => rfl)⟩
  | exitStatus => exact ⟨.exitStatus, blind_inquire (Core.running_guise fun _ => rfl)⟩
  | validate => exact ⟨.validate, blind_inquire (Core.validate_guise φ)⟩
  | semaphoreValue hi => exact ⟨.semaphoreValue hi, blind_inquire fun _ => rfl⟩
  | semaphoreWaiters hi => exact ⟨.semaphoreWaiters hi, blind_inquire fun _ => rfl⟩
  | heldByCurrent hi => exact ⟨.heldByCurrent hi, blind_inquire (Core.heldByCurrent_guise φ _)⟩
  | holder hi => exact ⟨.holder hi, blind_inquire fun _ => rfl⟩
  | lockWaiters hi => exact ⟨.lockWaiters hi, blind_inquire fun _ => rfl⟩
  | conditionWaiters hi => exact ⟨.conditionWaiters hi, blind_inquire fun _ => rfl⟩

/-- A look shows what it shows in a guise. -/
theorem looks_guise {c : Call} {a : Answer} (hc : c.counts = true → φ.Plain) (h : s.Looks c a) :
    (φ.session s).Looks (φ.call c) a := by
  have hget : ∀ t : ThreadId, (φ.session s).core.threads[t]? = (s.core.threads[t]?).map φ.thread :=
    Core.getElem?_guise φ s.core
  cases h with
  | idle => exact .idle
  | config => exact .config
  | usage =>
    have husage : (φ.session s).core.usage = s.core.usage := (hc rfl).usage s.core.usage
    exact husage ▸ .usage
  | @thread t th ht =>
    have hlive : (φ.session s).core.threads[t]? = some (φ.thread th) := by
      rw [hget, ht]
      rfl
    exact @Looks.thread _ t (φ.thread th) hlive
  | absent ht => exact .absent (by rw [hget, ht]; rfl)
  | misused hl =>
    refine .misused ?_
    cases c with
    | overwrite t offset byte => exact (hget t).trans (congrArg _ hl)
    | _ => exact hl

/-- Shown in a guise, the session performs what it performs itself. -/
theorem performs_mimics {c : Call} {e : Errand α} (h : φ.Honest) (hp : c.requests = true → φ.Prompt)
    (hc : c.counts = true → φ.Plain) (he : c = .exit → φ.Parting) (hx : s.Performs c e) :
    ∃ e' : Errand α, (φ.session s).Performs (φ.call c) e' ∧ Mimics φ.session e.run e'.run := by
  have htick : ∀ hc : φ.Plain, Blind φ.core Core.countTick := fun hc =>
    Core.blind_countTick hc.task hc.usage
  cases hx with
  | create name priority =>
    have hspawn := Core.mimics_spawn (hp rfl) name priority none
    rw [φ.task_none] at hspawn
    exact ⟨_, .create _ _, mimics_report hspawn⟩
  | spawn name priority task =>
    exact ⟨_, .spawn _ _ _, mimics_report (Core.mimics_spawn (hp rfl) _ _ _)⟩
  | exit => exact ⟨_, .exit, blind_report (Core.blind_exit h (he rfl))⟩
  | yield => exact ⟨_, .yield, blind_report (Core.blind_yieldNow h)⟩
  | block => exact ⟨_, .block, blind_report (Core.blind_block h)⟩
  | unblock t => exact ⟨_, .unblock t, blind_report (Core.blind_unblock t)⟩
  | setPriority p => exact ⟨_, .setPriority p, blind_report (Core.blind_setPriority (hp rfl) p)⟩
  | @overwrite t th offset byte ht =>
    have hlive : (φ.session s).core.threads[t]? = some (φ.thread th) :=
      (Core.getElem?_guise φ s.core t).trans (congrArg _ ht)
    exact ⟨_, .overwrite offset byte hlive, blind_report <|
      (Core.blind_ask fun _ => rfl).bind fun _ => Core.blind_changeThread _ fun _ => rfl⟩
  | printUsage =>
    refine ⟨_, .printUsage, mimics_report ?_⟩
    rw [show (φ.session s).core.usage = s.core.usage from (hc rfl).usage s.core.usage]
    exact Core.blind_write _
  | sleepUntil tick => exact ⟨_, .sleepUntil tick, blind_report (Core.blind_sleepUntil h tick)⟩
  | sleepFor ticks => exact ⟨_, .sleepFor ticks, blind_report (Core.blind_sleepFor h ticks)⟩
  | wakeSleepers now =>
    exact ⟨_, .wakeSleepers now, blind_report (Core.blind_wakeSleepers (hp rfl) now)⟩
  | advance ticks => exact ⟨_, .advance ticks, blind_report (Core.blind_advances ticks)⟩
  | timer => exact ⟨_, .timer, blind_report (Core.blind_timerInterrupt (hp rfl) (htick (hc rfl)))⟩
  | tick n => exact ⟨_, .tick n, blind_report (Core.blind_ticks (hp rfl) (htick (hc rfl)) n)⟩
  | yieldOnReturn => exact ⟨_, .yieldOnReturn, blind_report (Core.blind_yieldOnReturn (hp rfl))⟩
  | openGuard =>
    exact ⟨_, .openGuard,
      mimics_run (Core.blind_of_honest h Machine.mask) (fun _ => rfl) fun _ _ => rfl⟩
  | closeGuard hg =>
    exact ⟨_, .closeGuard hg, mimics_run (Core.blind_of_honest h _) (fun _ => rfl) fun _ _ => rfl⟩
  | enableInterrupts => exact ⟨_, .enableInterrupts, blind_report (Core.blind_of_honest h _)⟩
  | disableInterrupts => exact ⟨_, .disableInterrupts, blind_report (Core.blind_of_honest h _)⟩
  | setHandler on => exact ⟨_, .setHandler on, blind_report (Core.blind_of_honest h _)⟩
  | newSemaphore value =>
    exact ⟨_, .newSemaphore value,
      mimics_run (Core.blind_newSemaphore value) (fun _ => rfl) fun _ _ => rfl⟩
  | newLock => exact ⟨_, .newLock, mimics_run Core.blind_newLock (fun _ => rfl) fun _ _ => rfl⟩
  | newCondition =>
    exact ⟨_, .newCondition, mimics_run Core.blind_newCondition (fun _ => rfl) fun _ _ => rfl⟩
  | down hi => exact ⟨_, .down hi, blind_report (Core.blind_down h _)⟩
  | tryDown hi => exact ⟨_, .tryDown hi, blind_report (Core.blind_tryDown _)⟩
  | up hi => exact ⟨_, .up hi, blind_report (Core.blind_up (hp rfl) _)⟩
  | destroySemaphore hi =>
    exact ⟨_, .destroySemaphore hi, blind_report (Core.blind_destroySemaphore _)⟩
  | acquire hi => exact ⟨_, .acquire hi, blind_report (Core.blind_acquire h _)⟩
  | tryAcquire hi => exact ⟨_, .tryAcquire hi, blind_report (Core.blind_tryAcquire _)⟩
  | release hi => exact ⟨_, .release hi, blind_report (Core.blind_release (hp rfl) _)⟩
  | destroyLock hi => exact ⟨_, .destroyLock hi, blind_report (Core.blind_destroyLock _)⟩
  | await hi hj => exact ⟨_, .await hi hj, blind_report (Core.blind_await h _ _)⟩
  | signal hi hj => exact ⟨_, .signal hi hj, blind_report (Core.blind_signal _ _)⟩
  | broadcast hi hj => exact ⟨_, .broadcast hi hj, blind_report (Core.blind_broadcast _ _)⟩
  | destroyCondition hi =>
    exact ⟨_, .destroyCondition hi, blind_report (Core.blind_destroyCondition _)⟩
  | setExitStatus status =>
    exact ⟨_, .setExitStatus status, blind_report (Core.blind_setExitStatus status)⟩
  | reportFork => exact ⟨_, .reportFork, blind_report (Core.blind_reportFork (hp rfl))⟩
  | awaitFork child => exact ⟨_, .awaitFork child, blind_report (Core.blind_awaitFork h child)⟩
  | awaitExit child => exact ⟨_, .awaitExit child, blind_report (Core.blind_awaitExit h child)⟩
  | tryCollect child => exact ⟨_, .tryCollect child, blind_report (Core.blind_tryCollect child)⟩
  | print text => exact ⟨_, .print text, blind_report (Core.blind_write text)⟩
  | announce severity text =>
    refine ⟨_, .announce severity text, blind_report (.get_bind (fun _ => rfl) fun k => ?_)⟩
    split
    · exact Core.blind_write _
    · exact blind_pure _
  | log severity text =>
    exact ⟨_, .log severity text, blind_report (Core.blind_writeLine severity text)⟩
  | setThreshold threshold =>
    exact ⟨_, .setThreshold threshold, blind_report (blind_modify fun _ => rfl)⟩
  | setQuiet on => exact ⟨_, .setQuiet on, blind_report (blind_modify fun _ => rfl)⟩
  | ask ha => exact ⟨_, .ask (mimics_asks ha).1, (mimics_asks ha).2⟩

/-- **Calls.** Shown in a guise, a session makes the call as it makes it itself. -/
theorem execute_mimics {c : Call} (h : φ.Honest) (hp : c.requests = true → φ.Prompt)
    (hc : c.counts = true → φ.Plain) (he : c = .exit → φ.Parting) :
    Mimics φ.session (execute c) (execute (φ.call c)) := by
  intro s
  obtain ⟨a, hl⟩ | ⟨α, e, hx⟩ := s.looks_or_performs c
  · rw [hl.execute, (looks_guise hc hl).execute]
    rfl
  · obtain ⟨e', hx', hm⟩ := performs_mimics h hp hc he hx
    rw [hx.execute, hx'.execute, hm]

theorem blind_enter (φ : Guise) (h : φ.Prompt) : Blind φ.session (onCore Core.enterHandler) :=
  mimics_onCore (Core.blind_enterHandler h)

theorem blind_leave (φ : Guise) (h : φ.Prompt) (was : Bool) :
    Blind φ.session (act (Core.leaveHandler was)) :=
  (mimics_onCore (Core.blind_leaveHandler h was)).bind fun _ => blind_pure _

/-! ## A session whose journal goes on -/

/-- The session with nothing in its journal. -/
def unwritten (s : Session) : Session := { s with core := { s.core with journal := .empty } }

theorem prefixed_session (j : Journal) (s : Session) : (Guise.prefixed j).session s =
    { s with core := { s.core with
      journal := ⟨j.events ++ s.core.journal.events, j.output ++ s.core.journal.output⟩ } } := by
  rw [Guise.session, Guise.core_of_task fun _ => rfl]
  rfl

/-- What is in the journal comes before what will be. -/
theorem prefixed_unwritten (s : Session) :
    (Guise.prefixed s.core.journal).session s.unwritten = s := by
  rw [prefixed_session]
  simp [unwritten, Journal.empty]

theorem prefixed_blind (c : Call) (j : Journal) : Blind (Guise.prefixed j).session (execute c) := by
  have hmimics := execute_mimics (c := c) (prefixed_prompt j).toHonest (fun _ => prefixed_prompt j)
    (fun _ => prefixed_plain j) fun _ => prefixed_parting j
  rwa [(prefixed_plain j).call] at hmimics

end Session

end ThreadCore
