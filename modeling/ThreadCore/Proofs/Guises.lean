import ThreadCore.Proofs.Books
import ThreadCore.Proofs.Masking

/-!
# Guises

A guise shows a core with other flags, other tasks, other counts or another journal (`Guise.core`).
A step is blind to it if it does the same to what the guise shows as to the core itself: it ends
with the same answer or the same halt, and the guise of the state after it is the state after it in
the guise (`Blind`). Two cores that look alike in a guise thus go on alike.

Steps that end no turn are blind to every guise. The others look at the flags of the machine, and
are blind to those guises that leave them (`Guise.Honest`).
-/

namespace ThreadCore

section

variable {σ α β : Type} {f : σ → σ} {s : σ}

/-- The result, with its state as `f` shows it. -/
def shown (f : σ → σ) : EStateM.Result Halt σ α → EStateM.Result Halt σ α
  | .ok a s => .ok a (f s)
  | .error e s => .error e (f s)

/-- What `x` does to a state, `y` does to what `f` shows of it. -/
def Mimics (f : σ → σ) (x y : EStateM Halt σ α) : Prop := ∀ s, y (f s) = shown f (x s)

/-- What the step does to a state, it does to what `f` shows of it. -/
def Blind (f : σ → σ) (x : EStateM Halt σ α) : Prop := Mimics f x x

theorem shown_eq_ok {r : EStateM.Result Halt σ α} {a : α} {s' : σ} :
    shown f r = .ok a s' ↔ ∃ m, r = .ok a m ∧ f m = s' := by
  cases r <;> simp [shown]

theorem shown_eq_error {r : EStateM.Result Halt σ α} {e : Halt} {s' : σ} :
    shown f r = .error e s' ↔ ∃ m, r = .error e m ∧ f m = s' := by
  cases r <;> simp [shown]

theorem Mimics.bind {x y : EStateM Halt σ α} {g h : α → EStateM Halt σ β} (hx : Mimics f x y)
    (hg : ∀ a, Mimics f (g a) (h a)) : Mimics f (x >>= g) (y >>= h) := by
  intro s
  cases hs : x s with
  | ok a m =>
    have hy : y (f s) = .ok a (f m) := by rw [hx s, hs, shown]
    rw [bind_of_ok hs, bind_of_ok hy]
    exact hg a m
  | error e m =>
    have hy : y (f s) = .error e (f m) := by rw [hx s, hs, shown]
    rw [bind_of_error hs, bind_of_error hy, shown]

theorem Blind.bind {x : EStateM Halt σ α} {g : α → EStateM Halt σ β} (hx : Blind f x)
    (hg : ∀ a, Blind f (g a)) : Blind f (x >>= g) :=
  Mimics.bind hx hg

theorem blind_pure (a : α) : Blind f (pure a) := fun _ => rfl

theorem blind_throw (e : Halt) : Blind f (throw e : EStateM Halt σ α) := fun _ => rfl

theorem blind_demand (p : Prop) [Decidable p] (e : Halt) :
    Blind f (demand p e : EStateM Halt σ Unit) := by
  unfold demand
  split
  · exact blind_pure ()
  · exact blind_throw e

theorem mimics_modify {g h : σ → σ} (hgh : ∀ s, h (f s) = f (g s)) :
    Mimics f (modify g) (modify h) := by
  intro s
  show EStateM.Result.ok _ (h (f s)) = EStateM.Result.ok _ (f (g s))
  rw [hgh]

theorem blind_modify {g : σ → σ} (hg : ∀ s, g (f s) = f (g s)) : Blind f (modify g) :=
  mimics_modify hg

theorem Mimics.get_bind {g h : σ → EStateM Halt σ β} (hg : ∀ s, Mimics f (g s) (h (f s))) :
    Mimics f (get >>= g) (get >>= h) :=
  fun s => hg s s

/-- The step goes on in the same way whichever of the two states it sees. -/
theorem Blind.get_bind {g : σ → EStateM Halt σ β} (hsame : ∀ s, g (f s) = g s)
    (hg : ∀ s, Blind f (g s)) : Blind f (get >>= g) := by
  refine Mimics.get_bind fun s => ?_
  rw [hsame]
  exact hg s

theorem blind_forM {g : β → EStateM Halt σ Unit} (hg : ∀ b, Blind f (g b)) (bs : List β) :
    Blind f (bs.forM g) := by
  induction bs with
  | nil => exact blind_pure ()
  | cons b bs ih => exact (hg b).bind fun _ => ih

end

/-- Whether the event is a note about a task. -/
def Event.ofTask : Event → Bool
  | .activated _ | .taskExited _ _ => true
  | _ => false

/-- The events with that about a task, if it has a name. -/
def noted (event : String → Event) (task : Option Task) (es : Array Event) : Array Event :=
  match task.bind Task.label? with
  | some label => es.push (event label)
  | none => es

/-- Another look for cores. -/
structure Guise where
  flags : Flags → Flags
  handler : Bool → Bool
  pending : Bool → Bool
  task : Option Task → Option Task
  usage : Usage → Usage
  events : Array Event → Array Event
  output : Array String → Array String
  flags_off : ∀ w, flags (w.set .interrupt false) = (flags w).set .interrupt false
  flags_unmasked : ∀ v w, flags (w.unmasked (v.isOn .interrupt)) =
    (flags w).unmasked ((flags v).isOn .interrupt)
  task_none : task none = none
  events_push : ∀ es e, e.ofTask = false → events (es.push e) = (events es).push e
  events_activated : ∀ o es, events (noted .activated o es) = noted .activated (task o) (events es)
  output_push : ∀ ts t, output (ts.push t) = (output ts).push t

namespace Guise

variable (φ : Guise)

def machine (w : Machine) : Machine :=
  { w with flags := φ.flags w.flags, inHandler := φ.handler w.inHandler }

def thread (th : Thread) : Thread := { th with task := φ.task th.task }

def journal (j : Journal) : Journal := ⟨φ.events j.events, φ.output j.output⟩

/-- What the guise shows of the core. -/
def core (k : Core) : Core :=
  { k with
    machine := φ.machine k.machine
    threads := k.threads.map fun _ => φ.thread
    dead := k.dead.map φ.thread
    yieldPending := φ.pending k.yieldPending
    usage := φ.usage k.usage
    journal := φ.journal k.journal }

/-- The guise shows the flags of the machine as they are. -/
structure Honest : Prop where
  flags : ∀ w, φ.flags w = w
  handler : ∀ on, φ.handler on = on

/-- The guise shows notes about tasks that end. -/
def Parting : Prop := ∀ status o es, φ.events (noted (.taskExited · status) o es) =
  noted (.taskExited · status) (φ.task o) (φ.events es)

variable {φ}

theorem Honest.machine (h : φ.Honest) (w : Machine) : φ.machine w = w := by
  rw [Guise.machine, h.flags, h.handler]

theorem Honest.core_machine (h : φ.Honest) (k : Core) : (φ.core k).machine = k.machine :=
  h.machine k.machine

end Guise

/-- The look of a core as it is. -/
def Guise.plain : Guise where
  flags w := w
  handler on := on
  pending b := b
  task o := o
  usage u := u
  events es := es
  output ts := ts
  flags_off _ := rfl
  flags_unmasked _ _ := rfl
  task_none := rfl
  events_push _ _ _ := rfl
  events_activated _ _ := rfl
  output_push _ _ := rfl

/-- A guise that shows tasks as they are leaves the threads alone. -/
theorem Guise.core_of_task {φ : Guise} (h : ∀ o, φ.task o = o) (k : Core) : φ.core k =
    { k with
      machine := φ.machine k.machine, yieldPending := φ.pending k.yieldPending
      usage := φ.usage k.usage, journal := φ.journal k.journal } := by
  have hthread : φ.thread = id := by
    funext th
    simp only [Guise.thread, h, id]
  have hthreads : (k.threads.map fun _ => id) = k.threads := Std.ExtTreeMap.map_id
  simp only [Guise.core, hthread, hthreads, List.map_id]

/-- It shows requests to yield, too. -/
structure Guise.Prompt (φ : Guise) : Prop extends φ.Honest where
  pending : ∀ b, φ.pending b = b

namespace Core

variable {α β : Type} {φ : Guise} {k : Core} {t : ThreadId}

/-! ## Questions -/

theorem getElem?_guise (φ : Guise) (k : Core) (t : ThreadId) :
    (φ.core k).threads[t]? = (k.threads[t]?).map φ.thread :=
  Std.ExtTreeMap.getElem?_map

theorem mem_guise (φ : Guise) (k : Core) (t : ThreadId) : t ∈ (φ.core k).threads ↔ t ∈ k.threads :=
  Std.ExtTreeMap.mem_map

theorem size_guise (φ : Guise) (k : Core) : (φ.core k).threads.size = k.threads.size :=
  Std.ExtTreeMap.size_map

theorem values_guise (φ : Guise) (k : Core) :
    (φ.core k).threads.values = k.threads.values.map φ.thread := by
  simp only [values_eq, Guise.core, Std.ExtTreeMap.toList_map, List.map_map]
  rfl

/-- A question about a thread that does not look at its task. -/
theorem thread_guise {h : Thread → Except Halt β} (hh : ∀ th, h (φ.thread th) = h th) (t : ThreadId)
    (k : Core) : ((φ.core k).thread t >>= h) = (k.thread t >>= h) := by
  simp only [thread, getElem?_guise]
  cases k.threads[t]? with
  | none => rfl
  | some th => exact hh th

theorem running_guise {h : Thread → Except Halt β} (hh : ∀ th, h (φ.thread th) = h th) (k : Core) :
    ((φ.core k).running >>= h) = (k.running >>= h) := by
  have hrun : ∀ k : Core, (k.running >>= h) = (k.thread k.current >>= fun th => do
      demand th.intact (.canaryLost th.id th.name)
      demand (th.state = .running) (.currentNotRunning th.id th.state)
      h th) := by
    intro k
    simp only [running, bind_assoc, pure_bind]
  rw [hrun, hrun]
  exact thread_guise (fun th => congrArg (fun r => demand th.intact _ >>= fun _ =>
    demand (th.state = .running) _ >>= fun _ => r) (hh th)) k.current k

theorem priorityOf_guise (φ : Guise) (k : Core) : (φ.core k).priorityOf = k.priorityOf := by
  funext t
  simp only [priorityOf, getElem?_guise]
  cases k.threads[t]? <;> rfl

theorem outranks_guise (φ : Guise) (k : Core) : (φ.core k).outranks = k.outranks := by
  funext t u
  simp only [outranks, priorityOf_guise]

theorem checkLive_guise (φ : Guise) (q : Queue) (k : Core) :
    (φ.core k).checkLive q = k.checkLive q := by
  simp only [checkLive, mem_guise]

theorem mostUrgent_guise (φ : Guise) (q : Queue) (k : Core) :
    (φ.core k).mostUrgent q = k.mostUrgent q := by
  simp only [mostUrgent, checkLive_guise, outranks_guise]

theorem earliestSleeper_guise (φ : Guise) (k : Core) :
    (φ.core k).earliestSleeper = k.earliestSleeper := by
  have hearlier : (φ.core k).earlier = k.earlier := by
    funext t u
    simp only [earlier, getElem?_guise]
    cases k.threads[t]? <;> cases k.threads[u]? <;> rfl
  simp only [earliestSleeper, hearlier]
  exact congrArg (· >>= _) (checkLive_guise φ k.sleepers k)

theorem outranked_guise (φ : Guise) (k : Core) : (φ.core k).outranked = k.outranked := by
  unfold outranked
  rw [mostUrgent_guise, outranks_guise, getElem?_guise,
    show (φ.core k).current = k.current from rfl]
  cases k.threads[k.current]? <;> rfl

theorem greatestPriority_guise (φ : Guise) (k : Core) (least : Priority) (ts : List ThreadId) :
    (φ.core k).greatestPriority least ts = k.greatestPriority least ts := by
  induction ts generalizing least with
  | nil => rfl
  | cons t ts ih =>
    simp only [greatestPriority, ih]
    exact thread_guise (fun _ => rfl) t k

theorem effectivePriority_guise (φ : Guise) (t : ThreadId) (k : Core) :
    (φ.core k).effectivePriority t = k.effectivePriority t := by
  simp only [effectivePriority, greatestPriority_guise]
  exact thread_guise (fun _ => rfl) t k

theorem childRecord_guise (φ : Guise) (parent child : ThreadId) (k : Core) :
    (φ.core k).childRecord parent child = k.childRecord parent child :=
  thread_guise (fun _ => rfl) parent k

theorem heldByCurrent_guise (φ : Guise) (l : ObjectId) (k : Core) :
    (φ.core k).heldByCurrent l = k.heldByCurrent l :=
  congrArg (k.lock l >>= ·) (funext fun _ => running_guise (fun _ => rfl) k)

/-! ## Closure -/

theorem blind_ask {question : Core → Except Halt α} (hq : ∀ k, question (φ.core k) = question k) :
    Blind φ.core (ask question) := by
  intro k
  unfold ask
  rw [hq]
  cases question k <;> rfl

theorem mimics_thread_bind {g h : Thread → CoreM β}
    (hg : ∀ th, Mimics φ.core (g th) (h (φ.thread th))) :
    Mimics φ.core (ask (thread t) >>= g) (ask (thread t) >>= h) := by
  intro k
  cases hth : k.threads[t]? with
  | none =>
    have hask : ask (thread t) k = .error (.notRegistered t) k := by
      simp only [ask, thread, hth]
    have hask' : ask (thread t) (φ.core k) = .error (.notRegistered t) (φ.core k) := by
      simp only [ask, thread, getElem?_guise, hth, Option.map_none]
    rw [bind_of_error hask, bind_of_error hask', shown]
  | some th =>
    have hask : ask (thread t) k = .ok th k := ask_eq_ok_iff.mpr ⟨thread_eq_ok_iff.mpr hth, rfl⟩
    have hask' : ask (thread t) (φ.core k) = .ok (φ.thread th) (φ.core k) := by
      refine ask_eq_ok_iff.mpr ⟨thread_eq_ok_iff.mpr ?_, rfl⟩
      rw [getElem?_guise, hth, Option.map_some]
    rw [bind_of_ok hask, bind_of_ok hask']
    exact hg th k

/-- A thread is looked up, but its task not looked at. -/
theorem blind_thread_bind {g : Thread → CoreM β} (hsame : ∀ th, g (φ.thread th) = g th)
    (hg : ∀ th, Blind φ.core (g th)) : Blind φ.core (ask (thread t) >>= g) := by
  refine mimics_thread_bind fun th => ?_
  rw [hsame]
  exact hg th

theorem mimics_running_bind {g h : Thread → CoreM β}
    (hg : ∀ th, Mimics φ.core (g th) (h (φ.thread th))) :
    Mimics φ.core (ask running >>= g) (ask running >>= h) := by
  have hrun : ∀ (g : Thread → CoreM β) (k : Core), (ask running >>= g) k =
      (ask (thread k.current) >>= fun th => do
        demand th.intact (.canaryLost th.id th.name)
        demand (th.state = .running) (.currentNotRunning th.id th.state)
        g th) k := by
    intro g k
    simp only [ask, running, bind, EStateM.bind, Except.bind, demand]
    cases k.thread k.current with
    | error e => rfl
    | ok th =>
      by_cases hi : th.intact <;> by_cases hs : th.state = .running <;>
        simp [hi, hs, pure, EStateM.pure, Except.pure, throw, throwThe, MonadExceptOf.throw,
          EStateM.throw]
  intro k
  rw [hrun, hrun]
  refine mimics_thread_bind (fun th => ?_) k
  exact .bind (blind_demand _ _) fun _ => .bind (blind_demand _ _) fun _ => hg th

/-- The running thread is looked up, but its task not looked at. -/
theorem blind_running_bind {g : Thread → CoreM β} (hsame : ∀ th, g (φ.thread th) = g th)
    (hg : ∀ th, Blind φ.core (g th)) : Blind φ.core (ask running >>= g) := by
  refine mimics_running_bind fun th => ?_
  rw [hsame]
  exact hg th

theorem blind_onMachine {step : MachineM α} (hs : Blind φ.machine step) :
    Blind φ.core (onMachine step) := by
  intro k
  show onMachine step (φ.core k) = _
  have hw : step (φ.core k).machine = shown φ.machine (step k.machine) := hs k.machine
  unfold onMachine
  rw [hw]
  cases step k.machine <;> rfl

/-- A step of the machine is blind to a guise that shows the machine as it is. -/
theorem blind_of_honest (h : φ.Honest) (step : MachineM α) : Blind φ.core (onMachine step) := by
  refine blind_onMachine fun w => ?_
  rw [h.machine]
  cases step w with
  | ok a w' => rw [shown, h.machine]
  | error e w' => rw [shown, h.machine]

/-- **Masked sections.** -/
theorem blind_masked {body : CoreM α} (hb : Blind φ.core body) : Blind φ.core (masked body) := by
  intro k
  have hoff : ({ φ.core k with machine := (φ.core k).machine.withInterrupts false } : Core) =
      φ.core { k with machine := k.machine.withInterrupts false } := by
    have hflags := φ.flags_off k.machine.flags
    simp only [Guise.core, Guise.machine, Machine.withInterrupts, hflags]
  unfold masked
  rw [bind_of_ok (mask_eq k), bind_of_ok (mask_eq (φ.core k)), hoff]
  refine Mimics.bind hb (fun a m => ?_) _
  have hunmask : ({ φ.core m with machine := { (φ.core m).machine with
      flags := (φ.core m).machine.flags.unmasked (φ.core k).machine.interruptsOn } } : Core) =
      φ.core { m with machine := { m.machine with
        flags := m.machine.flags.unmasked k.machine.interruptsOn } } := by
    have hflags := φ.flags_unmasked k.machine.flags m.machine.flags
    simp only [Guise.core, Guise.machine, Machine.interruptsOn, hflags]
  rw [bind_of_ok (unmask_eq _ m), bind_of_ok (unmask_eq _ (φ.core m)), hunmask]
  rfl

/-! ## Changes -/

theorem blind_record {e : Event} (he : e.ofTask = false) : Blind φ.core (record e) := by
  refine blind_modify fun k => ?_
  have hpush := φ.events_push k.journal.events e he
  simp only [Guise.core, Guise.journal, Journal.addEvent, hpush]

theorem blind_write (text : String) : Blind φ.core (write text) := by
  refine blind_modify fun k => ?_
  have hpush := φ.output_push k.journal.output text
  simp only [Guise.core, Guise.journal, Journal.addText, hpush]

theorem blind_writeLine (x : Severity) (text : String) : Blind φ.core (writeLine x text) := by
  refine .get_bind (fun _ => rfl) fun k => ?_
  split
  · exact blind_write _
  · exact blind_pure _

theorem blind_say (n : Notice) : Blind φ.core (say n) := blind_writeLine _ _

/-- What is noted of a task that the guise shows, is noted in the guise. -/
theorem mimics_note {event : String → Event} {o : Option Task}
    (he : ∀ es, φ.events (noted event o es) = noted event (φ.task o) (φ.events es))
    {rest : CoreM α} (hrest : Blind φ.core rest) :
    Mimics φ.core (match o.bind Task.label? with
      | some label => record (event label) >>= fun _ => rest
      | none => rest) (match (φ.task o).bind Task.label? with
      | some label => record (event label) >>= fun _ => rest
      | none => rest) := by
  have hnoted : ∀ (o : Option Task) (k : Core), (match o.bind Task.label? with
      | some label => record (event label) >>= fun _ => rest
      | none => rest) k =
        rest { k with journal := { k.journal with events := noted event o k.journal.events } } := by
    intro o k
    unfold noted
    cases o.bind Task.label? <;> rfl
  intro k
  rw [hnoted, hnoted]
  have hjournal := he k.journal.events
  have hguise : ({ φ.core k with journal := { (φ.core k).journal with
      events := noted event (φ.task o) (φ.core k).journal.events } } : Core) =
      φ.core { k with journal := { k.journal with events := noted event o k.journal.events } } := by
    simp only [Guise.core, Guise.journal, hjournal]
  rw [hguise]
  exact hrest _

theorem blind_increment (n : Nat) : Blind φ.core (increment n) := by
  unfold increment
  split
  · exact blind_pure _
  · exact blind_throw _

theorem guise_mapThread {f : Thread → Thread} (hf : ∀ th, f (φ.thread th) = φ.thread (f th))
    (k : Core) : (φ.core k).mapThread t f = φ.core (k.mapThread t f) := by
  have hthreads : (k.threads.map fun _ => φ.thread).modify t f =
      (k.threads.modify t f).map fun _ => φ.thread := by
    apply Std.ExtTreeMap.ext_getElem?
    intro u
    simp only [Std.ExtTreeMap.getElem?_modify, Std.ExtTreeMap.getElem?_map]
    split
    · cases k.threads[t]? with
      | none => rfl
      | some th => exact congrArg some (hf th)
    · rfl
  simp only [mapThread, Guise.core, hthreads]

theorem blind_changeThread {f : Thread → Thread} (t : ThreadId)
    (hf : ∀ th, f (φ.thread th) = φ.thread (f th)) : Blind φ.core (changeThread t f) :=
  blind_thread_bind (fun _ => rfl) fun _ => blind_modify (guise_mapThread hf)

theorem blind_changeFamily (t : ThreadId) (f : Family → Family) : Blind φ.core (changeFamily t f) :=
  blind_changeThread t fun _ => rfl

theorem blind_changeSemaphore (s : ObjectId) (f : Semaphore → Semaphore) :
    Blind φ.core (changeSemaphore s f) :=
  .bind (blind_ask fun _ => rfl) fun _ => blind_modify fun _ => rfl

theorem blind_changeLock (l : ObjectId) (f : Lock → Lock) : Blind φ.core (changeLock l f) :=
  .bind (blind_ask fun _ => rfl) fun _ => blind_modify fun _ => rfl

theorem blind_changeCondition (c : ObjectId) (f : Condition → Condition) :
    Blind φ.core (changeCondition c f) :=
  .bind (blind_ask fun _ => rfl) fun _ => blind_modify fun _ => rfl

/-! ## Objects -/

theorem blind_freshObject : Blind φ.core freshObject :=
  .get_bind (fun _ => rfl) fun _ => (blind_increment _).bind fun _ =>
    .bind (blind_modify fun _ => rfl) fun _ => blind_pure _

theorem blind_newSemaphore (value : Nat) : Blind φ.core (newSemaphore value) :=
  blind_freshObject.bind fun _ => .bind (blind_modify fun _ => rfl) fun _ => blind_pure _

theorem blind_newLock : Blind φ.core newLock :=
  blind_freshObject.bind fun _ => .bind (blind_modify fun _ => rfl) fun _ => blind_pure _

theorem blind_newCondition : Blind φ.core newCondition :=
  blind_freshObject.bind fun _ => .bind (blind_modify fun _ => rfl) fun _ => blind_pure _

theorem blind_dropSemaphore (s : ObjectId) : Blind φ.core (dropSemaphore s) :=
  blind_modify fun _ => rfl

theorem blind_destroySemaphore (s : ObjectId) : Blind φ.core (destroySemaphore s) := by
  refine .bind (blind_ask fun _ => rfl) fun sema => ?_
  split
  · exact (blind_dropSemaphore _).bind fun _ => blind_pure _
  · exact blind_pure _

theorem blind_destroyLock (l : ObjectId) : Blind φ.core (destroyLock l) := by
  refine .bind (blind_ask fun _ => rfl) fun o => ?_
  split
  · exact blind_pure _
  · exact .bind (blind_modify fun _ => rfl) fun _ => blind_pure _

theorem blind_destroyCondition (c : ObjectId) : Blind φ.core (destroyCondition c) := by
  refine .bind (blind_ask fun _ => rfl) fun o => ?_
  split
  · exact .bind (blind_modify fun _ => rfl) fun _ => blind_pure _
  · exact blind_pure _

theorem blind_tryDown (s : ObjectId) : Blind φ.core (tryDown s) := by
  refine blind_masked <| .bind (blind_ask fun _ => rfl) fun sema => ?_
  split
  · exact (blind_changeSemaphore _ _).bind fun _ => blind_pure _
  · exact blind_pure _

theorem blind_tryAcquire (l : ObjectId) : Blind φ.core (tryAcquire l) := by
  refine blind_running_bind (fun _ => rfl) fun th => blind_masked <|
    .bind (blind_ask fun _ => rfl) fun o => ?_
  split
  · exact (blind_changeLock _ _).bind fun _ => blind_pure _
  · exact blind_pure _

/-! ## Waking, passing on and signalling -/

theorem blind_enqueueReady (t : ThreadId) : Blind φ.core (enqueueReady t) :=
  .bind (blind_ask fun _ => rfl) fun _ => blind_modify fun _ => rfl

theorem blind_unblock (t : ThreadId) : Blind φ.core (unblock t) :=
  .get_bind (fun _ => rfl) fun _ => (blind_demand _ _).bind fun _ => blind_masked <|
    blind_thread_bind (fun _ => rfl) fun _ => (blind_demand _ _).bind fun _ =>
    .bind (blind_changeThread t fun _ => rfl) fun _ => blind_enqueueReady t

theorem blind_refreshPriority (t : ThreadId) : Blind φ.core (refreshPriority t) :=
  .bind (blind_ask (effectivePriority_guise φ t)) fun _ =>
    .bind (blind_changeThread t fun _ => rfl) fun _ => blind_pure _

theorem blind_addDonor (t donor : ThreadId) : Blind φ.core (addDonor t donor) :=
  .bind (blind_ask (thread_guise (fun _ => rfl) t)) fun _ => blind_changeThread t fun _ => rfl

theorem blind_donateAlong (donor : ThreadId) (links : Nat) (waiter : ThreadId) :
    Blind φ.core (donateAlong donor links waiter) := by
  induction links generalizing waiter with
  | zero =>
    unfold donateAlong
    refine blind_thread_bind (fun _ => rfl) fun th => ?_
    split
    · exact blind_pure _
    refine .bind (blind_ask fun _ => rfl) fun o => ?_
    split
    · exact blind_throw _
    · exact (blind_demand _ _).bind fun _ => blind_throw _
  | succ links ih =>
    unfold donateAlong
    refine blind_thread_bind (fun _ => rfl) fun th => ?_
    split
    · exact blind_pure _
    refine .bind (blind_ask fun _ => rfl) fun o => ?_
    split
    · exact blind_throw _
    · exact (blind_demand _ _).bind fun _ => (blind_refreshPriority _).bind fun _ =>
        (blind_say _).bind fun _ => ih _

theorem blind_waitForLock (t : ThreadId) (l : ObjectId) (holder : ThreadId) :
    Blind φ.core (waitForLock t l holder) :=
  .bind (blind_ask fun _ => rfl) fun _ => (blind_changeLock _ _).bind fun _ =>
    .bind (blind_changeThread t fun _ => rfl) fun _ => (blind_addDonor _ _).bind fun _ =>
    .get_bind (fun k => congrArg (donateAlong t · t) (size_guise φ k)) fun _ =>
      blind_donateAlong _ _ _

theorem blind_wakeOne (s : ObjectId) : Blind φ.core (wakeOne s) := by
  refine .bind (blind_ask fun _ => rfl) fun sema =>
    .bind (blind_ask (mostUrgent_guise φ _)) fun next => ?_
  split
  · exact (blind_changeSemaphore _ _).bind fun _ => (blind_unblock _).bind fun _ => blind_pure _
  · exact (blind_increment _).bind fun _ => (blind_changeSemaphore _ _).bind fun _ => blind_pure _

theorem blind_passOn (l : ObjectId) (holder : ThreadId) : Blind φ.core (passOn l holder) := by
  refine .bind (blind_ask fun _ => rfl) fun lk => (blind_demand _ _).bind fun _ =>
    (blind_changeLock _ _).bind fun _ => .bind (blind_changeThread _ fun _ => rfl) fun _ =>
    (blind_refreshPriority _).bind fun _ => .bind (blind_ask (mostUrgent_guise φ _)) fun next => ?_
  split
  · exact blind_pure _
  · exact (blind_changeLock _ _).bind fun _ => .bind (blind_changeThread _ fun _ => rfl) fun _ =>
      (blind_forM (fun _ => blind_addDonor _ _) _).bind fun _ =>
      (blind_refreshPriority _).bind fun _ => (blind_unblock _).bind fun _ =>
      (blind_say _).bind fun _ => blind_pure _

theorem blind_wakeDue (now n : Nat) : Blind φ.core (wakeDue now n) := by
  induction n with
  | zero => exact blind_pure _
  | succ n ih =>
    refine .bind (blind_ask (earliestSleeper_guise φ)) fun next => ?_
    split
    · exact blind_pure _
    refine blind_thread_bind (fun _ => rfl) fun th => ?_
    split
    · exact blind_pure _
    · exact .bind (blind_modify fun _ => rfl) fun _ =>
        .bind (blind_changeThread _ fun _ => rfl) fun _ => (blind_unblock _).bind fun _ =>
        (blind_say _).bind fun _ => ih.bind fun _ => blind_pure _

theorem blind_checkHeld (use : ConditionUse) (c l : ObjectId) : Blind φ.core (checkHeld use c l) :=
  .bind (blind_ask (heldByCurrent_guise φ l)) fun _ => blind_demand _ _

theorem blind_signalOne (c l : ObjectId) : Blind φ.core (signalOne c l) := by
  refine .bind (blind_ask fun _ => rfl) fun cond =>
    .bind (blind_ask (mostUrgent_guise φ _)) fun next => ?_
  split
  · exact blind_pure _
  · exact (blind_changeCondition _ _).bind fun _ => .get_bind (fun _ => rfl) fun _ =>
      (blind_waitForLock _ _ _).bind fun _ => (blind_say _).bind fun _ => blind_pure _

theorem blind_signalMany (c l : ObjectId) (n : Nat) : Blind φ.core (signalMany c l n) := by
  induction n with
  | zero => exact blind_pure _
  | succ n ih =>
    refine (blind_signalOne c l).bind fun next => ?_
    split
    · exact blind_pure _
    · exact ih.bind fun _ => blind_pure _

theorem blind_signal (c l : ObjectId) : Blind φ.core (signal c l) :=
  (blind_checkHeld _ _ _).bind fun _ =>
    (blind_masked (blind_signalOne _ _)).bind fun _ => blind_pure _

theorem blind_broadcast (c l : ObjectId) : Blind φ.core (broadcast c l) :=
  (blind_checkHeld _ _ _).bind fun _ => blind_masked <| .bind (blind_ask fun _ => rfl) fun _ =>
    blind_signalMany _ _ _

/-! ## Families -/

theorem blind_dropRecord (entry : ChildRecord) : Blind φ.core (dropRecord entry) :=
  (blind_dropSemaphore _).bind fun _ => blind_dropSemaphore _

theorem blind_adopt (parent child : ThreadId) : Blind φ.core (adopt parent child) :=
  (blind_newSemaphore _).bind fun _ => (blind_newSemaphore _).bind fun _ =>
    (blind_changeFamily _ _).bind fun _ => blind_changeFamily _ _

theorem blind_setExitStatus (status : Int32) : Blind φ.core (setExitStatus status) :=
  blind_running_bind (fun _ => rfl) fun _ => blind_changeFamily _ _

theorem blind_collect (parent child : ThreadId) : Blind φ.core (collect parent child) := by
  refine .bind (blind_ask (childRecord_guise φ _ _)) fun r => ?_
  split
  · exact blind_pure _
  split
  · exact blind_pure _
  · exact (blind_changeFamily _ _).bind fun _ => (blind_dropRecord _).bind fun _ => blind_pure _

theorem blind_tryCollect (child : ThreadId) : Blind φ.core (tryCollect child) :=
  blind_running_bind (fun _ => rfl) fun _ => blind_collect _ _

theorem blind_orphan (entries : List (ThreadId × ChildRecord)) : Blind φ.core (orphan entries) := by
  induction entries with
  | nil => exact blind_pure _
  | cons entry rest ih =>
    refine .get_bind (fun k => ?_) fun k => ?_
    · simp only [mem_guise]
    · split
      · exact (blind_changeFamily _ _).bind fun _ => (blind_dropRecord _).bind fun _ => ih
      · exact (blind_dropRecord _).bind fun _ => ih

theorem blind_reportExit (t : ThreadId) (status : Int32) (parent : ThreadId) :
    Blind φ.core (reportExit t status parent) := by
  refine .get_bind (fun k => ?_) fun k => ?_
  · rw [getElem?_guise]
    cases k.threads[parent]? <;> rfl
  split
  · exact blind_pure _
  split
  · exact blind_pure _
  refine (blind_changeFamily _ _).bind fun _ => ?_
  split
  · exact (blind_wakeOne _).bind fun _ => (blind_wakeOne _).bind fun _ => blind_say _
  · exact (blind_wakeOne _).bind fun _ => blind_say _

theorem blind_leaveFamily (hφ : φ.Parting) (t : ThreadId) : Blind φ.core (leaveFamily t) := by
  refine mimics_thread_bind fun th => mimics_note (hφ th.family.exitStatus th.task) ?_
  refine (blind_changeFamily _ _).bind fun _ => (blind_orphan _).bind fun _ => ?_
  split
  · exact blind_pure _
  · exact blind_reportExit _ _ _

/-! ## Threads -/

theorem blind_onPool {step : PoolM α} : Blind φ.machine (Machine.onPool step) := by
  intro w
  unfold Machine.onPool
  rw [show (φ.machine w).pool = w.pool from rfl]
  cases step w.pool <;> rfl

theorem blind_takeStack : Blind φ.core takeStack := by
  have hpage : Blind φ.machine Machine.takePage := by
    refine blind_onPool.bind fun b => ?_
    split
    · exact .get_bind (fun _ => rfl) fun _ =>
        .bind (blind_modify fun _ => rfl) fun _ => blind_pure _
    · exact blind_pure _
  refine (blind_onMachine hpage).bind fun o => ?_
  split
  · exact (blind_record rfl).bind fun _ => blind_pure _
  · exact (blind_record rfl).bind fun _ => blind_pure _

/-- A thread with a task is, in the guise, a thread with the task that the guise shows. -/
theorem mimics_register (name : String) (priority : Priority) (entry : Option String)
    (task : Option Task) : Mimics φ.core (register name priority entry task)
      (register name priority entry (φ.task task)) := by
  refine .bind blind_takeStack fun o => ?_
  split
  · exact blind_pure _
  refine .get_bind fun k => .bind (blind_increment _) fun next =>
    .bind (mimics_modify fun m => ?_) fun _ => blind_pure _
  have hinsert : ∀ (t : ThreadId) (th : Thread),
      (m.threads.map fun _ => φ.thread).insert t (φ.thread th) =
      (m.threads.insert t th).map fun _ => φ.thread := by
    intro t th
    apply Std.ExtTreeMap.ext_getElem?
    intro u
    simp only [Std.ExtTreeMap.getElem?_insert, Std.ExtTreeMap.getElem?_map]
    split <;> rfl
  simp only [Guise.core, ← hinsert]
  rfl

/-! ## Turns -/

theorem blind_reclaim (n : Nat) : Blind φ.core (reclaim n) := by
  induction n with
  | zero => exact blind_pure _
  | succ n ih =>
    refine Mimics.get_bind fun k => ?_
    rw [show (φ.core k).dead = k.dead.map φ.thread from rfl]
    cases k.dead with
    | nil => exact blind_pure _
    | cons victim rest =>
      exact .bind (mimics_modify fun _ => rfl) fun _ => .bind (blind_say _) fun _ =>
        .bind (blind_record rfl) fun _ => .bind (blind_onMachine blind_onPool) fun _ => ih

theorem blind_takeNext : Blind φ.core takeNext := by
  refine .bind (blind_ask fun k => mostUrgent_guise φ k.ready k) fun next => ?_
  split
  · exact .bind (blind_modify fun _ => rfl) fun _ => blind_pure _
  · exact .get_bind (fun _ => rfl) fun _ => blind_pure _

section Honest

variable (h : φ.Honest)

include h

theorem blind_resume (source target : ThreadId) (running resumed : Context) :
    Blind φ.core (resume source target running resumed) := by
  refine (blind_record rfl).bind fun _ => (blind_of_honest h _).bind fun r =>
    .bind (blind_changeThread _ fun _ => rfl) fun _ => ?_
  split
  · exact blind_record rfl
  · exact blind_pure _

theorem blind_switchTo (source target : ThreadId) : Blind φ.core (switchTo source target) := by
  refine .bind (blind_modify fun _ => rfl) fun _ => .bind (blind_say _) fun _ =>
    mimics_thread_bind fun leaving => ?_
  have hload : Blind φ.core (ask (thread target) >>= fun resumed =>
      resume source target leaving.context resumed.context) :=
    blind_thread_bind (fun _ => rfl) fun resumed => blind_resume h _ _ _ _
  have herase : Mimics φ.core
      (modify fun k => { k with threads := k.threads.erase source, dead := k.dead ++ [leaving] })
      (modify fun k =>
        { k with threads := k.threads.erase source, dead := k.dead ++ [φ.thread leaving] }) := by
    refine mimics_modify fun m => ?_
    have hthreads : (m.threads.map fun _ => φ.thread).erase source =
        (m.threads.erase source).map fun _ => φ.thread := by
      apply Std.ExtTreeMap.ext_getElem?
      intro u
      simp only [Std.ExtTreeMap.getElem?_erase, Std.ExtTreeMap.getElem?_map]
      split <;> rfl
    simp only [Guise.core, hthreads, List.map_append, List.map_cons, List.map_nil]
  by_cases hd : leaving.state = .dying
  · have hd' : (φ.thread leaving).state = .dying := hd
    rw [if_pos hd, if_pos hd']
    exact .bind herase fun _ => hload
  · have hd' : ¬ (φ.thread leaving).state = .dying := hd
    rw [if_neg hd, if_neg hd']
    exact hload

theorem blind_dispatch : Blind φ.core dispatch := by
  refine .get_bind (fun _ => rfl) fun k₀ => .bind blind_takeNext fun target =>
    .get_bind (fun k => ?_) fun k => .bind (blind_demand _ _) fun _ => ?_
  · rw [h.core_machine]
  refine blind_thread_bind (fun _ => rfl) fun src => .bind (blind_demand _ _) fun _ =>
    mimics_thread_bind fun th => .bind (blind_demand _ _) fun _ =>
    .bind (blind_changeThread _ fun _ => rfl) fun _ => mimics_note (φ.events_activated th.task) ?_
  refine .bind (blind_modify fun _ => rfl) fun _ => ?_
  split
  · exact blind_switchTo h _ _
  · exact blind_pure _

theorem blind_endTurn (σ : ThreadState) : Blind φ.core (endTurn σ) := by
  refine .get_bind (fun k => ?_) fun k => .bind (blind_demand _ _) fun _ =>
    .get_bind (fun _ => rfl) fun k => blind_thread_bind (fun _ => rfl) fun th =>
    .bind (blind_demand _ _) fun _ => .get_bind (fun k => ?_) fun k =>
    .bind (blind_reclaim _) fun _ => .bind (blind_changeThread _ fun _ => rfl) fun _ =>
    blind_dispatch h
  · rw [h.core_machine]
  · rw [show (φ.core k).dead = k.dead.map φ.thread from rfl, List.length_map]

theorem blind_outsideHandler (attempt : Attempt) : Blind φ.core (outsideHandler attempt) := by
  refine .get_bind (fun k => ?_) fun k => blind_demand _ _
  rw [h.core_machine]

theorem blind_block : Blind φ.core block := by
  refine (blind_outsideHandler h _).bind fun _ => .get_bind (fun k => ?_) fun k =>
    (blind_demand _ _).bind fun _ => blind_endTurn h _
  rw [h.core_machine]

theorem blind_yieldNow : Blind φ.core yieldNow := by
  refine (blind_outsideHandler h _).bind fun _ => blind_running_bind (fun _ => rfl) fun th =>
    blind_masked <| .get_bind (fun _ => rfl) fun k => ?_
  split
  · exact blind_endTurn h _
  · exact (blind_enqueueReady _).bind fun _ => blind_endTurn h _

theorem blind_sleepUntil (tick : Nat) : Blind φ.core (sleepUntil tick) := by
  refine (blind_outsideHandler h _).bind fun _ => blind_running_bind (fun _ => rfl) fun th =>
    .get_bind (fun _ => rfl) fun k => ?_
  split
  · exact blind_pure _
  · exact blind_masked <| .bind (blind_changeThread _ fun _ => rfl) fun _ =>
      .bind (blind_ask fun _ => rfl) fun _ => .bind (blind_modify fun _ => rfl) fun _ =>
      (blind_say _).bind fun _ => blind_endTurn h _

theorem blind_sleepFor (ticks : Nat) : Blind φ.core (sleepFor ticks) :=
  .get_bind (fun _ => rfl) fun _ => blind_sleepUntil h _

theorem blind_down (s : ObjectId) : Blind φ.core (down s) := by
  refine blind_running_bind (fun _ => rfl) fun th => blind_masked <|
    .bind (blind_ask fun _ => rfl) fun sema => ?_
  split
  · exact blind_changeSemaphore _ _
  · exact (blind_outsideHandler h _).bind fun _ => .bind (blind_ask fun _ => rfl) fun _ =>
      (blind_changeSemaphore _ _).bind fun _ => (blind_say _).bind fun _ => blind_endTurn h _

theorem blind_acquire (l : ObjectId) : Blind φ.core (acquire l) := by
  refine (blind_outsideHandler h _).bind fun _ => blind_running_bind (fun _ => rfl) fun th =>
    blind_masked <| .bind (blind_ask fun _ => rfl) fun o => ?_
  split
  · exact blind_changeLock _ _
  · exact (blind_demand _ _).bind fun _ => (blind_waitForLock _ _ _).bind fun _ =>
      (blind_say _).bind fun _ => blind_endTurn h _

theorem blind_await (c l : ObjectId) : Blind φ.core (await c l) := by
  refine (blind_outsideHandler h _).bind fun _ => (blind_checkHeld _ _ _).bind fun _ =>
    blind_running_bind (fun _ => rfl) fun th => blind_masked <|
      .bind (blind_ask fun _ => rfl) fun cond => ?_
  have hrest : Blind φ.core (do
      let waiters ← ask fun k => do (← k.condition c).waiters.push th.id
      changeCondition c fun cond => { cond with waiters := waiters }
      let _ ← passOn l th.id
      say (.waits th.id (.condition c))
      endTurn .blocked) :=
    .bind (blind_ask fun _ => rfl) fun _ => (blind_changeCondition _ _).bind fun _ =>
      (blind_passOn _ _).bind fun _ => (blind_say _).bind fun _ => blind_endTurn h _
  split
  · exact (blind_demand _ _).bind fun _ => hrest
  · exact (blind_changeCondition _ _).bind fun _ => hrest

theorem blind_awaitFork (child : ThreadId) : Blind φ.core (awaitFork child) := by
  refine blind_running_bind (fun _ => rfl) fun th =>
    .bind (blind_ask (childRecord_guise φ _ _)) fun r => ?_
  split
  · exact blind_pure _
  · exact (blind_down h _).bind fun _ => blind_pure _

theorem blind_awaitExit (child : ThreadId) : Blind φ.core (awaitExit child) := by
  refine blind_running_bind (fun _ => rfl) fun th => (blind_collect _ _).bind fun first => ?_
  split
  · exact blind_pure _
  · exact blind_pure _
  refine .bind (blind_ask (childRecord_guise φ _ _)) fun r => ?_
  split
  · exact blind_pure _
  refine (blind_down h _).bind fun _ => .get_bind (fun _ => rfl) fun _ => ?_
  split
  · exact blind_pure _
  refine (blind_collect _ _).bind fun second => ?_
  split
  · exact blind_pure _
  · exact blind_pure _
  · exact blind_throw _

theorem blind_exit (hφ : φ.Parting) : Blind φ.core exit := by
  refine (blind_outsideHandler h _).bind fun _ => blind_running_bind (fun _ => rfl) fun th =>
    .get_bind (fun _ => rfl) fun k => (blind_demand _ _).bind fun _ =>
      .get_bind (fun _ => rfl) fun k => ?_
  have hrest : Blind φ.core (do
      leaveFamily th.id
      say (.exits th.id (← ask (thread th.id)).name)
      masked (endTurn .dying)) :=
    (blind_leaveFamily hφ _).bind fun _ => blind_thread_bind (fun _ => rfl) fun _ =>
      (blind_say _).bind fun _ => blind_masked (blind_endTurn h _)
  split
  · exact (blind_throw _).bind fun _ => hrest
  · exact hrest

end Honest

/-! ## Requests to yield -/

section Prompt

variable (h : φ.Prompt)

include h

theorem blind_setPending (b : Bool) : Blind φ.core (modify fun k => { k with yieldPending := b }) :=
  blind_modify fun k => by simp only [Guise.core, h.pending]

theorem blind_preempt : Blind φ.core preempt := by
  refine .bind (blind_ask (outranked_guise φ)) fun b => ?_
  split
  · refine .get_bind (fun k => ?_) fun k => ?_
    · rw [h.core_machine]
    · split
      · exact blind_setPending h _
      · exact blind_yieldNow h.toHonest
  · exact blind_pure _

theorem blind_setPriority (p : Priority) : Blind φ.core (setPriority p) :=
  (blind_demand _ _).bind fun _ => blind_running_bind (fun _ => rfl) fun _ =>
    .bind (blind_masked <| .bind (blind_changeThread _ fun _ => rfl) fun _ =>
      (blind_refreshPriority _).bind fun _ => blind_pure _) fun _ => blind_preempt h

theorem blind_up (s : ObjectId) : Blind φ.core (up s) := by
  refine (blind_masked (blind_wakeOne s)).bind fun woken => ?_
  split
  · exact blind_preempt h
  · exact blind_pure _

theorem blind_release (l : ObjectId) : Blind φ.core (release l) :=
  blind_running_bind (fun _ => rfl) fun _ =>
    (blind_masked (blind_passOn _ _)).bind fun _ => blind_preempt h

theorem blind_wakeSleepers (now : Nat) : Blind φ.core (wakeSleepers now) := by
  refine .bind (blind_masked <| .get_bind (fun _ => rfl) fun _ => blind_wakeDue _ _) fun woken => ?_
  split
  · exact (blind_preempt h).bind fun _ => blind_pure _
  · exact blind_pure _

theorem blind_reportFork : Blind φ.core reportFork := by
  refine blind_running_bind (fun _ => rfl) fun th => blind_thread_bind (fun _ => rfl) fun _ => ?_
  split
  · exact blind_pure _
  refine .bind (blind_ask (childRecord_guise φ _ _)) fun r => ?_
  split
  · exact blind_pure _
  split
  · exact blind_pure _
  · exact (blind_changeFamily _ _).bind fun _ => (blind_up h _).bind fun _ => blind_pure _

theorem mimics_spawn (name : String) (priority : Priority) (task : Option Task) :
    Mimics φ.core (spawn name priority task) (spawn name priority (φ.task task)) := by
  refine .bind (blind_demand _ _) fun _ => mimics_running_bind fun creator =>
    .bind (mimics_register _ _ _ _) fun r => ?_
  split
  · exact (blind_say _).bind fun _ => blind_pure _
  · exact (blind_adopt _ _).bind fun _ => (blind_say _).bind fun _ =>
      (blind_unblock _).bind fun _ => (blind_preempt h).bind fun _ => blind_pure _

/-! ## Handlers -/

theorem blind_enterHandler : Blind φ.core enterHandler :=
  (blind_of_honest h.toHonest _).bind fun _ =>
    (blind_of_honest h.toHonest _).bind fun _ => blind_pure _

theorem blind_leaveHandler (was : Bool) : Blind φ.core (leaveHandler was) := by
  refine (blind_of_honest h.toHonest _).bind fun _ => .get_bind (fun k => ?_) fun k =>
    (blind_setPending h _).bind fun _ => .get_bind (fun _ => rfl) fun k => ?_
  · rw [show (φ.core k).yieldPending = φ.pending k.yieldPending from rfl, h.pending]
  split
  · exact (blind_endTurn h.toHonest _).bind fun _ => blind_of_honest h.toHonest _
  split
  · exact (blind_yieldNow h.toHonest).bind fun _ => blind_of_honest h.toHonest _
  · exact blind_of_honest h.toHonest _

theorem blind_yieldOnReturn : Blind φ.core yieldOnReturn := by
  refine .get_bind (fun k => ?_) fun k => (blind_demand _ _).bind fun _ => blind_setPending h _
  rw [h.core_machine]

theorem blind_countSlice : Blind φ.core countSlice := by
  refine .get_bind (fun _ => rfl) fun k => (blind_increment _).bind fun slice =>
    .bind (blind_modify fun _ => rfl) fun _ => .get_bind (fun _ => rfl) fun k => ?_
  split
  · exact blind_setPending h _
  · exact blind_pure _

end Prompt

/-! ## The timer -/

theorem blind_advance : Blind φ.core (onMachine Machine.advance) := by
  refine blind_onMachine <| .get_bind (fun _ => rfl) fun w => ?_
  split
  · exact blind_throw _
  · exact .bind (blind_modify fun _ => rfl) fun _ => blind_pure _

theorem blind_advances (n : Nat) : Blind φ.core (advance n) := by
  induction n with
  | zero => exact .get_bind (fun _ => rfl) fun _ => blind_pure _
  | succ n ih => exact blind_advance.bind fun _ => ih

theorem blind_countTick (htask : ∀ o, φ.task o = o) (husage : ∀ u, φ.usage u = u) :
    Blind φ.core countTick := by
  have hcount : ∀ f : Core → Usage, (∀ k, f (φ.core k) = f k) →
      Blind φ.core (modify fun k => { k with usage := f k }) := fun f hf => blind_modify fun k => by
    simp only [hf]
    simp only [Guise.core, husage]
  have hsame : ∀ k, (φ.core k).usage = k.usage := fun k => husage k.usage
  refine .get_bind (fun k => ?_) fun k => ?_
  · simp only [hsame]
    rfl
  split
  · exact (blind_increment _).bind fun _ => hcount _ fun k => by rw [hsame]
  · refine blind_thread_bind (fun th => ?_) fun th => ?_
    · simp only [Guise.thread, htask]
    · split
      · exact (blind_increment _).bind fun _ => hcount _ fun k => by rw [hsame]
      · exact (blind_increment _).bind fun _ => hcount _ fun k => by rw [hsame]

theorem blind_handleInterrupt {handler : CoreM α} (h : φ.Prompt) (hx : Blind φ.core handler) :
    Blind φ.core (handleInterrupt handler) :=
  (blind_enterHandler h).bind fun _ => hx.bind fun _ =>
    (blind_leaveHandler h _).bind fun _ => blind_pure _

theorem blind_timerInterrupt (h : φ.Prompt) (hc : Blind φ.core countTick) :
    Blind φ.core timerInterrupt :=
  blind_handleInterrupt h <| .get_bind (fun _ => rfl) fun _ => hc.bind fun _ =>
    (blind_countSlice h).bind fun _ => (blind_wakeSleepers h _).bind fun _ => blind_pure _

theorem blind_ticks (h : φ.Prompt) (hc : Blind φ.core countTick) (n : Nat) :
    Blind φ.core (ticks n) := by
  induction n with
  | zero => exact blind_pure _
  | succ n ih =>
    exact (blind_advance.bind fun _ => blind_timerInterrupt h hc).bind fun _ => ih

/-! ## The audit and the end -/

theorem auditEntry_guise (φ : Guise) (k : Core) (place : Place) (t : ThreadId) :
    (φ.core k).auditEntry place t = k.auditEntry place t := by
  cases place with
  | readyQueue =>
    exact congrArg (demand (t ≠ k.idle) _ >>= fun _ => ·) (thread_guise (fun _ => rfl) t k)
  | _ => exact thread_guise (fun _ => rfl) t k

theorem auditEntries_guise (φ : Guise) (k : Core) (place : Place) (seen : List (ThreadId × Place))
    (ts : List ThreadId) :
    (φ.core k).auditEntries place seen ts = k.auditEntries place seen ts := by
  induction ts generalizing seen with
  | nil => rfl
  | cons t ts ih => simp only [auditEntries, auditEntry_guise, ih]

theorem auditQueues_guise (φ : Guise) (k : Core) (seen : List (ThreadId × Place))
    (qs : List (Place × Queue)) : (φ.core k).auditQueues seen qs = k.auditQueues seen qs := by
  induction qs generalizing seen with
  | nil => rfl
  | cons q qs ih => simp only [auditQueues, auditEntries_guise, ih]

theorem auditThread_guise (φ : Guise) (k : Core) (th : Thread) :
    (φ.core k).auditThread (φ.thread th) = k.auditThread th := by
  simp only [auditThread, greatestPriority_guise]
  rfl

theorem runningThreads_guise (φ : Guise) (k : Core) :
    (φ.core k).runningThreads = k.runningThreads := by
  simp only [runningThreads, values_guise, List.filter_map, List.map_map]
  rfl

theorem validate_guise (φ : Guise) (k : Core) : (φ.core k).validate = k.validate := by
  have hthreads : (φ.core k).threads.values.forM (φ.core k).auditThread =
      k.threads.values.forM k.auditThread := by
    rw [values_guise]
    generalize k.threads.values = ths
    induction ths with
    | nil => simp only [List.map_nil, List.forM]
    | cons th ths ih => simp only [List.map_cons, List.forM, auditThread_guise, ih]
  have hqueues : (φ.core k).queues = k.queues := rfl
  have hcurrent : (φ.core k).current = k.current := rfl
  simp only [validate, runningThreads_guise, auditQueues_guise, hthreads, hqueues, hcurrent]

theorem blind_shutDown : Blind φ.core shutDown := by
  have hfree : ∀ th : Thread, Blind φ.core (do
      record (.freed th.stack.frame)
      onMachine Machine.freePage) :=
    fun th => (blind_record rfl).bind fun _ => blind_onMachine blind_onPool
  refine blind_masked <| Mimics.get_bind fun k => .bind (blind_modify fun _ => ?_) fun _ => ?_
  · rfl
  rw [values_guise, show (φ.core k).dead = k.dead.map φ.thread from rfl, ← List.map_append]
  induction k.dead ++ k.threads.values with
  | nil => exact blind_pure _
  | cons th ths ih => exact .bind (hfree th) fun _ => ih

theorem blind_boot (h : φ.Honest) : Blind φ.core boot := by
  have hregister : ∀ name priority, Blind φ.core (register name priority none none) := by
    intro name priority
    have hr := mimics_register (φ := φ) name priority none none
    rwa [φ.task_none] at hr
  have hrefused : ∀ refusal, Blind φ.core (do
      shutDown
      (pure (.error refusal) : CoreM (Except Refusal Unit))) :=
    fun refusal => blind_shutDown.bind fun _ => blind_pure _
  refine Blind.get_bind (fun k => ?_) fun k => (blind_demand _ _).bind fun _ =>
    .get_bind (fun _ => rfl) fun k => (hregister _ _).bind fun r => ?_
  · rw [h.core_machine]
  split
  · exact hrefused _
  · refine .bind (blind_changeThread _ fun _ => rfl) fun _ =>
      .bind (blind_modify fun _ => rfl) fun _ => (hregister _ _).bind fun r => ?_
    split
    · exact hrefused _
    · exact .bind (blind_modify fun _ => rfl) fun _ => (blind_of_honest h _).bind fun _ =>
        (blind_say _).bind fun _ => blind_pure _

end Core

end ThreadCore
