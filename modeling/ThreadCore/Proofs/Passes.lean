import ThreadCore.Proofs.Backdrop
import ThreadCore.Proofs.Courses

/-!
# Passes through the selector

Most of what the core does leaves the processor and the count of the slice alone: it stays on the
same footing (`Core.gait`). Exceptions are that the slice is counted, and that a thread is
dispatched.

To say how often that happens in a run, the operations that may end a turn are written a second time
(`Core.Noted`), and leave a mark for each count and each dispatch. Without the marks they are the
operations (`Core.Tracks.erased`), and what they do to the footing is what the marks say
(`Core.Plays`).
-/

namespace ThreadCore

namespace Core

variable {α β : Type} {k k' m : Core} {u : Unit}

/-! ## The footing -/

/-- The thread that has the processor, the settings, and the count of the slice. -/
structure Footing where
  current : ThreadId
  config : Config
  slice : Nat

def footing (k : Core) : Footing := ⟨k.current, k.config, k.slice⟩

/-- What a dispatch does not choose: the settings and whether a handler runs. -/
def setting (k : Core) : Config × Bool := (k.config, k.machine.inHandler)

/-- The settings, the handler flag and the count. -/
def rhythm (k : Core) : (Config × Bool) × Nat := (k.setting, k.slice)

/-- The footing and the handler flag. -/
def gait (k : Core) : Footing × Bool := (k.footing, k.machine.inHandler)

theorem aloof_rhythm : Aloof rhythm :=
  ⟨fun _ _ => rfl, fun _ _ => rfl, fun _ _ => rfl, fun _ _ => rfl, fun _ _ => rfl, fun _ _ => rfl⟩

theorem aloof_gait : Aloof gait :=
  ⟨fun _ _ => rfl, fun _ _ => rfl, fun _ _ => rfl, fun _ _ => rfl, fun _ _ => rfl, fun _ _ => rfl⟩

theorem rhythm_of_gait (h : k'.gait = k.gait) : k'.rhythm = k.rhythm :=
  congrArg (fun x : Footing × Bool => ((x.1.config, x.2), x.1.slice)) h

theorem setting_of_rhythm (h : k'.rhythm = k.rhythm) : k'.setting = k.setting := congrArg Prod.fst h

theorem Keeps.rhythm {x : CoreM α} (hx : Keeps gait x) : Keeps rhythm x :=
  fun k a k' h => rhythm_of_gait (hx k a k' h)

theorem gait_record (e : Event) : Keeps gait (record e) := keeps_modify fun _ => rfl

/-- The footing is none of the machine's. -/
theorem gait_onMachine {step : MachineM α}
    (hflag : ∀ k a k', onMachine step k = .ok a k' →
      k'.machine.inHandler = k.machine.inHandler) : Keeps gait (onMachine step) := by
  intro k a k' h
  have hhandler := hflag k a k' h
  obtain ⟨w, -, rfl⟩ := onMachine_eq_ok.mp h
  exact congrArg (k.footing, ·) hhandler

theorem gait_onPool (step : PoolM α) : Keeps gait (onMachine (Machine.onPool step)) :=
  gait_onMachine fun _ _ _ h => (quiet_onPool h).handler

theorem gait_switch (running next : Context) :
    Keeps gait (onMachine (Machine.switch running next)) :=
  gait_onMachine fun _ _ _ h => (quiet_switch h).handler

theorem gait_resume (source target : ThreadId) (running resumed : Context) :
    Keeps gait (resume source target running resumed) :=
  aloof_gait.discreet.resume source target running resumed gait_record (gait_switch running resumed)
    fun _ => aloof_gait.changeThread target _

/-- A note about a task, if it has a label, leaves the footing alone. -/
theorem gait_note {label? : Option String} {event : String → Event} {rest : CoreM α} {a : α}
    (h : (match label? with
      | some label => record (event label) >>= fun _ => rest
      | none => rest) k = .ok a k') : ∃ m, m.gait = k.gait ∧ rest m = .ok a k' := by
  cases label? with
  | some label =>
    obtain ⟨_, m, hm, h⟩ := bind_eq_ok.mp h
    exact ⟨m, gait_record _ _ _ _ hm, h⟩
  | none => exact ⟨k, rfl, h⟩

theorem rhythm_switchTo (source target : ThreadId) : Keeps rhythm (switchTo source target) :=
  aloof_rhythm.discreet.switchTo source target (keeps_modify fun _ => rfl)
    (fun _ => keeps_modify fun _ => rfl)
    fun running resumed => (gait_resume source target running resumed).rhythm

theorem gait_takeNext : Keeps gait takeNext :=
  aloof_gait.discreet.takeNext fun _ => keeps_modify fun _ => rfl

/-- A dispatch starts the count anew. -/
theorem dispatch_slice (h : dispatch k = .ok u k') : k'.setting = k.setting ∧ k'.slice = 0 := by
  unfold dispatch at h
  rw [get_bind_eq_ok] at h
  obtain ⟨t, m, hm, h⟩ := bind_eq_ok.mp h
  have hnext := setting_of_rhythm (gait_takeNext.rhythm _ _ _ hm)
  rw [get_bind_eq_ok, demand_bind_eq_ok] at h
  simp only [ask_bind_eq_ok, demand_bind_eq_ok, changeThread_bind_eq_ok] at h
  obtain ⟨-, src, -, -, th, -, -, -, h⟩ := h
  obtain ⟨m', hm', h⟩ := gait_note h
  have hnote := setting_of_rhythm (rhythm_of_gait hm')
  rw [modify_bind_eq_ok] at h
  have hlast : k'.rhythm = ({ m' with slice := 0 } : Core).rhythm := by
    split at h
    · exact rhythm_switchTo _ _ _ _ _ h
    · exact (pure_eq_ok.mp h).2 ▸ rfl
  exact ⟨(setting_of_rhythm hlast).trans (hnote.trans hnext), congrArg Prod.snd hlast⟩

theorem gait_reclaim (n : Nat) : Keeps gait (reclaim n) :=
  aloof_gait.discreet.reclaim n (fun _ => keeps_modify fun _ => rfl) (fun _ => gait_record _)
    (gait_onPool _)

/-- A turn ends with a dispatch. -/
theorem endTurn_slice {σ : ThreadState} (h : endTurn σ k = .ok u k') : k'.slice = 0 := by
  unfold endTurn at h
  rw [get_bind_eq_ok, demand_bind_eq_ok, get_bind_eq_ok] at h
  simp only [ask_bind_eq_ok, demand_bind_eq_ok, get_bind_eq_ok] at h
  obtain ⟨-, _, -, -, h⟩ := h
  obtain ⟨_, m, -, h⟩ := bind_eq_ok.mp h
  rw [changeThread_bind_eq_ok] at h
  exact (dispatch_slice h.2).2

/-- So does a yield. -/
theorem yieldNow_slice (h : yieldNow k = .ok u k') : k'.slice = 0 := by
  unfold yieldNow at h
  rw [outsideHandler_bind_eq_ok] at h
  simp only [ask_bind_eq_ok] at h
  obtain ⟨-, th, -, h⟩ := h
  unfold masked at h
  obtain ⟨was, m, -, h⟩ := bind_eq_ok.mp h
  obtain ⟨_, m', hturn, h⟩ := bind_eq_ok.mp h
  obtain ⟨_, n, hn, h⟩ := bind_eq_ok.mp h
  obtain ⟨-, rfl⟩ := pure_eq_ok.mp h
  have hlast : n.slice = m'.slice := congrArg Prod.snd (aloof_rhythm.unmask _ _ _ _ hn)
  rw [hlast]
  rw [get_bind_eq_ok] at hturn
  split at hturn
  · exact endTurn_slice hturn
  · obtain ⟨_, m₁, -, hturn⟩ := bind_eq_ok.mp hturn
    exact endTurn_slice hturn

/-! ## Marks -/

/-- What is noted of a run. -/
inductive Mark
  /-- The slice is counted. -/
  | beat
  /-- A thread is dispatched. With the core before and after. -/
  | pass (before after : Core)

def Mark.isBeat : Mark → Bool
  | .beat => true
  | .pass _ _ => false

variable {f g h : Footing} {ms ns : List Mark}

/-- From one footing the marks lead to another. The slice is counted while it is not over, and a
dispatch is made where the marks before it have led. -/
inductive Plays : Footing → List Mark → Footing → Prop
  | done {f : Footing} : Plays f [] f
  | beat {f g : Footing} {ms : List Mark} : f.slice < f.config.timeSlice →
      Plays { f with slice := f.slice + 1 } ms g → Plays f (.beat :: ms) g
  | pass {f g : Footing} {ms : List Mark} {k k' : Core} : k.footing = f → dispatch k = .ok () k' →
      Plays k'.footing ms g → Plays f (.pass k k' :: ms) g

namespace Plays

theorem append (hm : Plays f ms g) (hn : Plays g ns h) : Plays f (ms ++ ns) h := by
  induction hm with
  | done => exact hn
  | beat hlt _ ih => exact .beat hlt (ih hn)
  | pass hk hd _ ih => exact .pass hk hd (ih hn)

theorem of_append (hp : Plays f (ms ++ ns) h) : ∃ g, Plays f ms g ∧ Plays g ns h := by
  induction ms generalizing f with
  | nil => exact ⟨f, .done, hp⟩
  | cons x ms ih =>
    cases hp with
    | beat hlt hp =>
      obtain ⟨g, hm, hn⟩ := ih hp
      exact ⟨g, .beat hlt hm, hn⟩
    | pass hk hd hp =>
      obtain ⟨g, hm, hn⟩ := ih hp
      exact ⟨g, .pass hk hd hm, hn⟩

theorem config (hp : Plays f ms g) : g.config = f.config := by
  induction hp with
  | done => rfl
  | beat _ _ ih => exact ih
  | pass hk hd _ ih => exact ih.trans (hk ▸ congrArg Prod.fst (dispatch_slice hd).1)

/-- Without a dispatch the thread keeps the processor and the count goes on. -/
theorem beats {n : Nat} (hp : Plays f (.replicate n .beat) g) :
    g = { f with slice := f.slice + n } := by
  induction n generalizing f with
  | zero =>
    cases hp
    rfl
  | succ n ih =>
    rw [List.replicate_succ] at hp
    cases hp with
    | beat _ hp =>
      rw [ih hp]
      simp only [Footing.mk.injEq, true_and]
      omega

/-- The count goes no further than the slice is counted. -/
theorem slice_le (hp : Plays f ms g) : g.slice ≤ f.slice + ms.countP Mark.isBeat := by
  induction hp with
  | done => simp
  | @beat f g ms _ _ ih =>
    rw [List.countP_cons_of_pos (by rfl)]
    have hle : g.slice ≤ f.slice + 1 + ms.countP Mark.isBeat := ih
    omega
  | @pass f g ms k k' hk hd _ ih =>
    rw [List.countP_cons_of_neg (by simp [Mark.isBeat])]
    have hzero : k'.footing.slice = 0 := (dispatch_slice hd).2
    omega

end Plays

/-! ## Noted operations -/

/-- A step of the core that takes notes. -/
structure NotedM (α : Type) where
  run : CoreM (α × List Mark)

namespace NotedM

instance : Monad NotedM where
  pure a := ⟨pure (a, [])⟩
  bind x g := ⟨do
    let (a, ms) ← x.run
    let (b, ns) ← (g a).run
    return (b, ms ++ ns)⟩

instance : MonadLift CoreM NotedM where
  monadLift x := ⟨do return (← x, [])⟩

instance : MonadExcept Halt NotedM where
  throw e := ⟨throw e⟩
  tryCatch x handler := ⟨tryCatch x.run fun e => (handler e).run⟩

def note (m : Mark) : NotedM Unit := ⟨pure ((), [m])⟩

variable {x : NotedM α} {a : α} {b : β}

theorem run_bind_eq_ok {g : α → NotedM β} (h : (x >>= g).run k = .ok (b, ms) k') :
    ∃ a ms₁ ms₂ m, x.run k = .ok (a, ms₁) m ∧ (g a).run m = .ok (b, ms₂) k' ∧ ms = ms₁ ++ ms₂ := by
  obtain ⟨⟨a, ms₁⟩, m, hm, h⟩ := bind_eq_ok.mp h
  obtain ⟨⟨b', ms₂⟩, m', hm', h⟩ := bind_eq_ok.mp h
  obtain ⟨h, rfl⟩ := pure_eq_ok.mp h
  cases h
  exact ⟨a, ms₁, ms₂, m, hm, hm', rfl⟩

theorem run_lift_eq_ok {step : CoreM α} (h : (liftM step : NotedM α).run k = .ok (a, ms) k') :
    step k = .ok a k' ∧ ms = [] := by
  obtain ⟨b, m, hm, h⟩ := bind_eq_ok.mp h
  obtain ⟨h, rfl⟩ := pure_eq_ok.mp h
  cases h
  exact ⟨hm, rfl⟩

theorem run_lift_bind_eq_ok {step : CoreM α} {g : α → NotedM β}
    (h : (liftM step >>= g).run k = .ok (b, ms) k') :
    ∃ a m, step k = .ok a m ∧ (g a).run m = .ok (b, ms) k' := by
  obtain ⟨a, ms₁, ms₂, m, hm, hg, rfl⟩ := run_bind_eq_ok h
  obtain ⟨hstep, rfl⟩ := run_lift_eq_ok hm
  exact ⟨a, m, hstep, hg⟩

theorem run_bind_pure_eq_ok {g : α → β} (h : (x >>= fun a => pure (g a)).run k = .ok (b, ms) k') :
    ∃ a, x.run k = .ok (a, ms) k' ∧ b = g a := by
  obtain ⟨a, ms₁, ms₂, m, hx, hend, rfl⟩ := run_bind_eq_ok h
  obtain ⟨hend, rfl⟩ := pure_eq_ok.mp hend
  cases hend
  exact ⟨a, by rwa [List.append_nil], rfl⟩

end NotedM

namespace Noted

open NotedM (note)

/-! Each of these is the operation of its name, line by line. -/

def dispatch : NotedM Unit := do
  let before ← get
  Core.dispatch
  note (.pass before (← get))

def countSlice : NotedM Unit := do
  Core.countSlice
  note .beat

def masked (body : NotedM α) : NotedM α := do
  let was ← onMachine Machine.mask
  let a ← body
  onMachine (Machine.unmask was)
  return a

def endTurn (state : ThreadState) : NotedM Unit := do
  demand ((← get).machine.interruptsOn = false) .dispatchUnmasked
  let current := (← get).current
  let th ← ask (thread current)
  demand (th.state = .running) (.turnNotRunning th.state)
  reclaim (← get).dead.length
  changeThread current fun th => { th with state := state }
  dispatch

def block : NotedM Unit := do
  outsideHandler .block
  demand ((← get).machine.interruptsOn = false) .blockUnmasked
  endTurn .blocked

def yieldNow : NotedM Unit := do
  outsideHandler .yield
  let t := (← ask running).id
  masked do
    if t = (← get).idle then
      endTurn .blocked
    else
      enqueueReady t
      endTurn .ready

def preempt : NotedM Unit := do
  if ← ask outranked then
    if (← get).machine.inHandler then
      modify fun k => { k with yieldPending := true }
    else
      yieldNow

def setPriority (p : Priority) : NotedM Unit := do
  checkPriority p
  let t := (← ask running).id
  masked do
    changeThread t fun th => { th with base := p }
    let _ ← refreshPriority t
  preempt

def sleepUntil (tick : Nat) : NotedM Unit := do
  outsideHandler .sleep
  let t := (← ask running).id
  let k ← get
  if t = k.idle ∨ tick ≤ k.machine.ticks then return ()
  masked do
    changeThread t fun th => { th with wakeAt := some tick }
    let sleepers ← ask fun k => k.sleepers.push t
    modify fun k => { k with sleepers := sleepers }
    say (.sleeps t tick)
    endTurn .blocked

def sleepFor (ticks : Nat) : NotedM Unit := do
  sleepUntil (Word.addSaturating (← get).machine.ticks ticks)

def wakeSleepers (now : Nat) : NotedM Nat := do
  let woken ← masked do wakeDue now (← get).sleepers.size
  if 0 < woken then preempt
  return woken

def down (s : ObjectId) : NotedM Unit := do
  let t := (← ask running).id
  masked do
    let sema ← ask (semaphore s)
    if 0 < sema.value then
      changeSemaphore s fun sema => { sema with value := sema.value - 1 }
    else
      outsideHandler (.down s)
      let waiters ← ask fun _ => sema.waiters.push t
      changeSemaphore s fun sema => { sema with waiters := waiters }
      say (.waits t (.semaphore s))
      endTurn .blocked

def up (s : ObjectId) : NotedM Unit := do
  let woken ← masked (wakeOne s)
  if woken.isSome then preempt

def acquire (l : ObjectId) : NotedM Unit := do
  outsideHandler (.acquire l)
  let t := (← ask running).id
  masked do
    match (← ask (lock l)).holder with
    | none => changeLock l fun lk => { lk with holder := some t }
    | some holder =>
      demand (holder ≠ t) (.acquiredTwice t l)
      waitForLock t l holder
      say (.waitsForHolder t l holder)
      endTurn .blocked

def release (l : ObjectId) : NotedM Unit := do
  let t := (← ask running).id
  let _ ← masked (passOn l t)
  preempt

def await (c l : ObjectId) : NotedM Unit := do
  outsideHandler (.await c)
  checkHeld .wait c l
  let t := (← ask running).id
  masked do
    match (← ask (condition c)).lock with
    | some bound => demand (bound = l) (.twoLocks c bound l)
    | none => changeCondition c fun cond => { cond with lock := some l }
    let waiters ← ask fun k => do (← k.condition c).waiters.push t
    changeCondition c fun cond => { cond with waiters := waiters }
    let _ ← passOn l t
    say (.waits t (.condition c))
    endTurn .blocked

def reportFork : NotedM (Except Refusal Unit) := do
  let t := (← ask running).id
  match (← ask (thread t)).family.parent with
  | none => return .error .notPermitted
  | some parent =>
    match ← ask (childRecord parent t) with
    | none => return .error .notPermitted
    | some entry =>
      if entry.forked then return .error .notPermitted
      changeFamily parent fun f =>
        { f with children := f.children.insert t { entry with forked := true } }
      up entry.forkSemaphore
      return .ok ()

def awaitFork (child : ThreadId) : NotedM (Except Refusal Unit) := do
  let t := (← ask running).id
  match ← ask (childRecord t child) with
  | none => return .error .noSuchEntry
  | some entry =>
    down entry.forkSemaphore
    return .ok ()

def awaitExit (child : ThreadId) : NotedM (Except Refusal Int32) := do
  let t := (← ask running).id
  match ← collect t child with
  | .error refusal => return .error refusal
  | .ok (.exited status) => return .ok status
  | .ok .running =>
    match ← ask (childRecord t child) with
    | none => return .error .noSuchEntry
    | some entry =>
      down entry.exitSemaphore
      if (← get).current ≠ t then return .error .busy
      match ← collect t child with
      | .error refusal => return .error refusal
      | .ok (.exited status) => return .ok status
      | .ok .running => throw (.wokenEarly t child)

def spawn (name : String) (priority : Priority) (task : Option Task) :
    NotedM (Except Refusal ThreadId) := do
  checkPriority priority
  let creator := (← ask running).id
  match ← register (Name.clip name) priority (some name) task with
  | .error refusal =>
    say (.creationRefused creator (Name.clip name) refusal)
    return .error refusal
  | .ok t =>
    adopt creator t
    say (.created creator t (Name.clip name) priority)
    unblock t
    preempt
    return .ok t

def exit : NotedM Unit := do
  outsideHandler .exit
  let t := (← ask running).id
  demand (t ≠ (← get).idle) (.exitIdle t)
  match (← get).objects.heldBy t with
  | some l => throw (.exitHolding t l)
  | none => pure ()
  leaveFamily t
  say (.exits t (← ask (thread t)).name)
  masked (endTurn .dying)

def leaveHandler (was : Bool) : NotedM Unit := do
  onMachine (Machine.setHandler false)
  let pending := (← get).yieldPending
  modify fun k => { k with yieldPending := false }
  let k ← get
  if k.current = k.idle then
    endTurn .blocked
  else if pending then
    yieldNow
  onMachine (Machine.unmask was)

def handleInterrupt (handler : NotedM α) : NotedM α := do
  let was ← enterHandler
  let a ← handler
  leaveHandler was
  return a

def timerInterrupt : NotedM Unit :=
  handleInterrupt do
    let now := (← get).machine.ticks
    countTick
    countSlice
    let _ ← wakeSleepers now
    return ()

def tick : NotedM Unit := do
  let _ ← onMachine Machine.advance
  timerInterrupt

def ticks : (n : Nat) → NotedM Unit
  | 0 => pure ()
  | n + 1 => do
    tick
    ticks n

end Noted

/-! ## What the marks say -/

/-- Without its notes the step is `x`. -/
def Erases (x' : NotedM α) (x : CoreM α) : Prop := Prod.fst <$> x'.run = x

theorem Erases.lift (x : CoreM α) : Erases (liftM x) x := by
  change Prod.fst <$> (x >>= fun a => pure (a, ([] : List Mark))) = x
  simp

theorem Erases.bind {x' : NotedM α} {x : CoreM α} {g' : α → NotedM β} {g : α → CoreM β}
    (hx : Erases x' x) (hg : ∀ a, Erases (g' a) (g a)) : Erases (x' >>= g') (x >>= g) := by
  obtain rfl := hx
  obtain rfl : (fun a => Prod.fst <$> (g' a).run) = g := funext hg
  change Prod.fst <$> (x'.run >>= fun r => (g' r.1).run >>= fun q => pure (q.1, r.2 ++ q.2)) = _
  simp

section

variable {x' : NotedM α} {x : CoreM α} {a : α}

theorem Erases.apply (hx : Erases x' x) (k : Core) : x k =
    match x'.run k with
    | .ok r m => .ok r.1 m
    | .error e m => .error e m := by
  subst hx
  simp only [Functor.map, EStateM.map]
  cases x'.run k <;> rfl

/-- If the step succeeds, so does the noted step. -/
theorem Erases.run (hx : Erases x' x) (h : x k = .ok a k') : ∃ ms, x'.run k = .ok (a, ms) k' := by
  rw [hx.apply] at h
  cases hr : x'.run k with
  | ok r m =>
    rw [hr] at h
    obtain ⟨rfl, rfl⟩ := EStateM.Result.ok.inj h
    exact ⟨r.2, rfl⟩
  | error e m =>
    rw [hr] at h
    cases h

theorem Erases.ok (hx : Erases x' x) (h : x'.run k = .ok (a, ms) k') : x k = .ok a k' := by
  rw [hx.apply, h]

end

/-- The slice is not counted, and the handler flag is left alone. -/
structure Strides (k : Core) (ms : List Mark) (k' : Core) : Prop where
  handler : k'.machine.inHandler = k.machine.inHandler
  plays : Plays k.footing ms k'.footing
  beatless : ms.countP Mark.isBeat = 0

theorem strides_of_gait (h : k'.gait = k.gait) : Strides k [] k' := by
  refine ⟨congrArg Prod.snd h, ?_, rfl⟩
  rw [show k'.footing = k.footing from congrArg Prod.fst h]
  exact .done

theorem Strides.trans (h : Strides k ms m) (h' : Strides m ns k') : Strides k (ms ++ ns) k' :=
  ⟨h'.handler.trans h.handler, h.plays.append h'.plays, by
    rw [List.countP_append, h.beatless, h'.beatless]⟩

/-- The noted step is `x` with notes, which account for what it does to the footing. -/
structure Tracks (x' : NotedM α) (x : CoreM α) : Prop where
  erased : Erases x' x
  strides : ∀ k a ms k', x'.run k = .ok (a, ms) k' → Strides k ms k'

theorem Tracks.lift {x : CoreM α} (hx : Keeps gait x) : Tracks (liftM x) x := by
  refine ⟨.lift x, fun k a ms k' h => ?_⟩
  obtain ⟨hk, rfl⟩ := NotedM.run_lift_eq_ok h
  exact strides_of_gait (hx _ _ _ hk)

theorem tracks_pure (a : α) : Tracks (pure a) (pure a) := by
  constructor
  · change Prod.fst <$> (pure (a, ([] : List Mark)) : CoreM _) = pure a
    simp
  · intro k b ms k' h
    obtain ⟨h, rfl⟩ := pure_eq_ok.mp h
    cases h
    exact strides_of_gait rfl

theorem tracks_throw (e : Halt) : Tracks (throw e : NotedM α) (throw e) :=
  ⟨rfl, fun _ _ _ _ h => nomatch h⟩

theorem tracks_demand (p : Prop) [Decidable p] (e : Halt) : Tracks (demand p e) (demand p e) := by
  unfold demand
  split
  · exact tracks_pure _
  · exact tracks_throw _

namespace Tracks

variable {x' y' : NotedM α} {x y : CoreM α}

theorem bind {g' : α → NotedM β} {g : α → CoreM β} (hx : Tracks x' x)
    (hg : ∀ a, Tracks (g' a) (g a)) : Tracks (x' >>= g') (x >>= g) := by
  refine ⟨hx.erased.bind fun a => (hg a).erased, fun k b ms k' h => ?_⟩
  obtain ⟨a, ms₁, ms₂, m, hm, hrest, rfl⟩ := NotedM.run_bind_eq_ok h
  exact (hx.strides _ _ _ _ hm).trans ((hg a).strides _ _ _ _ hrest)

theorem keeps_bind {g' : α → NotedM β} {g : α → CoreM β} (hx : Keeps gait x)
    (hg : ∀ a, Tracks (g' a) (g a)) : Tracks (liftM x >>= g') (x >>= g) :=
  (lift hx).bind hg

theorem get_bind {g' : Core → NotedM β} {g : Core → CoreM β} (hg : ∀ k, Tracks (g' k) (g k)) :
    Tracks (get >>= g') (get >>= g) :=
  keeps_bind keeps_get hg

theorem ask_bind {question : Core → Except Halt α} {g' : α → NotedM β} {g : α → CoreM β}
    (hg : ∀ a, Tracks (g' a) (g a)) : Tracks (liftM (ask question) >>= g') (ask question >>= g) :=
  keeps_bind (keeps_ask _) hg

theorem demand_bind {p : Prop} [Decidable p] {e : Halt} {g' : Unit → NotedM β} {g : Unit → CoreM β}
    (hg : ∀ u, Tracks (g' u) (g u)) : Tracks (demand p e >>= g') (demand p e >>= g) :=
  (tracks_demand _ _).bind hg

theorem say_bind {n : Notice} {g' : Unit → NotedM β} {g : Unit → CoreM β}
    (hg : ∀ u, Tracks (g' u) (g u)) : Tracks (liftM (say n) >>= g') (say n >>= g) :=
  keeps_bind (aloof_gait.say n) hg

theorem outsideHandler_bind {attempt : Attempt} {g' : Unit → NotedM β} {g : Unit → CoreM β}
    (hg : ∀ u, Tracks (g' u) (g u)) :
    Tracks (liftM (outsideHandler attempt) >>= g') (outsideHandler attempt >>= g) :=
  keeps_bind (aloof_gait.discreet.outsideHandler attempt) hg

theorem masked (hx : Tracks x' x) : Tracks (Noted.masked x') (Core.masked x) :=
  keeps_bind aloof_gait.mask fun _ => hx.bind fun _ => keeps_bind (aloof_gait.unmask _) fun _ =>
    tracks_pure _

theorem ite {p : Prop} [Decidable p] (hx : p → Tracks x' x) (hy : ¬ p → Tracks y' y) :
    Tracks (if p then x' else y') (if p then x else y) := by
  split
  · exact hx ‹p›
  · exact hy ‹¬ p›

end Tracks

theorem noted_dispatch (h : Noted.dispatch.run k = .ok (u, ms) k') :
    dispatch k = .ok u k' ∧ ms = [.pass k k'] := by
  obtain ⟨_, _, hget, h⟩ := NotedM.run_lift_bind_eq_ok h
  cases hget
  obtain ⟨_, m, hm, h⟩ := NotedM.run_lift_bind_eq_ok h
  obtain ⟨_, _, hget, h⟩ := NotedM.run_lift_bind_eq_ok h
  cases hget
  obtain ⟨hnote, rfl⟩ := pure_eq_ok.mp h
  cases hnote
  exact ⟨hm, rfl⟩

theorem erases_dispatch : Erases Noted.dispatch dispatch := by
  have hnote : ∀ m, Erases (NotedM.note m) (pure ()) := fun _ => rfl
  have hnoted : Erases Noted.dispatch
      (get >>= fun _ => dispatch >>= fun _ => get >>= fun _ => pure ()) :=
    (Erases.lift get).bind fun _ => (Erases.lift dispatch).bind fun _ =>
      (Erases.lift get).bind fun _ => hnote _
  have hplain : (get >>= fun _ => dispatch >>= fun _ => get >>= fun _ => pure ()) = dispatch := by
    funext k
    rw [get_bind_eq]
    cases hd : dispatch k with
    | ok u k' => exact bind_of_ok hd
    | error e k' => exact bind_of_error hd
  exact hplain ▸ hnoted

theorem tracks_dispatch : Tracks Noted.dispatch dispatch := by
  refine ⟨erases_dispatch, fun k _ ms k' h => ?_⟩
  obtain ⟨hd, rfl⟩ := noted_dispatch h
  exact ⟨congrArg Prod.snd (dispatch_slice hd).1, .pass rfl hd .done, rfl⟩

theorem tracks_endTurn (σ : ThreadState) : Tracks (Noted.endTurn σ) (endTurn σ) :=
  .get_bind fun _ => .demand_bind fun _ => .get_bind fun _ => .ask_bind fun _ =>
    .demand_bind fun _ => .get_bind fun _ => .keeps_bind (gait_reclaim _) fun _ =>
    .keeps_bind (aloof_gait.changeThread _ _) fun _ => tracks_dispatch

theorem tracks_block : Tracks Noted.block block :=
  .outsideHandler_bind fun _ => .get_bind fun _ => .demand_bind fun _ => tracks_endTurn .blocked

theorem tracks_yieldNow : Tracks Noted.yieldNow yieldNow :=
  .outsideHandler_bind fun _ => .ask_bind fun _ => .masked <| .get_bind fun _ =>
    .ite (fun _ => tracks_endTurn .blocked) fun _ =>
      .keeps_bind (aloof_gait.enqueueReady _) fun _ => tracks_endTurn .ready

theorem gait_request (b : Bool) : Keeps gait (modify fun k => { k with yieldPending := b }) :=
  keeps_modify fun _ => rfl

theorem tracks_preempt : Tracks Noted.preempt preempt :=
  .ask_bind fun _ => .ite (fun _ => .get_bind fun _ =>
    .ite (fun _ => .lift (gait_request true)) fun _ => tracks_yieldNow) fun _ => tracks_pure ()

theorem tracks_setPriority (p : Priority) : Tracks (Noted.setPriority p) (setPriority p) :=
  .keeps_bind (keeps_demand _ _) fun _ => .ask_bind fun _ => .bind (.masked <|
    .keeps_bind (aloof_gait.changeThread _ _) fun _ =>
    .keeps_bind (aloof_gait.refreshPriority _) fun _ => tracks_pure ()) fun _ => tracks_preempt

theorem tracks_sleepUntil (tick : Nat) : Tracks (Noted.sleepUntil tick) (sleepUntil tick) :=
  .outsideHandler_bind fun _ => .ask_bind fun _ => .get_bind fun _ =>
    .ite (fun _ => tracks_pure ()) fun _ => .masked <|
      .keeps_bind (aloof_gait.changeThread _ _) fun _ => .ask_bind fun _ =>
      .keeps_bind (keeps_modify fun k => aloof_gait.sleepers k _) fun _ => .say_bind fun _ =>
      tracks_endTurn .blocked

theorem tracks_sleepFor (ticks : Nat) : Tracks (Noted.sleepFor ticks) (sleepFor ticks) :=
  .get_bind fun _ => tracks_sleepUntil _

theorem tracks_wakeSleepers (now : Nat) : Tracks (Noted.wakeSleepers now) (wakeSleepers now) :=
  .bind (.masked <| .get_bind fun _ => .lift (aloof_gait.wakeDue now _)) fun _ =>
    .ite (fun _ => tracks_preempt.bind fun _ => tracks_pure _) fun _ => tracks_pure _

theorem tracks_down (s : ObjectId) : Tracks (Noted.down s) (down s) :=
  .ask_bind fun _ => .masked <| .ask_bind fun _ =>
    .ite (fun _ => .lift (aloof_gait.changeSemaphore s _)) fun _ =>
      .outsideHandler_bind fun _ => .ask_bind fun _ =>
      .keeps_bind (aloof_gait.changeSemaphore s _) fun _ => .say_bind fun _ =>
      tracks_endTurn .blocked

theorem tracks_up (s : ObjectId) : Tracks (Noted.up s) (up s) :=
  .bind (.masked <| .lift (aloof_gait.wakeOne s)) fun _ =>
    .ite (fun _ => tracks_preempt) fun _ => tracks_pure ()

theorem tracks_acquire (l : ObjectId) : Tracks (Noted.acquire l) (acquire l) := by
  refine .outsideHandler_bind fun _ => .ask_bind fun th => .masked <| .ask_bind fun lk => ?_
  cases lk.holder with
  | none => exact .lift (aloof_gait.changeLock l _)
  | some holder =>
    exact .demand_bind fun _ => .keeps_bind (aloof_gait.waitForLock _ l _) fun _ =>
      .say_bind fun _ => tracks_endTurn .blocked

theorem tracks_release (l : ObjectId) : Tracks (Noted.release l) (release l) :=
  .ask_bind fun _ => .bind (.masked <| .lift (aloof_gait.passOn l _)) fun _ => tracks_preempt

theorem tracks_await (c l : ObjectId) : Tracks (Noted.await c l) (await c l) := by
  refine .outsideHandler_bind fun _ => .keeps_bind (aloof_gait.discreet.checkHeld _ _ _) fun _ =>
    .ask_bind fun th => .masked <| .ask_bind fun cond => ?_
  cases cond.lock with
  | some bound =>
    exact .demand_bind fun _ => .ask_bind fun _ =>
      .keeps_bind (aloof_gait.changeCondition c _) fun _ =>
      .keeps_bind (aloof_gait.passOn l _) fun _ => .say_bind fun _ => tracks_endTurn .blocked
  | none =>
    exact .keeps_bind (aloof_gait.changeCondition c _) fun _ => .ask_bind fun _ =>
      .keeps_bind (aloof_gait.changeCondition c _) fun _ =>
      .keeps_bind (aloof_gait.passOn l _) fun _ => .say_bind fun _ => tracks_endTurn .blocked

theorem tracks_reportFork : Tracks Noted.reportFork reportFork := by
  refine .ask_bind fun th => .ask_bind fun th' => ?_
  cases th'.family.parent with
  | none => exact tracks_pure _
  | some parent =>
    refine .ask_bind fun r => ?_
    cases r with
    | none => exact tracks_pure _
    | some entry =>
      exact .ite (fun _ => tracks_pure _) fun _ =>
        .keeps_bind (aloof_gait.changeFamily _ _) fun _ => (tracks_up _).bind fun _ =>
        tracks_pure _

theorem tracks_awaitFork (child : ThreadId) : Tracks (Noted.awaitFork child) (awaitFork child) := by
  refine .ask_bind fun th => .ask_bind fun r => ?_
  cases r with
  | none => exact tracks_pure _
  | some entry => exact (tracks_down _).bind fun _ => tracks_pure _

theorem tracks_awaitExit (child : ThreadId) : Tracks (Noted.awaitExit child) (awaitExit child) := by
  refine .ask_bind fun th => .keeps_bind (aloof_gait.collect _ _) fun r => ?_
  rcases r with e | status | _
  · exact tracks_pure _
  · exact tracks_pure _
  refine .ask_bind fun r => ?_
  cases r with
  | none => exact tracks_pure _
  | some entry =>
    refine (tracks_down _).bind fun _ => .get_bind fun k => .ite (fun _ => tracks_pure _) fun _ =>
      .keeps_bind (aloof_gait.collect _ _) fun r => ?_
    rcases r with e | status | _
    · exact tracks_pure _
    · exact tracks_pure _
    · exact tracks_throw _

theorem gait_register (name : String) (priority : Priority) (entry : Option String)
    (task : Option Task) : Keeps gait (register name priority entry task) := by
  have htake : Keeps gait takeStack := by
    intro k o k' h
    rcases takeStack_eq_ok h with ⟨-, -, rfl⟩ | ⟨-, -, rfl⟩ <;> rfl
  exact aloof_gait.discreet.register name priority entry task htake fun _ _ _ =>
    keeps_modify fun _ => rfl

theorem tracks_spawn (name : String) (priority : Priority) (task : Option Task) :
    Tracks (Noted.spawn name priority task) (spawn name priority task) := by
  refine .keeps_bind (keeps_demand _ _) fun _ => .ask_bind fun th =>
    .keeps_bind (gait_register _ _ _ _) fun r => ?_
  cases r with
  | error refusal => exact .say_bind fun _ => tracks_pure _
  | ok t =>
    exact .keeps_bind (aloof_gait.adopt _ _) fun _ => .say_bind fun _ =>
      .keeps_bind (aloof_gait.unblock _) fun _ => tracks_preempt.bind fun _ => tracks_pure _

theorem gait_leaveFamily (t : ThreadId) : Keeps gait (leaveFamily t) :=
  aloof_gait.discreet.leaveFamily t (fun _ _ => gait_record _) aloof_gait.changeFamily
    aloof_gait.orphan (aloof_gait.reportExit t)

theorem tracks_exit : Tracks Noted.exit exit := by
  refine .outsideHandler_bind fun _ => .ask_bind fun th => .get_bind fun _ => .demand_bind fun _ =>
    .get_bind fun k => ?_
  have hrest : Tracks
      (do
        leaveFamily th.id
        say (.exits th.id (← ask (thread th.id)).name)
        Noted.masked (Noted.endTurn .dying))
      (do
        leaveFamily th.id
        say (.exits th.id (← ask (thread th.id)).name)
        Core.masked (endTurn .dying)) :=
    .keeps_bind (gait_leaveFamily _) fun _ => .ask_bind fun _ => .say_bind fun _ =>
      .masked (tracks_endTurn .dying)
  cases k.objects.heldBy th.id with
  | some l => exact (tracks_throw _).bind fun _ => hrest
  | none => exact hrest

end Core

end ThreadCore
