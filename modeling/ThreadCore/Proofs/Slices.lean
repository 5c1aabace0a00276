import ThreadCore.Proofs.Deferral
import ThreadCore.Proofs.Passes

/-!
# Time slices

The slice is counted by the interrupts of the timer and starts anew with every dispatch. A count is
never more than the length of a slice, since the interrupt that reaches it asks for a yield, and
every return from a handler takes the request and acts on it (`Core.timerInterrupt_beats`).

So in a run that leaves the handler flag to the handlers, the count stays below the length of a
slice, and no request to yield outlives its handler. In what is noted of the run a dispatch follows
as soon as the slice was counted as often as it has ticks (`Session.logged_pace`).
-/

namespace ThreadCore

namespace Core

variable {α β : Type} {k k' m : Core} {u : Unit} {ms : List Mark}

/-! ## The timer -/

/-- The slice is counted, and a yield is asked for if it is over. -/
theorem countSlice_eq_ok : countSlice k = .ok u k' ↔ k.slice < Word.greatest ∧
    k' = { k with
      slice := k.slice + 1
      yieldPending := k.yieldPending || decide (k.config.timeSlice ≤ k.slice + 1) } := by
  unfold countSlice
  rw [get_bind_eq_ok, bind_eq_ok]
  constructor
  · rintro ⟨_, _, hs, h⟩
    obtain ⟨hlt, rfl, rfl⟩ := increment_eq_ok.mp hs
    refine ⟨hlt, ?_⟩
    rw [modify_bind_eq_ok, get_bind_eq_ok] at h
    split at h
    · rename_i hle
      rw [modify_eq_ok] at h
      simp_all
    · rename_i hle
      simp_all [(pure_eq_ok.mp h).2.symm]
  · rintro ⟨hlt, rfl⟩
    refine ⟨_, k, increment_eq_ok.mpr ⟨hlt, rfl, rfl⟩, ?_⟩
    rw [modify_bind_eq_ok, get_bind_eq_ok]
    split
    · rename_i hle
      rw [modify_eq_ok]
      simp_all
    · rename_i hle
      rw [pure_eq_ok]
      simp_all

theorem gait_countTick : Keeps gait countTick :=
  aloof_gait.discreet.countTick fun _ => keeps_modify fun _ => rfl

theorem noted_countSlice (h : Noted.countSlice.run k = .ok (u, ms) k') :
    countSlice k = .ok u k' ∧ ms = [.beat] := by
  obtain ⟨_, m, hm, hnote⟩ := NotedM.run_lift_bind_eq_ok h
  obtain ⟨hnote, rfl⟩ := pure_eq_ok.mp hnote
  cases hnote
  exact ⟨hm, rfl⟩

theorem erases_countSlice : Erases Noted.countSlice countSlice := by
  have hnote : Erases (NotedM.note .beat) (pure ()) := rfl
  have hcount : Erases Noted.countSlice (countSlice >>= fun _ => pure ()) :=
    (Erases.lift countSlice).bind fun _ => hnote
  simpa using hcount

/-- Once the handler flag is down, the return goes on like an operation outside handlers. -/
theorem leaveHandler_tracks (was : Bool) :
    ∃ (rest' : NotedM Unit) (rest : CoreM Unit), Tracks rest' rest ∧
    Noted.leaveHandler was = (liftM (onMachine (Machine.setHandler false)) >>= fun _ => rest') ∧
    leaveHandler was = (onMachine (Machine.setHandler false) >>= fun _ => rest) := by
  refine ⟨_, _, .get_bind fun _ => .keeps_bind (gait_request false) fun _ => .get_bind fun _ =>
    .ite (fun _ => ?_) fun _ => .ite (fun _ => ?_) fun _ => ?_, rfl, rfl⟩
  · exact (tracks_endTurn .blocked).bind fun _ => .lift (aloof_gait.unmask was)
  · exact tracks_yieldNow.bind fun _ => .lift (aloof_gait.unmask was)
  · exact .lift (aloof_gait.unmask was)

theorem erases_leaveHandler (was : Bool) : Erases (Noted.leaveHandler was) (leaveHandler was) := by
  obtain ⟨rest', rest, hrest, heq', heq⟩ := leaveHandler_tracks was
  rw [heq', heq]
  exact (Erases.lift _).bind fun _ => hrest.erased

/-- The return takes the request to yield and acts on it. -/
theorem leaveHandler_slice {was : Bool} (h : leaveHandler was k = .ok u k')
    (hp : k.yieldPending = true) : k'.slice = 0 := by
  unfold leaveHandler at h
  obtain ⟨_, m, hm, h⟩ := bind_eq_ok.mp h
  obtain ⟨-, rfl⟩ := setHandler_eq_ok.mp hm
  rw [get_bind_eq_ok, modify_bind_eq_ok, get_bind_eq_ok] at h
  have hreset : ∀ {x : CoreM Unit} {m : Core},
      (x >>= fun _ => onMachine (Machine.unmask was)) m = .ok u k' →
      (∀ v n, x m = .ok v n → n.slice = 0) → k'.slice = 0 := by
    intro x m h hx
    obtain ⟨_, n, hn, h⟩ := bind_eq_ok.mp h
    exact (congrArg Prod.snd (aloof_rhythm.unmask _ _ _ _ h)).trans (hx _ n hn)
  split at h
  · exact hreset h fun _ _ => endTurn_slice
  · exact hreset h fun _ _ => yieldNow_slice

theorem noted_leaveHandler {was : Bool} (h : (Noted.leaveHandler was).run k = .ok (u, ms) k') :
    k.machine.inHandler = true ∧ k'.machine.inHandler = false ∧ Plays k.footing ms k'.footing ∧
      ms.countP Mark.isBeat = 0 := by
  obtain ⟨rest', rest, hrest, heq', -⟩ := leaveHandler_tracks was
  rw [heq'] at h
  obtain ⟨_, m, hm, h⟩ := NotedM.run_lift_bind_eq_ok h
  obtain ⟨hin, rfl⟩ := setHandler_eq_ok.mp hm
  obtain ⟨hflag, hplays, hbeatless⟩ := hrest.strides _ _ _ _ h
  exact ⟨by simpa using hin, hflag, hplays, hbeatless⟩

/-- From `k` to `k'` the slice is counted `n` times, and it is not over then. -/
structure Beats (n : Nat) (k : Core) (ms : List Mark) (k' : Core) : Prop where
  plays : Plays k.footing ms k'.footing
  count : ms.countP Mark.isBeat = n
  slice : k'.slice < k'.config.timeSlice

theorem Beats.of_plays (h : Plays k.footing ms k'.footing) (hms : ms.countP Mark.isBeat = 0)
    (hk : k.slice < k.config.timeSlice) : Beats 0 k ms k' := by
  refine ⟨h, hms, ?_⟩
  have hle : k'.slice ≤ k.slice + ms.countP Mark.isBeat := h.slice_le
  have hconfig : k'.config = k.config := h.config
  rw [hms] at hle
  rw [hconfig]
  omega

/-- **The interrupt of the timer** counts the slice, and dispatches when it is over. -/
theorem timerInterrupt_beats (h : Noted.timerInterrupt.run k = .ok (u, ms) k')
    (hk : k.slice < k.config.timeSlice) :
    k.machine.inHandler = false ∧ k'.machine.inHandler = false ∧ Beats 1 k ms k' := by
  unfold Noted.timerInterrupt Noted.handleInterrupt at h
  obtain ⟨was, _, henter, h⟩ := NotedM.run_lift_bind_eq_ok h
  obtain ⟨hout, -, rfl⟩ := enterHandler_entered.mp henter
  obtain ⟨_, _, ms₃, m₃, hbody, hleave, rfl⟩ := NotedM.run_bind_eq_ok h
  obtain ⟨_, hleave, -⟩ := NotedM.run_bind_pure_eq_ok hleave
  obtain ⟨_, _, hget, hbody⟩ := NotedM.run_lift_bind_eq_ok hbody
  cases hget
  obtain ⟨_, m₁, hcount, hbody⟩ := NotedM.run_lift_bind_eq_ok hbody
  obtain ⟨_, _, ms₂, m₂, hslice, hwake, rfl⟩ := NotedM.run_bind_eq_ok hbody
  obtain ⟨hcounts, rfl⟩ := noted_countSlice hslice
  obtain ⟨_, hwake, -⟩ := NotedM.run_bind_pure_eq_ok hwake
  have hgait := gait_countTick _ _ _ hcount
  have hfoot : m₁.footing = k.footing := congrArg Prod.fst hgait
  have hslice₁ : m₁.slice = k.slice := congrArg Footing.slice hfoot
  have hconfig₁ : m₁.config = k.config := congrArg Footing.config hfoot
  obtain ⟨-, hm₂⟩ := countSlice_eq_ok.mp hcounts
  have hin : m₂.machine.inHandler = true := by
    rw [hm₂]
    exact congrArg Prod.snd hgait
  have hcounted : m₂.footing = { k.footing with slice := k.slice + 1 } := by
    rw [hm₂, ← hfoot, ← hslice₁]
    rfl
  have hwoken := (tracks_wakeSleepers _).strides _ _ _ _ hwake
  have hwatch : Watches (fun _ => False) (wakeSleepers k.entered.machine.ticks) :=
    watches_wakeSleepers _
  have hstays := (hwatch _ _ _ hin ((tracks_wakeSleepers _).erased.ok hwake)).toStays
  obtain ⟨-, hout', hleft, hbeatless⟩ := noted_leaveHandler hleave
  have hplays : Plays k.footing (.beat :: (ms₂ ++ ms₃)) k'.footing :=
    .beat hk (hcounted ▸ hwoken.plays.append hleft)
  have hbeats : (Mark.beat :: (ms₂ ++ ms₃)).countP Mark.isBeat = 1 := by
    rw [List.countP_cons_of_pos (by rfl), List.countP_append, hwoken.beatless, hbeatless]
  refine ⟨hout, hout', hplays, hbeats, ?_⟩
  have hconfig : k'.config = k.config := hplays.config
  have hle : k'.slice ≤ k.slice + 1 := hbeats ▸ hplays.slice_le
  rw [hconfig]
  by_cases hover : k.config.timeSlice ≤ k.slice + 1
  · rw [leaveHandler_slice ((erases_leaveHandler was).ok hleave)
      (hstays.pending (by simp [hm₂, hslice₁, hconfig₁, hover]))]
    omega
  · omega

theorem erases_timerInterrupt : Erases Noted.timerInterrupt timerInterrupt := by
  have hbody : ∀ now, Erases
      (do
        countTick
        Noted.countSlice
        let _ ← Noted.wakeSleepers now
        return ())
      (do
        countTick
        countSlice
        let _ ← wakeSleepers now
        return ()) := fun now =>
    (Erases.lift _).bind fun _ => erases_countSlice.bind fun _ =>
      (tracks_wakeSleepers now).erased.bind fun _ => (tracks_pure ()).erased
  exact (Erases.lift _).bind fun was => ((Erases.lift get).bind fun _ => hbody _).bind fun _ =>
    (erases_leaveHandler was).bind fun _ => (tracks_pure _).erased

theorem erases_ticks (n : Nat) : Erases (Noted.ticks n) (ticks n) := by
  induction n with
  | zero => exact (tracks_pure ()).erased
  | succ n ih =>
    exact ((Erases.lift _).bind fun _ => erases_timerInterrupt).bind fun _ => ih

theorem Beats.trans {n n' : Nat} {ms' : List Mark} (h : Beats n k ms m) (h' : Beats n' m ms' k') :
    Beats (n + n') k (ms ++ ms') k' :=
  ⟨h.plays.append h'.plays, by rw [List.countP_append, h.count, h'.count], h'.slice⟩

theorem ticks_beats {n : Nat} (h : (Noted.ticks n).run k = .ok (u, ms) k')
    (hk : k.slice < k.config.timeSlice) :
    Beats n k ms k' ∧ k'.machine.inHandler = k.machine.inHandler := by
  induction n generalizing k ms with
  | zero =>
    obtain ⟨h, rfl⟩ := pure_eq_ok.mp h
    cases h
    exact ⟨⟨.done, rfl, hk⟩, rfl⟩
  | succ n ih =>
    obtain ⟨_, ms₁, ms₂, m, htick, hrest, rfl⟩ := NotedM.run_bind_eq_ok h
    obtain ⟨_, m₁, hadvance, htimer⟩ := NotedM.run_lift_bind_eq_ok htick
    have hflag := (quiet_advance hadvance).handler
    obtain ⟨w, -, rfl⟩ := onMachine_eq_ok.mp hadvance
    obtain ⟨hout, hout', hfirst⟩ := timerInterrupt_beats htimer hk
    obtain ⟨hlater, hh⟩ := ih hrest hfirst.slice
    have hfirst : Beats 1 k ms₁ m := ⟨hfirst.plays, hfirst.count, hfirst.slice⟩
    rw [Nat.add_comm]
    exact ⟨hfirst.trans hlater, hh.trans (hout'.trans (hout.symm.trans hflag))⟩

theorem gait_advance (n : Nat) : Keeps gait (advance n) :=
  aloof_gait.discreet.advance n <| gait_onMachine fun _ _ _ h => (quiet_advance h).handler

/-! ## Booting -/

theorem rhythm_shutDown : Keeps rhythm shutDown := by
  refine aloof_rhythm.masked <|
    keeps_get.bind fun k => .bind (keeps_modify fun _ => rfl) fun _ => ?_
  exact keeps_forM (fun th => (gait_record _).rhythm.bind fun _ => (gait_onPool _).rhythm) _

theorem rhythm_boot : Keeps rhythm boot := by
  refine keeps_get.bind fun _ => (keeps_demand _ _).bind fun _ => keeps_get.bind fun _ =>
    (gait_register _ _ _ _).rhythm.bind fun main => ?_
  split
  · exact rhythm_shutDown.bind fun _ => keeps_pure _
  · refine (aloof_rhythm.changeThread _ _).bind fun _ => .bind (keeps_modify fun _ => rfl) fun _ =>
      (gait_register _ _ _ _).rhythm.bind fun idle => ?_
    split
    · exact rhythm_shutDown.bind fun _ => keeps_pure _
    · exact .bind (keeps_modify fun _ => rfl) fun _ => (aloof_rhythm.setFlag true).bind fun _ =>
        (aloof_rhythm.say _).bind fun _ => keeps_pure _

end Core

/-! ## Calls -/

/-- Whether the call may count the slice or dispatch a thread, or moves the handler flag. -/
def Call.stirs : Call → Bool
  | .create .. | .spawn .. | .exit | .yield | .block | .setPriority _ | .sleepUntil _ | .sleepFor _
  | .wakeSleepers _ | .timer | .tick _ | .setHandler _ | .down _ | .up _ | .acquire _ | .release _
  | .await .. | .reportFork | .awaitFork _ | .awaitExit _ => true
  | _ => false

/-- The interrupts of the timer that a call brings about. -/
def Call.interrupts : Call → Nat
  | .timer => 1
  | .tick n => n
  | _ => 0

/-- The interrupts of the timer in a transition. -/
def Entry.interrupts (e : Entry) : Nat :=
  match e.deed with
  | .call c _ => c.interrupts
  | _ => 0

namespace Session

open ThreadCore.Core (NotedM Erases Tracks Beats Keeps aloof_gait tracks_pure)

variable {α : Type} {s s' : Session} {a : Answer} {c : Call}

/-- The call as a step of the core. -/
def coreStep (s : Session) (c : Call) : CoreM Unit := fun k =>
  match execute c { s with core := k } with
  | .ok _ s' => .ok () s'.core
  | .error e s' => .error e s'.core

/-- What is noted with an object, if there is one. -/
def given (id : Option ObjectId) (step : ObjectId → NotedM Unit) : NotedM Unit :=
  match id with
  | some id => step id
  | none => pure ()

/-- The call with notes. Calls that neither count the slice nor end a turn leave no mark. -/
def noted (s : Session) : Call → NotedM Unit
  | .create name priority => discard (Core.Noted.spawn name priority none)
  | .spawn name priority task => discard (Core.Noted.spawn name (priority.getD .usual) task)
  | .exit => Core.Noted.exit
  | .yield => Core.Noted.yieldNow
  | .block => Core.Noted.block
  | .setPriority p => Core.Noted.setPriority p
  | .sleepUntil tick => Core.Noted.sleepUntil tick
  | .sleepFor ticks => Core.Noted.sleepFor ticks
  | .wakeSleepers now => discard (Core.Noted.wakeSleepers now)
  | .timer => Core.Noted.timerInterrupt
  | .tick n => Core.Noted.ticks n
  | .down i => given s.semaphores[i]? Core.Noted.down
  | .up i => given s.semaphores[i]? Core.Noted.up
  | .acquire i => given s.locks[i]? Core.Noted.acquire
  | .release i => given s.locks[i]? Core.Noted.release
  | .await i j => given s.conditions[i]? fun c => given s.locks[j]? fun l => Core.Noted.await c l
  | .reportFork => discard Core.Noted.reportFork
  | .awaitFork child => discard (Core.Noted.awaitFork child)
  | .awaitExit child => discard (Core.Noted.awaitExit child)
  | c => liftM (s.coreStep c)

theorem coreStep_of_ok (h : execute c s = .ok a s') : s.coreStep c s.core = .ok () s'.core := by
  unfold coreStep
  rw [h]

/-- A look is no step. -/
theorem coreStep_of_looks (h : ∀ k, Looks { s with core := k } c a) : s.coreStep c = pure () := by
  funext k
  unfold coreStep
  rw [(h k).execute]
  rfl

/-- A call that always performs the same step is that step. -/
theorem coreStep_of_performs {e : Errand α} (h : ∀ k, Performs { s with core := k } c e) :
    s.coreStep c = e.step >>= fun _ => pure () := by
  funext k
  unfold coreStep
  rw [(h k).execute]
  cases hx : e.step k with
  | ok r m =>
    rw [Errand.run_of_ok hx, bind_of_ok hx]
    exact congrArg (EStateM.Result.ok ()) (e.core_keep r _)
  | error halt m =>
    rw [Errand.run_of_error hx, bind_of_error hx]

/-- A call that stirs nothing leaves the footing and the handler flag alone. -/
theorem gait_coreStep (hc : c.stirs = false) : Keeps Core.gait (s.coreStep c) := by
  intro k _ k' h
  unfold coreStep at h
  cases he : execute c { s with core := k } with
  | error e s' =>
    rw [he] at h
    cases h
  | ok a s' =>
    rw [he] at h
    obtain rfl := (EStateM.Result.ok.inj h).2
    obtain hsame | ⟨α, e, r, hp, hx⟩ := execute_core he
    · rw [hsame]
    suffices hgait : Keeps Core.gait e.step from hgait _ _ _ hx
    cases hp with
    | unblock t => exact aloof_gait.unblock t
    | overwrite _ _ _ => exact (Core.keeps_ask _).bind fun _ => aloof_gait.changeThread _ _
    | printUsage => exact aloof_gait.write _
    | advance ticks => exact Core.gait_advance ticks
    | yieldOnReturn =>
      exact Core.keeps_get.bind fun _ => (Core.keeps_demand _ _).bind fun _ =>
        Core.gait_request true
    | openGuard => exact aloof_gait.mask
    | closeGuard _ => exact aloof_gait.unmask _
    | enableInterrupts => exact aloof_gait.setFlag true
    | disableInterrupts => exact aloof_gait.setFlag false
    | newSemaphore value => exact aloof_gait.newSemaphore value
    | newLock => exact aloof_gait.newLock
    | newCondition => exact aloof_gait.newCondition
    | tryDown _ => exact aloof_gait.tryDown _
    | destroySemaphore _ => exact aloof_gait.destroySemaphore _
    | tryAcquire _ => exact aloof_gait.tryAcquire _
    | destroyLock _ => exact aloof_gait.destroyLock _
    | signal _ _ => exact aloof_gait.signal _ _
    | broadcast _ _ => exact aloof_gait.broadcast _ _
    | destroyCondition _ => exact aloof_gait.destroyCondition _
    | setExitStatus status => exact aloof_gait.setExitStatus status
    | tryCollect child => exact aloof_gait.tryCollect child
    | print text => exact aloof_gait.write text
    | announce severity text =>
      refine Core.keeps_get.bind fun k => ?_
      split
      · exact aloof_gait.write _
      · exact Core.keeps_pure _
    | log severity text => exact aloof_gait.writeLine severity text
    | setThreshold _ | setQuiet _ => exact Core.keeps_modify fun _ => rfl
    | ask _ => exact Core.keeps_ask _
    | _ => cases hc

theorem tracks_discard {x' : NotedM α} {e : Errand α} (h : ∀ k, Performs { s with core := k } c e)
    (hx : Tracks x' e.step) : Tracks (discard x') (s.coreStep c) := by
  rw [coreStep_of_performs h]
  exact hx.bind fun _ => tracks_pure ()

theorem coreStep_of_act {x : CoreM Unit} (h : ∀ k, Performs { s with core := k } c (.act x)) :
    s.coreStep c = x := by
  have hunit : (x >>= fun _ => pure ()) = x := by simp
  exact (coreStep_of_performs h).trans hunit

theorem tracks_act {x' : NotedM Unit} {x : CoreM Unit}
    (h : ∀ k, Performs { s with core := k } c (.act x)) (hx : Tracks x' x) :
    Tracks x' (s.coreStep c) :=
  (coreStep_of_act h).symm ▸ hx

theorem tracks_given {handles : Array ObjectId} {i : Nat} {x' : ObjectId → NotedM Unit}
    (hnone : handles[i]? = none → ∀ k, Lacks { s with core := k } c)
    (hsome : ∀ id, handles[i]? = some id → Tracks (x' id) (s.coreStep c)) :
    Tracks (given handles[i]? x') (s.coreStep c) := by
  cases hi : handles[i]? with
  | none =>
    rw [coreStep_of_looks fun k => .misused (hnone hi k)]
    exact tracks_pure ()
  | some id => exact hsome id hi

/-- What is noted of a call accounts for all that it does to the footing. -/
theorem tracks_noted (s : Session) (hc : ∀ on, c ≠ .setHandler on) (ht : c ≠ .timer)
    (hts : ∀ n, c ≠ .tick n) : Tracks (s.noted c) (s.coreStep c) := by
  cases c with
  | create _ _ => exact tracks_discard (fun _ => .create _ _) (Core.tracks_spawn _ _ _)
  | spawn _ _ _ => exact tracks_discard (fun _ => .spawn _ _ _) (Core.tracks_spawn _ _ _)
  | exit => exact tracks_act (fun _ => .exit) Core.tracks_exit
  | yield => exact tracks_act (fun _ => .yield) Core.tracks_yieldNow
  | block => exact tracks_act (fun _ => .block) Core.tracks_block
  | setPriority p => exact tracks_act (fun _ => .setPriority p) (Core.tracks_setPriority p)
  | sleepUntil tick => exact tracks_act (fun _ => .sleepUntil tick) (Core.tracks_sleepUntil tick)
  | sleepFor ticks => exact tracks_act (fun _ => .sleepFor ticks) (Core.tracks_sleepFor ticks)
  | wakeSleepers now =>
    exact tracks_discard (fun _ => .wakeSleepers now) (Core.tracks_wakeSleepers now)
  | timer => exact absurd rfl ht
  | tick n => exact absurd rfl (hts n)
  | setHandler on => exact absurd rfl (hc on)
  | down i =>
    exact tracks_given (fun hi _ => hi) fun id hi =>
      tracks_act (fun _ => .down hi) (Core.tracks_down id)
  | up i =>
    exact tracks_given (fun hi _ => hi) fun id hi =>
      tracks_act (fun _ => .up hi) (Core.tracks_up id)
  | acquire i =>
    exact tracks_given (fun hi _ => hi) fun id hi =>
      tracks_act (fun _ => .acquire hi) (Core.tracks_acquire id)
  | release i =>
    exact tracks_given (fun hi _ => hi) fun id hi =>
      tracks_act (fun _ => .release hi) (Core.tracks_release id)
  | await i j =>
    exact tracks_given (fun hi _ => .inl hi) fun v hi => tracks_given (fun hj _ => .inr hj)
      fun l hj => tracks_act (fun _ => .await hi hj) (Core.tracks_await v l)
  | reportFork => exact tracks_discard (fun _ => .reportFork) Core.tracks_reportFork
  | awaitFork child =>
    exact tracks_discard (fun _ => .awaitFork child) (Core.tracks_awaitFork child)
  | awaitExit child =>
    exact tracks_discard (fun _ => .awaitExit child) (Core.tracks_awaitExit child)
  | _ => exact .lift (gait_coreStep rfl)

/-- Without its notes a noted call is the call. -/
theorem erases_noted (s : Session) (c : Call) : Erases (s.noted c) (s.coreStep c) := by
  cases c with
  | timer =>
    rw [coreStep_of_act fun _ => .timer]
    exact Core.erases_timerInterrupt
  | tick n =>
    rw [coreStep_of_act fun _ => .tick n]
    exact Core.erases_ticks n
  | setHandler on => exact .lift _
  | _ => exact Tracks.erased <| tracks_noted s (fun _ => nofun) nofun fun _ => nofun

/-- **Calls.** A call counts the slice once for each interrupt of the timer, and notes it. -/
theorem execute_beats (hc : ∀ on, c ≠ .setHandler on) (hs : s.core.slice < s.core.config.timeSlice)
    (h : execute c s = .ok a s') : ∃ ms, (s.noted c).run s.core = .ok ((), ms) s'.core ∧
      Beats c.interrupts s.core ms s'.core ∧
        s'.core.machine.inHandler = s.core.machine.inHandler := by
  by_cases ht : c = .timer
  · subst ht
    obtain ⟨_, k, hk, rfl⟩ := act_eq_ok h
    obtain ⟨ms, hrun⟩ := Core.erases_timerInterrupt.run hk
    obtain ⟨hout, hout', hbeats⟩ := Core.timerInterrupt_beats hrun hs
    exact ⟨ms, hrun, hbeats, hout'.trans hout.symm⟩
  by_cases hts : ∃ n, c = .tick n
  · obtain ⟨n, rfl⟩ := hts
    obtain ⟨_, k, hk, rfl⟩ := act_eq_ok h
    obtain ⟨ms, hrun⟩ := (Core.erases_ticks n).run hk
    exact ⟨ms, hrun, Core.ticks_beats hrun hs⟩
  have hnone : c.interrupts = 0 := by
    unfold Call.interrupts
    split
    · exact absurd rfl ht
    · exact absurd ⟨_, rfl⟩ hts
    · rfl
  have htracks := tracks_noted s hc ht (fun n hn => hts ⟨n, hn⟩)
  obtain ⟨ms, hrun⟩ := htracks.erased.run (coreStep_of_ok h)
  have hstrides := htracks.strides _ _ _ _ hrun
  rw [hnone]
  exact ⟨ms, hrun, .of_plays hstrides.plays hstrides.beatless hs, hstrides.handler⟩

end Session

/-! ## Runs -/

namespace Entry

open ThreadCore.Core (NotedM Mark Plays Erases)

variable {e : Entry} {ms : List Mark}

/-- The transition as a step of the core. -/
def step (e : Entry) : CoreM Unit :=
  match e.deed with
  | .call c _ => e.before.coreStep c
  | .enter _ => discard Core.enterHandler
  | .leave was => Core.leaveHandler was

/-- The transition with notes. -/
def noted (e : Entry) : NotedM Unit :=
  match e.deed with
  | .call c _ => e.before.noted c
  | .enter _ => discard (liftM Core.enterHandler)
  | .leave was => Core.Noted.leaveHandler was

def marks (e : Entry) : List Mark :=
  match e.noted.run e.before.core with
  | .ok (_, ms) _ => ms
  | .error _ _ => []

/-- The transition does what its marks say. -/
structure Marked (e : Entry) : Prop where
  /-- Without its notes the noted transition is the transition. -/
  erased : Erases e.noted e.step
  /-- The marks are those that it leaves. -/
  run : e.noted.run e.before.core = .ok ((), e.marks) e.after.core
  /-- The interrupts of the timer count the slice, and nothing else does. -/
  count : e.marks.countP Mark.isBeat = e.interrupts
  plays : Plays e.before.core.footing e.marks e.after.core.footing

theorem erases (e : Entry) : Erases e.noted e.step := by
  obtain ⟨s, d, s'⟩ := e
  cases d with
  | call c a => exact Session.erases_noted s c
  | enter was => exact (Erases.lift _).bind fun _ => (Core.tracks_pure ()).erased
  | leave was => exact Core.erases_leaveHandler was

theorem marks_of_run (h : e.noted.run e.before.core = .ok ((), ms) e.after.core) :
    e.marks = ms := by
  unfold marks
  rw [h]

end Entry

/-- The marks of a log, the earliest first. -/
def marksOf : List Entry → List Core.Mark
  | [] => []
  | e :: log => marksOf log ++ e.marks

namespace Session

open ThreadCore.Core (Footing Mark Plays Beats)

variable {s s' : Session} {log : List Entry} {frames : List Bool}

/-- The count of the slice, and what is noted of the run. -/
structure Sliced (log : List Entry) (frames : List Bool) (s : Session) : Prop where
  slice : s.core.slice < s.core.config.timeSlice
  handler : s.core.machine.inHandler = !frames.isEmpty
  depth : frames.length ≤ 1
  marked : ∀ e ∈ log, e.Marked
  plays : ∃ f, Plays f (marksOf log) s.core.footing

theorem Sliced.step {frames' : List Bool} {d : Deed} {ms : List Mark} (hs : Sliced log frames s)
    (hrun : (Entry.noted ⟨s, d, s'⟩).run s.core = .ok ((), ms) s'.core)
    (hb : Beats (Entry.interrupts ⟨s, d, s'⟩) s.core ms s'.core)
    (hh : s'.core.machine.inHandler = !frames'.isEmpty) (hdepth : frames'.length ≤ 1) :
    Sliced (⟨s, d, s'⟩ :: log) frames' s' := by
  have hmarks : Entry.marks ⟨s, d, s'⟩ = ms := Entry.marks_of_run hrun
  obtain ⟨f, hplays⟩ := hs.plays
  refine ⟨hb.slice, hh, hdepth, fun e he => ?_, f, ?_⟩
  · rcases List.mem_cons.mp he with rfl | he
    · exact ⟨Entry.erases _, hmarks.symm ▸ hrun, hmarks.symm ▸ hb.count, hmarks.symm ▸ hb.plays⟩
    · exact hs.marked e he
  · rw [marksOf, hmarks]
    exact hplays.append hb.plays

theorem Logged.sliced (h : Logged (fun _ _ c => ∀ on, c ≠ .setHandler on) log frames s) :
    Sliced log frames s := by
  induction h with
  | @boot setup config k hb hk =>
    have hrhythm := Core.rhythm_boot _ _ _ hk
    have hslice : k.slice = 0 := congrArg Prod.snd hrhythm
    have hconfig : k.config = config := congrArg (fun x => x.1.1) hrhythm
    have hlt : k.slice < k.config.timeSlice := by
      rw [hslice, hconfig]
      exact Nat.pos_of_ne_zero (Config.valid_of_build hb).1
    exact ⟨hlt, congrArg (fun x => x.1.2) hrhythm, Nat.zero_le 1,
      fun _ he => absurd he List.not_mem_nil, k.footing, .done⟩
  | call _ hc he ih =>
    obtain ⟨ms, hrun, hbeats, hflag⟩ := execute_beats hc ih.slice he
    exact ih.step hrun hbeats (hflag.trans ih.handler) ih.depth
  | @enter log frames s s' was _ he ih =>
    obtain ⟨k, hk, rfl⟩ := onCore_eq_ok.mp he
    obtain ⟨hout, -, rfl⟩ := Core.enterHandler_entered.mp hk
    have hempty : frames = [] := by
      have : (!frames.isEmpty) = false := ih.handler.symm.trans hout
      simpa using this
    subst hempty
    exact ih.step (bind_of_ok (bind_of_ok hk)) ⟨.done, rfl, ih.slice⟩ rfl le_rfl
  | @leave log frames s s' was a _ he ih =>
    obtain ⟨_, k, hk, rfl⟩ := act_eq_ok he
    obtain ⟨ms, hrun⟩ := (Core.erases_leaveHandler was).run hk
    obtain ⟨-, hout, hplays, hbeatless⟩ := Core.noted_leaveHandler hrun
    obtain rfl : frames = [] :=
      List.length_eq_zero_iff.mp (Nat.le_zero.mp (Nat.le_of_succ_le_succ ih.depth))
    exact ih.step hrun (.of_plays hplays hbeatless ih.slice) hout (Nat.zero_le 1)

/-- How a run counts its slices. -/
structure Paced (log : List Entry) (frames : List Bool) (s : Session) : Prop where
  slice : s.core.slice < s.core.config.timeSlice
  /-- Nobody has asked for a yield when no handler runs. -/
  pending : frames = [] → s.core.yieldPending = false
  /-- Nor when one is entered. -/
  fresh : ∀ was s', onCore Core.enterHandler s = .ok was s' → s'.core.yieldPending = false
  /-- The timer can count the slice, whose length is a word. -/
  countable : s.core.config.timeSlice ≤ Word.greatest → ∀ was k k',
    Core.enterHandler s.core = .ok was k → Core.countTick k = .ok () k' →
      ∃ k'', Core.countSlice k' = .ok () k''
  marked : ∀ e ∈ log, e.Marked
  /-- When the slice was counted as often as it has ticks, a thread is dispatched at once. -/
  passes : ∀ earlier later,
    marksOf log = earlier ++ List.replicate s.core.config.timeSlice .beat ++ later →
      ∃ k k' rest, later = .pass k k' :: rest

/-- **Slices.** In a run that leaves the handler flag to the handlers, the count of the slice is
always below its length, no request to yield outlives its handler, and no thread stays dispatched
through as many interrupts of the timer as the slice has ticks without a pass through the
selector. -/
theorem logged_pace (h : Logged (fun _ _ c => ∀ on, c ≠ .setHandler on) log frames s) :
    Paced log frames s := by
  have hsliced := h.sliced
  have hreach : Reached (fun _ c => ∀ on, c ≠ .setHandler on) frames s :=
    h.reached fun _ _ _ hc => hc
  have hclear : s.core.machine.inHandler = false → s.core.yieldPending = false := fun hh =>
    (hreach.clear hh).pending
  refine ⟨hsliced.slice, fun hframes => hclear (hsliced.handler.trans (by rw [hframes]; rfl)),
    fun was s' he => ?_, fun hword was k k' he hcount => ?_, hsliced.marked,
      fun earlier later heq => ?_⟩
  · obtain ⟨k, hk, rfl⟩ := onCore_eq_ok.mp he
    obtain ⟨hout, -, rfl⟩ := Core.enterHandler_entered.mp hk
    exact hclear hout
  · obtain ⟨-, -, rfl⟩ := Core.enterHandler_entered.mp he
    have hslice : k'.slice = s.core.slice := congrArg (·.1.slice) (Core.gait_countTick _ _ _ hcount)
    exact ⟨_,
      Core.countSlice_eq_ok.mpr ⟨by rw [hslice]; exact lt_of_lt_of_le hsliced.slice hword, rfl⟩⟩
  · obtain ⟨f, hplays⟩ := hsliced.plays
    rw [heq] at hplays
    obtain ⟨g', hfirst, hrest⟩ := hplays.of_append
    obtain ⟨g, -, hbeats⟩ := hfirst.of_append
    obtain rfl := hbeats.beats
    have hconfig : s.core.config = g.config := hrest.config
    rw [hconfig] at hrest
    -- The slice is over after so many counts, so neither another count nor the end of the run is
    -- next.
    generalize hend : s.core.footing = last at hrest
    cases hrest with
    | done =>
      have hslice : s.core.slice = g.slice + g.config.timeSlice := congrArg Footing.slice hend
      have hlt := hsliced.slice
      rw [hconfig] at hlt
      omega
    | beat hlt _ =>
      have hlt : g.slice + g.config.timeSlice < g.config.timeSlice := hlt
      omega
    | pass _ _ _ => exact ⟨_, _, _, rfl⟩

/-- With slices of two ticks, five ticks of two threads take two dispatches, and leave the count at
one. -/
theorem logged_pace_five : ∃ log s, Logged (fun _ _ c => ∀ on, c ≠ .setHandler on) log [] s ∧
    (marksOf log).map Mark.isBeat = [true, true, false, true, true, false, true] ∧
    s.core.config.timeSlice = 2 ∧ s.core.slice = 1 ∧ Paced log [] s := by
  have hrun : (replayFrom (fun _ _ c => !isDelicate c) ⟨some 2, none, none, false, none⟩
      [.create "other" 31, .tick 3, .timer, .timer]).any (fun r =>
        (marksOf r.1).map Mark.isBeat = [true, true, false, true, true, false, true] ∧
          r.2.core.config.timeSlice = 2 ∧ r.2.core.slice = 1) = true := by
    decide +kernel
  obtain ⟨⟨log, s⟩, hs, hrun⟩ := (Option.any_eq_true _ _).mp hrun
  obtain ⟨hmarks, hlength, hslice⟩ := of_decide_eq_true hrun
  have hlog : Logged (fun _ _ c => ∀ on, c ≠ .setHandler on) log [] s :=
    logged_replayFrom (fun _ _ c hc on h => by subst h; cases hc) hs
  exact ⟨log, s, hlog, hmarks, hlength, hslice, logged_pace hlog⟩

end Session

end ThreadCore
