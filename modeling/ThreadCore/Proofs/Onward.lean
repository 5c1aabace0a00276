import ThreadCore.Proofs.Courses
import ThreadCore.Proofs.Deadlock
import ThreadCore.Proofs.Histories

/-!
# What comes later

Every call of a session amounts to a course of its core, and so does entering or leaving a handler.
One that halts has got by a course to where it halts, or to a move that halts midway.

`Session.Later s s'` says that a run can get from `s` to `s'`, by calls of any kind and by entering
and leaving handlers. Every state of a run comes later than that after booting (`Reached.later`),
and between the two lies a course of the core (`Later.course`).
-/

namespace ThreadCore.Session

open Relation (ReflTransGen)
open ThreadCore.Core (Course Move Fault)

variable {α : Type} {s s' s'' : Session} {a : Answer} {c : Call} {d : Deed}

/-! ## Operations of a session -/

/-- **Calls.** Every step that a call performs makes moves of the core. -/
theorem Performs.makes {e : Errand α} (h : s.Performs c e) : Core.MakesAt Move e.step s.core := by
  cases h with
  | ask _ => exact Core.makes_ask _ _
  | create _ _ | spawn _ _ _ => exact Core.makes_spawn _ _ _ _
  | exit => exact Core.makes_exit _
  | yield => exact Core.makes_yieldNow _
  | block => exact Core.makes_block _
  | unblock t => exact (Core.makes_unblock t).moves _
  | setPriority p => exact Core.makes_setPriority p _
  | @overwrite t th offset byte ht =>
    refine .ask_bind fun stack hstack => .of_ok (fun _ _ hx => ?_) fun _ _ hx => ?_
    · rw [(Core.changeThread_eq_ok.mp hx).2]
      exact .single (.act (.overwrite t th stack ht (Page.frame_writeByte hstack)))
    · rcases bind_eq_error.mp hx with hx | ⟨_, _, -, hx⟩
      · exact (Core.ask_eq_error_iff.mp hx).2
      · cases hx
  | printUsage | print _ => exact (Core.makes_write _).moves _
  | log _ _ => exact (Core.makes_writeLine _ _).moves _
  | announce _ _ =>
    refine .get_bind ?_
    split
    · exact (Core.makes_write _).moves _
    · exact Core.makes_pure _ _
  | setThreshold _ | setQuiet _ =>
    exact Core.makes_modify (fun k =>
      .act (.clerical k.machine _ k.usage k.journal.output k.slice k.yieldPending rfl rfl rfl)) _
  | sleepUntil tick => exact Core.makes_sleepUntil tick _
  | sleepFor ticks => exact Core.makes_sleepFor ticks _
  | wakeSleepers now => exact Core.makes_wakeSleepers now _
  | advance ticks => exact (Core.makes_advances ticks).moves _
  | timer => exact Core.makes_timerInterrupt _
  | tick n => exact Core.makes_ticks n _
  | yieldOnReturn => exact Core.makes_yieldOnReturn.moves _
  | openGuard => exact Core.makes_mask.moves _
  | closeGuard _ => exact (Core.makes_unmask _).moves _
  | enableInterrupts => exact (Core.makes_withInterrupts true).moves _
  | disableInterrupts => exact (Core.makes_withInterrupts false).moves _
  | setHandler on => exact Core.makes_setHandler on _
  | newSemaphore value => exact (Core.makes_newSemaphore value).moves _
  | down _ => exact Core.makes_down _ _
  | tryDown _ => exact (Core.makes_tryDown _).moves _
  | up _ => exact Core.makes_up _ _
  | destroySemaphore _ => exact (Core.makes_destroySemaphore _).moves _
  | newLock => exact Core.makes_newLock.moves _
  | acquire _ => exact Core.makes_acquire _ _
  | tryAcquire _ => exact (Core.makes_tryAcquire _).moves _
  | release _ => exact Core.makes_release _ _
  | destroyLock _ => exact (Core.makes_destroyLock _).moves _
  | newCondition => exact Core.makes_newCondition.moves _
  | await _ _ => exact Core.makes_await _ _ _
  | signal _ _ => exact (Core.makes_signal _ _).moves _
  | broadcast _ _ => exact (Core.makes_broadcast _ _).moves _
  | destroyCondition _ => exact (Core.makes_destroyCondition _).moves _
  | setExitStatus status => exact (Core.makes_setExitStatus status).moves _
  | reportFork => exact Core.makes_reportFork _
  | awaitFork child => exact Core.makes_awaitFork child _
  | awaitExit child => exact Core.makes_awaitExit child _
  | tryCollect child => exact (Core.makes_tryCollect child).moves _

theorem Leads.course (h : Leads s d s') : Course s.core s'.core := by
  cases h with
  | call he =>
    obtain hsame | ⟨α, e, r, hp, hx⟩ := execute_core he
    · rw [hsame]
    · exact hp.makes.ok r _ hx
  | enter he =>
    obtain ⟨k, hk, rfl⟩ := onCore_eq_ok.mp he
    exact (Core.makes_enterHandler _).ok _ _ hk
  | leave he =>
    obtain ⟨_, k, hk, rfl⟩ := act_eq_ok he
    exact (Core.makes_leaveHandler _ _).ok _ _ hk

/-- An operation halts, or the handler of one is entered or left and that halts. -/
inductive Fails (s : Session) : Halt → Session → Prop
  | call {c : Call} {e : Halt} {s' : Session} : execute c s = .error e s' → Fails s e s'
  | enter {e : Halt} {s' : Session} : onCore Core.enterHandler s = .error e s' → Fails s e s'
  | leave {was : Bool} {e : Halt} {s' : Session} : act (Core.leaveHandler was) s = .error e s' →
      Fails s e s'

theorem Fails.course {e : Halt} (h : Fails s e s') :
    Course s.core s'.core ∨ ∃ m, Course s.core m ∧ Fault m e s'.core := by
  cases h with
  | call he =>
    obtain ⟨α, x, k, hp, hx, rfl⟩ := execute_error he
    exact hp.makes.halts _ k hx
  | enter he =>
    obtain ⟨k, hk, rfl⟩ := onCore_eq_error.mp he
    exact (Core.makes_enterHandler _).halts _ k hk
  | leave he =>
    obtain ⟨k, hk, rfl⟩ := Errand.run_eq_error ((report_eq _ _).symm.trans he)
    exact (Core.makes_leaveHandler _ _).halts _ k hk

/-! ## Later states -/

/-- A run can get from `s` to `s'`. -/
def Later : Session → Session → Prop := ReflTransGen fun s s' => ∃ d, Leads s d s'

theorem Later.refl (s : Session) : Later s s := ReflTransGen.refl

theorem Later.next (h : Later s s') (hd : Leads s' d s'') : Later s s'' :=
  ReflTransGen.tail h ⟨d, hd⟩

theorem Later.course (h : Later s s') : Course s.core s'.core := by
  induction h with
  | refl => exact .refl
  | tail _ h ih =>
    obtain ⟨d, hd⟩ := h
    exact ih.trans hd.course

/-- What holds in a state and stays true over every transition holds later. -/
theorem Later.invariant {P : Session → Prop} (h : Later s s') (hs : P s)
    (hstep : ∀ s d s', P s → Leads s d s' → P s') : P s' := by
  induction h with
  | refl => exact hs
  | tail _ h ih =>
    obtain ⟨d, hd⟩ := h
    exact hstep _ d _ ih hd

/-- Every state of a run comes later than that after booting. -/
theorem Reached.later {allowed : Session → Call → Prop} {frames : List Bool}
    (h : Reached allowed frames s) :
    ∃ (setup : Setup) (config : Config) (k : Core),
      Config.build setup.timeSlice setup.mainPriority = .ok config ∧
      Core.boot (setup.core config) = .ok (.ok ()) k ∧ Later (.ofCore k) s := by
  induction h with
  | boot hb hk => exact ⟨_, _, _, hb, hk, .refl _⟩
  | call _ _ he ih =>
    obtain ⟨setup, config, k, hb, hk, hl⟩ := ih
    exact ⟨setup, config, k, hb, hk, hl.next (.call he)⟩
  | enter _ he ih =>
    obtain ⟨setup, config, k, hb, hk, hl⟩ := ih
    exact ⟨setup, config, k, hb, hk, hl.next (.enter he)⟩
  | leave _ he ih =>
    obtain ⟨setup, config, k, hb, hk, hl⟩ := ih
    exact ⟨setup, config, k, hb, hk, hl.next (.leave he)⟩

/-- So does the state after calls that are replayed. -/
theorem later_replay {check : List Entry → Session → Call → Bool} {log log' : List Entry}
    {cs : List Call} (h : replay check log s cs = some (log', s')) : Later s s' := by
  induction cs generalizing log s with
  | nil =>
    obtain ⟨-, rfl⟩ := Prod.mk.inj (Option.some.inj h)
    exact .refl s
  | cons c cs ih =>
    unfold replay at h
    split at h
    · split at h
      · rename_i he
        exact ReflTransGen.head ⟨_, .call he⟩ (ih h)
      · cases h
    · cases h

theorem later_replayFrom {check : List Entry → Session → Call → Bool} {setup : Setup}
    {log : List Entry} {cs : List Call} (h : replayFrom check setup cs = some (log, s)) :
    ∃ (config : Config) (k : Core), Core.boot (setup.core config) = .ok (.ok ()) k ∧
      Later (.ofCore k) s := by
  unfold replayFrom at h
  split at h
  · cases h
  · split at h
    · rename_i hk
      exact ⟨_, _, hk, later_replay h⟩
    · cases h

end ThreadCore.Session
