import ThreadCore.Proofs.Runs

/-!
# Histories

What a run has done so far. `Session.Logged` are the states of a run together with the log of its
transitions: the calls with their answers, and the handlers that were entered and left. What the log
says of the past, such as the last call of a thread or the number of calls of a kind, can so be
compared with the state, and what a run may call next may depend on its past.

The log has the latest transition first. A run with a log is a run as before (`Logged.reached`), and
every run has a log (`Reached.exists_log`).
-/

namespace ThreadCore

/-- A transition of a run. -/
inductive Deed
  | call (call : Call) (answer : Answer)
  /-- A handler is entered; `was` says whether interrupts were enabled. -/
  | enter (was : Bool)
  | leave (was : Bool)
deriving DecidableEq, Repr

/-- A transition with the states around it. -/
structure Entry where
  before : Session
  deed : Deed
  after : Session

/-- The thread in whose name the transition took place. -/
def Entry.caller (e : Entry) : ThreadId := e.before.core.current

namespace Session

variable {s s' : Session} {c : Call} {a : Answer} {d : Deed} {e : Entry} {log : List Entry}
  {frames : List Bool}

/-- The transition leads from `s` to another state. -/
inductive Leads (s : Session) : Deed → Session → Prop
  | call {c : Call} {a : Answer} {s' : Session} : execute c s = .ok a s' → Leads s (.call c a) s'
  | enter {was : Bool} {s' : Session} : onCore Core.enterHandler s = .ok was s' →
      Leads s (.enter was) s'
  | leave {was : Bool} {a : Answer} {s' : Session} : act (Core.leaveHandler was) s = .ok a s' →
      Leads s (.leave was) s'

/-- The states of a run with its log, if each call is allowed when it is made. The list has an entry
for each handler that was entered and not left. -/
inductive Logged (allowed : List Entry → Session → Call → Prop) :
    List Entry → List Bool → Session → Prop
  | boot {setup : Setup} {config : Config} {k : Core} :
      Config.build setup.timeSlice setup.mainPriority = .ok config →
      Core.boot (setup.core config) = .ok (.ok ()) k → Logged allowed [] [] (.ofCore k)
  | call {log : List Entry} {frames : List Bool} {s s' : Session} {c : Call} {a : Answer} :
      Logged allowed log frames s → allowed log s c → execute c s = .ok a s' →
      Logged allowed (⟨s, .call c a, s'⟩ :: log) frames s'
  | enter {log : List Entry} {frames : List Bool} {s s' : Session} {was : Bool} :
      Logged allowed log frames s → onCore Core.enterHandler s = .ok was s' →
      Logged allowed (⟨s, .enter was, s'⟩ :: log) (was :: frames) s'
  | leave {log : List Entry} {frames : List Bool} {s s' : Session} {was : Bool} {a : Answer} :
      Logged allowed log (was :: frames) s → act (Core.leaveHandler was) s = .ok a s' →
      Logged allowed (⟨s, .leave was, s'⟩ :: log) frames s'

section

variable {allowed : List Entry → Session → Call → Prop}

/-- A run with a log is a run. -/
theorem Logged.reached {permitted : Session → Call → Prop}
    (hall : ∀ log s c, allowed log s c → permitted s c) (h : Logged allowed log frames s) :
    Reached permitted frames s := by
  induction h with
  | boot hb hk => exact .boot hb hk
  | call _ ha he ih => exact ih.call (hall _ _ _ ha) he
  | enter _ he ih => exact ih.enter he
  | leave _ he ih => exact ih.leave he

/-- A run has a log. -/
theorem Reached.exists_log {permitted : Session → Call → Prop} (h : Reached permitted frames s) :
    ∃ log, Logged (fun _ => permitted) log frames s := by
  induction h with
  | boot hb hk => exact ⟨[], .boot hb hk⟩
  | call _ ha he ih =>
    obtain ⟨log, hlog⟩ := ih
    exact ⟨_, hlog.call ha he⟩
  | enter _ he ih =>
    obtain ⟨log, hlog⟩ := ih
    exact ⟨_, hlog.enter he⟩
  | leave _ he ih =>
    obtain ⟨log, hlog⟩ := ih
    exact ⟨_, hlog.leave he⟩

/-- What holds after booting and stays true over every transition holds in every state of a run. -/
theorem Logged.invariant {P : List Entry → Session → Prop}
    (hboot : ∀ (setup : Setup) config k,
      Config.build setup.timeSlice setup.mainPriority = .ok config →
      Core.boot (setup.core config) = .ok (.ok ()) k → P [] (.ofCore k))
    (hstep : ∀ log frames s d s', Logged allowed log frames s → P log s → Leads s d s' →
      (∀ c a, d = .call c a → allowed log s c) → P (⟨s, d, s'⟩ :: log) s')
    (h : Logged allowed log frames s) : P log s := by
  induction h with
  | boot hb hk => exact hboot _ _ _ hb hk
  | call h ha he ih =>
    refine hstep _ _ _ _ _ h ih (.call he) ?_
    rintro c a hd
    cases hd
    exact ha
  | enter h he ih =>
    refine hstep _ _ _ _ _ h ih (.enter he) ?_
    rintro c a hd
    cases hd
  | leave h he ih =>
    refine hstep _ _ _ _ _ h ih (.leave he) ?_
    rintro c a hd
    cases hd

end

/-! ## Disciplines -/

/-- The call does not unblock a thread that sleeps or is in the queue of an object. -/
def Loose (s : Session) (c : Call) : Prop :=
  ∀ t, c = .unblock t → t ∉ s.core.sleepers ∧ ∀ e ∈ s.core.objects.waitLists, t ∉ e.2

/-- Nor does the idle thread wait. -/
structure Considerate (s : Session) (c : Call) : Prop where
  loose : Loose s c
  idle : s.core.current = s.core.idle → ¬ s.Queues c

theorem Loose.plain (hc : isDelicate c = false) : Loose s c := by
  rintro t rfl
  cases hc

/-- A call that is plain, made by a thread other than the idle one, is considerate. -/
theorem Considerate.plain (hc : isDelicate c = false) (hi : s.core.current ≠ s.core.idle) :
    Considerate s c :=
  ⟨.plain hc, fun h => absurd h hi⟩

theorem leads_inOrder {pristine : Bool} (hk : s.core.InOrder pristine) (h : Leads s d s')
    (hcall : ∀ c a, d = .call c a → execute c s = .ok a s' → s'.core.InOrder pristine) :
    s'.core.InOrder pristine := by
  cases h with
  | call he => exact hcall _ _ rfl he
  | enter he =>
    obtain ⟨k, hk', rfl⟩ := onCore_eq_ok.mp he
    exact (hk.enterHandler hk').2.1.inOrder rfl rfl
  | leave he =>
    obtain ⟨_, k, hk', rfl⟩ := act_eq_ok he
    exact (hk.leaveHandler rfl hk').2.1.inOrder rfl rfl

/-- A considerate call keeps the rules, up to canaries. -/
theorem Considerate.inOrder (hd : Considerate s c) (hk : s.core.InOrder false)
    (h : execute c s = .ok a s') : s'.core.InOrder false := by
  by_cases hc : isDelicate c = true
  · cases c with
    | unblock t => exact inOrder_unblock hk (hd.loose t rfl).1 (hd.loose t rfl).2 h
    | setHandler on => exact inOrder_setHandler hk h
    | overwrite t offset byte => exact (overwrite_serves hk h).inOrder
    | _ => cases hc
  · exact (execute_serves hk hd.idle (Bool.not_eq_true _ ▸ hc) h).inOrder

/-- Every state of a considerate run obeys the rules, up to canaries. -/
theorem Logged.inOrder {allowed : List Entry → Session → Call → Prop}
    (hall : ∀ log s c, allowed log s c → Considerate s c) (h : Logged allowed log frames s) :
    s.core.InOrder false :=
  h.invariant (P := fun _ s => s.core.InOrder false)
    (fun _ _ _ _ hk => inOrder_weaken (reached_boot hk).1)
    fun _ _ _ _ _ _ ih hd ha => leads_inOrder ih hd fun c a hda he =>
      (hall _ _ c (ha c a hda)).inOrder ih he

/-! ## Runs that can be replayed -/

/-- Whether a call is plain and not made by the idle thread. -/
def isPlain (s : Session) (c : Call) : Bool := !isDelicate c && s.core.current != s.core.idle

theorem isPlain_iff : s.isPlain c = true ↔
    isDelicate c = false ∧ s.core.current ≠ s.core.idle := by
  simp [isPlain]

/-- The log and the session after calls that pass a check, unless a call halts. -/
def replay (check : List Entry → Session → Call → Bool) (log : List Entry) (s : Session) :
    List Call → Option (List Entry × Session)
  | [] => some (log, s)
  | c :: cs =>
    if check log s c then
      match execute c s with
      | .ok a s' => replay check (⟨s, .call c a, s'⟩ :: log) s' cs
      | .error _ _ => none
    else none

/-- The log and the session after booting and calls that pass a check. -/
def replayFrom (check : List Entry → Session → Call → Bool) (setup : Setup) (cs : List Call) :
    Option (List Entry × Session) :=
  match Config.build setup.timeSlice setup.mainPriority with
  | .error _ => none
  | .ok config =>
    match Core.boot (setup.core config) with
    | .ok (.ok ()) k => replay check [] (ofCore k) cs
    | _ => none

section Replay

variable {allowed : List Entry → Session → Call → Prop}
  {check : List Entry → Session → Call → Bool}
  (hall : ∀ log s c, check log s c = true → allowed log s c)

include hall

theorem logged_replay {cs : List Call} {log' : List Entry} (hs : Logged allowed log frames s)
    (h : replay check log s cs = some (log', s')) : Logged allowed log' frames s' := by
  induction cs generalizing log s with
  | nil =>
    obtain ⟨rfl, rfl⟩ := Prod.mk.inj (Option.some.inj h)
    exact hs
  | cons c cs ih =>
    unfold replay at h
    split at h
    · rename_i hc
      split at h
      · rename_i he
        exact ih (hs.call (hall log s c hc) he) h
      · cases h
    · cases h

theorem logged_replayFrom {setup : Setup} {cs : List Call}
    (h : replayFrom check setup cs = some (log, s)) : Logged allowed log [] s := by
  unfold replayFrom at h
  split at h
  · cases h
  · rename_i hb
    split at h
    · rename_i hk
      exact logged_replay hall (.boot hb hk) h
    · cases h

end Replay

/-- Whether what was run has come to an end, and its answer and the session pass a check. -/
def succeeds {α : Type} (check : α → Session → Bool) : EStateM.Result Halt Session α → Bool
  | .ok a s => check a s
  | .error _ _ => false

theorem exists_of_succeeds {α : Type} {check : α → Session → Bool}
    {r : EStateM.Result Halt Session α} (h : succeeds check r = true) :
    ∃ a s, r = .ok a s ∧ check a s = true := by
  cases r with
  | ok a s => exact ⟨a, s, rfl, h⟩
  | error e s => cases h

/-- A run of plain calls, none of them made by the idle thread, is considerate. -/
theorem logged_plain {setup : Setup} {cs : List Call}
    (h : replayFrom (fun _ => isPlain) setup cs = some (log, s)) :
    Logged (fun _ => Considerate) log [] s :=
  logged_replayFrom (fun _ _ _ hc => .plain (isPlain_iff.mp hc).1 (isPlain_iff.mp hc).2) h

end Session

end ThreadCore
