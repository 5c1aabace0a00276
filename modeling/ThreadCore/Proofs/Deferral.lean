import ThreadCore.Proofs.GuisedCalls
import ThreadCore.Proofs.Guards
import ThreadCore.Proofs.Shelter

/-!
# Giving way at once and on return

A call that makes threads ready or changes priorities ends with `preempt`, which yields at once
outside a handler and asks for a yield inside one. Either way comes to the same. What such a call
does before is blind to being in a handler (`Core.Prepares`), and the yield of the return starts
where that of the call starts, but for the interrupt flag, which both hand back
(`Core.yieldNow_masked`).

The return yields if anybody has asked for it. So it matters that no request is left behind when no
handler runs, which holds in all runs that leave the handler flag to the handlers
(`Session.Reached.clear`).
-/

namespace ThreadCore

/-- The look of a core inside a handler. -/
def Guise.interrupted : Guise :=
  { Guise.plain with
    flags := fun w => w.set .interrupt false
    handler := fun _ => true
    flags_off := fun _ => rfl
    flags_unmasked := fun v w => by
      rw [Flags.isOn_set_self]
      unfold Flags.unmasked
      split
      · exact Flags.set_set _ _ _ _
      · rfl }

/-- The look of a core with a request to yield, or without one. -/
def Guise.requesting (b : Bool) : Guise := { Guise.plain with pending := fun _ => b }

namespace Core

variable {α β : Type} {k k' m : Core} {was : Bool} {t : ThreadId} {s l : ObjectId}

/-- The core once a handler is entered. -/
def entered (k : Core) : Core := { k with machine := k.machine.entered }

/-- The core with interrupts disabled. -/
def hushed (k : Core) : Core := { k with machine := k.machine.withInterrupts false }

theorem interrupted_core (k : Core) : Guise.interrupted.core k = k.entered :=
  Guise.core_of_task (fun _ => rfl) k

theorem requesting_core (b : Bool) (k : Core) :
    (Guise.requesting b).core k = { k with yieldPending := b } :=
  Guise.core_of_task (fun _ => rfl) k

theorem requesting_honest (b : Bool) : (Guise.requesting b).Honest := ⟨fun _ => rfl, fun _ => rfl⟩

/-- A step that is blind to requests leaves none behind where there was none. -/
theorem pending_of_blind {x : CoreM α} {a : α} (hx : Blind (Guise.requesting false).core x)
    (hk : k.yieldPending = false) (h : x k = .ok a k') : k'.yieldPending = false := by
  have hsame : (Guise.requesting false).core k = k := by rw [requesting_core, ← hk]
  have hrun := hx k
  rw [hsame, h, shown, requesting_core] at hrun
  have hstate : k' = { k' with yieldPending := false } := by injection hrun
  rw [hstate]

/-! ## The return -/

/-- No handler runs and none has left a request behind. `was` says whether interrupts are
enabled. -/
structure Clear (was : Bool) (k : Core) : Prop where
  anchored : k.Anchored
  flag : k.machine.interruptsOn = was
  handler : k.machine.inHandler = false
  pending : k.yieldPending = false

/-- A return yields if this was asked for, and enables interrupts that were enabled. -/
theorem leaveHandler_entered (was : Bool) (hh : k.machine.inHandler = false)
    (hi : k.current ≠ k.idle) (b : Bool) : leaveHandler was { k.entered with yieldPending := b } =
      ((if b then yieldNow else pure ()) >>= fun _ => onMachine (Machine.unmask was))
        { k.hushed with yieldPending := false } := by
  have hset : onMachine (Machine.setHandler false) { k.entered with yieldPending := b } =
      .ok () { k.hushed with yieldPending := b } := by
    refine setHandler_eq_ok.mpr ⟨Bool.noConfusion, ?_⟩
    simp only [entered, hushed, Machine.entered, Machine.withInterrupts, hh]
  unfold leaveHandler
  rw [bind_of_ok hset]
  show (if k.current = k.idle then _ else _ : CoreM Unit) _ = _
  rw [if_neg hi]
  cases b <;> rfl

/-- A masked section is the same as one with interrupts disabled, after which they are enabled. -/
theorem masked_hushed (body : CoreM Unit) : masked body k =
    (masked body >>= fun _ => onMachine (Machine.unmask k.machine.interruptsOn)) k.hushed := by
  have htwice : onMachine Machine.mask k.hushed = .ok false k.hushed := by
    rw [mask_eq]
    simp only [hushed, Machine.interruptsOn, Machine.withInterrupts, Flags.isOn_set_self,
      Flags.set_set]
  have hsection : ∀ (n : Core) (was : Bool), onMachine Machine.mask n = .ok was k.hushed →
      masked body n = (body >>= fun _ => onMachine (Machine.unmask was)) k.hushed := by
    intro n was hn
    have hlast : (fun u : Unit => onMachine (Machine.unmask was) >>= fun _ => pure u) =
        fun _ => onMachine (Machine.unmask was) := funext fun _ => bind_pure_unit
    exact (bind_of_ok hn).trans (congrArg (fun g => (body >>= g) k.hushed) hlast)
  rw [hsection k _ (mask_eq k)]
  cases hb : body k.hushed with
  | error e m =>
    have hmasked : masked body k.hushed = .error e m :=
      (hsection _ _ htwice).trans (bind_of_error hb)
    rw [bind_of_error hb, bind_of_error hmasked]
  | ok u m =>
    have hmasked : masked body k.hushed = .ok () m := (hsection _ _ htwice).trans (bind_of_ok hb)
    rw [bind_of_ok hb, bind_of_ok hmasked]

/-- One step ends as the other does: in the same state, or for the same reason. -/
structure Ends (r r' : EStateM.Result Halt Core α) : Prop where
  ok : ∀ a k', r = .ok a k' → r' = .ok a k'
  halts : ∀ e k', r = .error e k' → ∃ m, r' = .error e m

theorem Ends.of_eq {r r' : EStateM.Result Halt Core α} (h : r' = r) : Ends r r' :=
  ⟨fun _ _ hr => h.trans hr, fun _ k' hr => ⟨k', h.trans hr⟩⟩

/-- A yield is the same as one with interrupts disabled, after which they are enabled. -/
theorem yieldNow_hushed (hh : k.machine.inHandler = false) : Ends (yieldNow k)
    ((yieldNow >>= fun _ => onMachine (Machine.unmask k.machine.interruptsOn)) k.hushed) := by
  let turn (th : Thread) : CoreM Unit := do
    if th.id = (← get).idle then
      endTurn .blocked
    else
      enqueueReady th.id
      endTurn .ready
  have hyield : ∀ n : Core, n.machine.inHandler = false →
      yieldNow n = (ask running >>= fun th => masked (turn th)) n := by
    intro n hn
    refine bind_of_ok (a := ()) ?_
    unfold outsideHandler
    rw [get_bind_eq_ok, demand_eq_ok]
    exact ⟨hn, rfl⟩
  cases hr : k.running with
  | error e =>
    have hask : yieldNow k = .error e k :=
      (hyield k hh).trans (bind_of_error (ask_eq_error_iff.mpr ⟨hr, rfl⟩))
    have hask' : yieldNow k.hushed = .error e k.hushed :=
      (hyield k.hushed hh).trans (bind_of_error (ask_eq_error_iff.mpr ⟨hr, rfl⟩))
    rw [hask, bind_of_error hask']
    refine ⟨nofun, fun e' k' he => ?_⟩
    cases he
    exact ⟨k.hushed, rfl⟩
  | ok th =>
    have hask : yieldNow k = masked (turn th) k :=
      (hyield k hh).trans (bind_of_ok (ask_eq_ok_iff.mpr ⟨hr, rfl⟩))
    have hask' : yieldNow k.hushed = masked (turn th) k.hushed :=
      (hyield k.hushed hh).trans (bind_of_ok (ask_eq_ok_iff.mpr ⟨hr, rfl⟩))
    refine .of_eq ?_
    rw [hask, masked_hushed]
    cases hm : masked (turn th) k.hushed with
    | error e m => rw [bind_of_error hm, bind_of_error (hask'.trans hm)]
    | ok u m => rw [bind_of_ok hm, bind_of_ok (hask'.trans hm)]

/-! ## Calls that give way -/

/-- A step before the decision who runs: it is blind to being in a handler, leaves the turn alone,
and hands the interrupt flag back. -/
structure Prepares (x : CoreM α) : Prop where
  blind : Blind Guise.interrupted.core x
  duty : Keeps duty x
  flags : (masking false).Upholds x

/-- What the step does at once, it does in a handler that then returns. It leaves no request to
yield. -/
structure Defers (was : Bool) (x : CoreM α) (k : Core) : Prop where
  pending : ∀ a k', x k = .ok a k' → k'.yieldPending = false
  agrees : k.current ≠ k.idle →
    Ends (x k) ((x >>= fun a => leaveHandler was >>= fun _ => pure a) k.entered)

theorem prepares_ask {question : Core → Except Halt α}
    (hq : ∀ k : Core, question k.entered = question k)
    (hm : ∀ k, Mild (question k)) : Prepares (ask question) :=
  ⟨blind_ask fun k => by rw [interrupted_core, hq], keeps_ask _, masking_ask hm⟩

theorem prepares_running : Prepares (ask running) := prepares_ask (fun _ => rfl) mild_running

theorem prepares_say (n : Notice) : Prepares (say n) :=
  ⟨blind_say n, aloof_duty.say n, masking_say n⟩

theorem prepares_unblock (t : ThreadId) : Prepares (unblock t) :=
  ⟨blind_unblock t, aloof_duty.unblock t, masking_unblock t⟩

theorem prepares_checkPriority (p : Priority) : Prepares (checkPriority p) :=
  ⟨blind_demand _ _, keeps_demand _ _, Rule.upholds_demand rfl⟩

theorem prepares_rebase (t : ThreadId) (p : Priority) : Prepares (masked do
    changeThread t fun th => { th with base := p }
    let _ ← refreshPriority t) :=
  ⟨blind_masked <|
    .bind (blind_changeThread t fun _ => rfl) fun _ => (blind_refreshPriority t).bind fun _ =>
      blind_pure _,
    aloof_duty.masked <| (aloof_duty.changeThread t _).bind fun _ =>
      (aloof_duty.refreshPriority t).bind fun _ => keeps_pure _,
    masking_masked <| .bind (masking_changeThread t fun _ => rfl) fun _ =>
      (masking_refreshPriority t).bind fun _ => Rule.upholds_pure _⟩

theorem prepares_wakeOne (s : ObjectId) : Prepares (masked (wakeOne s)) :=
  ⟨blind_masked (blind_wakeOne s), aloof_duty.masked (aloof_duty.wakeOne s),
    masking_masked (masking_wakeOne s)⟩

theorem prepares_passOn (l : ObjectId) (t : ThreadId) : Prepares (masked (passOn l t)) :=
  ⟨blind_masked (blind_passOn l t), aloof_duty.masked (aloof_duty.passOn l t),
    masking_masked (masking_passOn l t)⟩

theorem prepares_wakeDue (now : Nat) :
    Prepares (masked do wakeDue now (← get).sleepers.size) :=
  ⟨blind_masked <| .get_bind (fun _ => rfl) fun _ => blind_wakeDue now _,
    aloof_duty.masked <| keeps_get.bind fun _ => aloof_duty.wakeDue now _,
    masking_masked <| Rule.upholds_get.bind fun _ => masking_wakeDue now _⟩

theorem prepares_changeFamily (t : ThreadId) (f : Family → Family) : Prepares (changeFamily t f) :=
  ⟨blind_changeFamily t f, aloof_duty.changeFamily t f, masking_changeFamily t f⟩

theorem prepares_adopt (parent child : ThreadId) : Prepares (adopt parent child) :=
  ⟨blind_adopt parent child, aloof_duty.adopt parent child, masking_adopt parent child⟩

theorem prepares_register (name : String) (priority : Priority) (entry : Option String)
    (task : Option Task) : Prepares (register name priority entry task) := by
  refine ⟨mimics_register name priority entry task, fun k a k' h => ?_,
    masking_register name priority entry task⟩
  rcases register_eq_ok h with ⟨_, -, hq⟩ | ⟨m, page, hq, -, rfl⟩
  · exact hq.duty
  · exact hq.duty

/-- What is made of the result does not matter. -/
theorem Defers.bind_pure {x : CoreM α} (hx : Defers was x k) (f : α → β) :
    Defers was (x >>= fun a => pure (f a)) k := by
  have hmade : ∀ (n n' : Core) (a : α), x n = .ok a n' →
      ((x >>= fun a => pure (f a)) >>= fun b => leaveHandler was >>= fun _ => pure b) n =
        (leaveHandler was >>= fun _ => pure (f a)) n' := by
    intro n n' a hn
    exact bind_of_ok (bind_of_ok hn)
  cases h : x k with
  | error e m =>
    refine ⟨fun b k' hb => ?_, fun hi => ⟨fun b k' hb => ?_, fun e' k' hb => ?_⟩⟩
    · rw [bind_of_error h] at hb
      cases hb
    · rw [bind_of_error h] at hb
      cases hb
    · rw [bind_of_error h] at hb
      cases hb
      obtain ⟨n, hn⟩ := (hx.agrees hi).halts e m h
      refine ⟨n, ?_⟩
      rcases bind_eq_error.mp hn with hn | ⟨a, l, hl, hn⟩
      · exact bind_of_error (bind_of_error hn)
      · rcases bind_eq_error.mp hn with hn | ⟨_, _, -, hn⟩
        · exact (hmade _ _ _ hl).trans (bind_of_error hn)
        · cases hn
  | ok a m =>
    refine ⟨fun b k' hb => ?_, fun hi => .of_eq ?_⟩
    · rw [bind_of_ok h] at hb
      obtain ⟨-, rfl⟩ := pure_eq_ok.mp hb
      exact hx.pending a m h
    · obtain ⟨a', n, hn, hl⟩ := bind_eq_ok.mp ((hx.agrees hi).ok a m h)
      obtain ⟨_, l, hleave, hp⟩ := bind_eq_ok.mp hl
      obtain ⟨rfl, rfl⟩ := pure_eq_ok.mp hp
      rw [bind_of_ok h]
      exact (hmade _ _ _ hn).trans (bind_of_ok hleave)

section

variable (hk : k.Clear was)

include hk

theorem Clear.entered_pending : { k.entered with yieldPending := false } = k.entered := by
  have hp : k.entered.yieldPending = false := hk.pending
  rw [← hp]

/-- Nothing asked for a yield, and the return hands the flags back. -/
theorem Clear.leaveHandler (hi : k.current ≠ k.idle) : leaveHandler was k.entered = .ok () k := by
  have hleave := leaveHandler_entered was hk.handler hi false
  rw [hk.entered_pending] at hleave
  rw [hleave]
  show onMachine (Machine.unmask was) _ = _
  rw [unmask_eq]
  have hflags : (k.machine.flags.set .interrupt false).unmasked was = k.machine.flags := by
    rw [← hk.flag]
    exact Flags.unmasked_set _
  simp only [hushed, Machine.withInterrupts, hflags]
  rw [← hk.pending]

theorem Clear.prepared {x : CoreM α} {a : α} {m : Core} (hx : Prepares x) (h : x k = .ok a m) :
    m.Clear was ∧ x k.entered = .ok a m.entered ∧ m.current = k.current ∧ m.idle = k.idle := by
  obtain ⟨hflags, ha, -⟩ := (hx.flags k ⟨hk.anchored, nofun⟩).ok a m h
  have hduty := hx.duty k a m h
  have hblind := hx.blind k
  rw [h, interrupted_core, shown, interrupted_core] at hblind
  exact ⟨⟨ha, (congrArg (Flags.isOn · .interrupt) hflags).trans hk.flag,
    (congrArg Duty.handler hduty).trans hk.handler, (congrArg Duty.pending hduty).trans hk.pending⟩,
    hblind, congrArg Duty.current hduty, congrArg Duty.idle hduty⟩

theorem defers_pure (a : α) : Defers was (pure a) k := by
  refine ⟨fun b k' h => ?_, fun hi => .of_eq ?_⟩
  · obtain ⟨-, rfl⟩ := pure_eq_ok.mp h
    exact hk.pending
  · exact bind_of_ok (hk.leaveHandler hi)

theorem Defers.bind {x : CoreM α} {g : α → CoreM β} (hx : Prepares x)
    (hg : ∀ a m, m.Clear was → Defers was (g a) m) : Defers was (x >>= g) k := by
  cases h : x k with
  | error e m =>
    have hblind := hx.blind k
    rw [h, interrupted_core, shown] at hblind
    refine ⟨fun b k' hb => ?_, fun _ => ⟨fun b k' hb => ?_, fun e' k' hb => ?_⟩⟩
    · rw [bind_of_error h] at hb
      cases hb
    · rw [bind_of_error h] at hb
      cases hb
    · rw [bind_of_error h] at hb
      cases hb
      exact ⟨_, bind_of_error (bind_of_error hblind)⟩
  | ok a m =>
    obtain ⟨hm, hentered, hcurrent, hidle⟩ := hk.prepared hx h
    obtain ⟨hpending, hagrees⟩ := hg a m hm
    refine ⟨fun b k' hb => hpending b k' (by rwa [bind_of_ok h] at hb), fun hi => ?_⟩
    rw [bind_of_ok h, bind_assoc, bind_of_ok hentered]
    exact hagrees (by rwa [hcurrent, hidle])

/-- **The decision.** A yield at once and a yield on return end in the same state. -/
theorem defers_preempt : Defers was preempt k := by
  have houtranked : ∀ b : Bool, k.outranked = .ok b → ∀ n : Core, n.outranked = k.outranked →
      preempt n = (if b then (get >>= fun now : Core => if now.machine.inHandler then
          modify fun k => { k with yieldPending := true } else yieldNow) else pure () : CoreM Unit)
          n := by
    intro b hb n hn
    exact bind_of_ok (ask_eq_ok_iff.mpr ⟨hn.trans hb, rfl⟩)
  cases ho : k.outranked with
  | error e =>
    have hask : preempt k = .error e k := bind_of_error (ask_eq_error_iff.mpr ⟨ho, rfl⟩)
    have hask' : preempt k.entered = .error e k.entered :=
      bind_of_error (ask_eq_error_iff.mpr ⟨ho, rfl⟩)
    refine ⟨fun a k' h => (nomatch hask.symm.trans h),
      fun _ => ⟨fun a k' h => (nomatch hask.symm.trans h), fun e' k' h => ?_⟩⟩
    cases hask.symm.trans h
    exact ⟨_, bind_of_error hask'⟩
  | ok b =>
    cases b with
    | false =>
      have hat : ∀ n : Core, n.outranked = k.outranked → preempt n = (pure () : CoreM Unit) n :=
        fun n hn => houtranked false ho n hn
      have hpure := defers_pure hk ()
      refine ⟨fun a k' h => hpure.pending a k' ((hat k rfl).symm.trans h), fun hi => ?_⟩
      rw [hat k rfl, bind_of_ok (hat k.entered rfl)]
      exact hpure.agrees hi
    | true =>
      have hnow : preempt k = yieldNow k := by
        refine (houtranked true ho k rfl).trans ?_
        show (if k.machine.inHandler = true then _ else _ : CoreM Unit) k = _
        rw [hk.handler]
        rfl
      have hlater : preempt k.entered = .ok () { k.entered with yieldPending := true } :=
        houtranked true ho k.entered rfl
      constructor
      · intro a k' h
        exact pending_of_blind (blind_yieldNow (requesting_honest false)) hk.pending
          (hnow.symm.trans h)
      · intro hi
        have hhushed : ({ k.hushed with yieldPending := false } : Core) = k.hushed := by
          have hp : k.hushed.yieldPending = false := hk.pending
          rw [← hp]
        have hleave := leaveHandler_entered was hk.handler hi true
        rw [hhushed] at hleave
        have hends := yieldNow_hushed hk.handler
        rw [hk.flag] at hends
        rw [hnow, bind_of_ok hlater]
        constructor
        · intro a k' h
          exact bind_of_ok (hleave.trans (hends.ok () k' h))
        · intro e k' h
          obtain ⟨m, hm⟩ := hends.halts e k' h
          exact ⟨m, bind_of_error (hleave.trans hm)⟩

/-! ## Operations -/

theorem defers_setPriority (p : Priority) : Defers was (setPriority p) k :=
  .bind hk (prepares_checkPriority p) fun _ _ h => .bind h prepares_running fun th _ h =>
    .bind h (prepares_rebase th.id p) fun _ _ h => defers_preempt h

theorem defers_up (s : ObjectId) : Defers was (up s) k := by
  refine .bind hk (prepares_wakeOne s) fun woken m h => ?_
  split
  · exact defers_preempt h
  · exact defers_pure h ()

theorem defers_release (l : ObjectId) : Defers was (release l) k :=
  .bind hk prepares_running fun th _ h =>
    .bind h (prepares_passOn l th.id) fun _ _ h => defers_preempt h

theorem defers_wakeSleepers (now : Nat) : Defers was (wakeSleepers now) k := by
  refine .bind hk (prepares_wakeDue now) fun woken m h => ?_
  split
  · exact (defers_preempt h).bind_pure _
  · exact defers_pure h woken

theorem defers_reportFork : Defers was reportFork k := by
  refine .bind hk prepares_running fun th m h =>
    .bind h (prepares_ask (fun _ => rfl) (mild_thread th.id)) fun th' m h => ?_
  split
  · exact defers_pure h _
  refine .bind h (prepares_ask (fun _ => rfl) (mild_childRecord _ _)) fun r m h => ?_
  split
  · exact defers_pure h _
  split
  · exact defers_pure h _
  · exact .bind h (prepares_changeFamily _ _) fun _ _ h => (defers_up h _).bind_pure _

theorem defers_spawn (name : String) (priority : Priority) (task : Option Task) :
    Defers was (spawn name priority task) k := by
  refine .bind hk (prepares_checkPriority priority) fun _ m h => .bind h prepares_running
    fun creator m h => .bind h (prepares_register _ _ _ _) fun r m h => ?_
  split
  · exact .bind h (prepares_say _) fun _ _ h => defers_pure h _
  · exact .bind h (prepares_adopt _ _) fun _ _ h => .bind h (prepares_say _) fun _ _ h =>
      .bind h (prepares_unblock _) fun _ _ h => (defers_preempt h).bind_pure _

end

/-! ## No request is left behind -/

theorem leaveHandler_pending (h : leaveHandler was k = .ok () k') : k'.yieldPending = false := by
  have hh := requesting_honest false
  unfold leaveHandler at h
  obtain ⟨_, m, -, h⟩ := bind_eq_ok.mp h
  rw [get_bind_eq_ok, modify_bind_eq_ok] at h
  refine pending_of_blind (.get_bind (fun _ => rfl) fun n => ?_) rfl h
  split
  · exact (blind_endTurn hh _).bind fun _ => blind_of_honest hh _
  split
  · exact (blind_yieldNow hh).bind fun _ => blind_of_honest hh _
  · exact blind_of_honest hh _

theorem timerInterrupt_pending (h : timerInterrupt k = .ok () k') : k'.yieldPending = false := by
  unfold timerInterrupt handleInterrupt at h
  obtain ⟨was, _, -, h⟩ := bind_eq_ok.mp h
  obtain ⟨_, _, -, h⟩ := bind_eq_ok.mp h
  obtain ⟨_, m, hleave, h⟩ := bind_eq_ok.mp h
  obtain ⟨-, rfl⟩ := pure_eq_ok.mp h
  exact leaveHandler_pending hleave

theorem ticks_pending (n : Nat) (hk : k.yieldPending = false) (h : ticks n k = .ok () k') :
    k'.yieldPending = false := by
  induction n generalizing k with
  | zero =>
    obtain ⟨-, rfl⟩ := pure_eq_ok.mp h
    exact hk
  | succ n ih =>
    obtain ⟨_, m, hm, h⟩ := bind_eq_ok.mp h
    obtain ⟨_, _, -, hm⟩ := bind_eq_ok.mp hm
    exact ih (timerInterrupt_pending hm) h

end Core

/-! ## Calls -/

/-- The calls that may give way, at once or on return. -/
def Call.rouses : Call → Bool
  | .create .. | .spawn .. | .setPriority _ | .wakeSleepers _ | .up _ | .release _ | .reportFork =>
    true
  | _ => false

namespace Session

open ThreadCore.Core (Clear Defers Ends)

variable {s s' : Session} {c : Call} {a : Answer} {frames : List Bool}

theorem onCore_bind_pure {α β : Type} (x : CoreM α) (f : α → β) :
    (onCore x >>= fun a => pure (f a)) = onCore (x >>= fun a => pure (f a)) := by
  funext s
  simp only [onCore, bind, EStateM.bind, pure, EStateM.pure]
  cases x s.core <;> rfl

/-- With the handles of `s` this is a step of the core, which does at once what it does in a
handler. -/
def Rouses (s : Session) (step : SessionM Answer) : Prop :=
  ∃ x : CoreM Answer, (∀ k, step { s with core := k } = onCore x { s with core := k }) ∧
    ∀ was k, Clear was k → Defers was x k

theorem rouses_report {α : Type} {x : CoreM α} {answer : α → Answer}
    (hx : ∀ was k, Clear was k → Defers was x k) :
    Rouses s (onCore x >>= fun a => pure (answer a)) := by
  refine ⟨_, fun k => ?_, fun was k hk => (hx was k hk).bind_pure answer⟩
  rw [onCore_bind_pure]

theorem rouses_resolve {handles : Session → Array ObjectId} {i : Nat} {x : ObjectId → CoreM Unit}
    (hsame : ∀ k, handles { s with core := k } = handles s)
    (hx : ∀ id was k, Clear was k → Defers was (x id) k) :
    Rouses s (resolve handles i fun id => act (x id)) := by
  have hat : ∀ {step : SessionM Answer}, Rouses s step → (∀ k : Core,
      resolve handles i (fun id => act (x id)) { s with core := k } = step { s with core := k }) →
      Rouses s (resolve handles i fun id => act (x id)) := by
    rintro step ⟨y, hy, hdefers⟩ hsteps
    exact ⟨y, fun k => (hsteps k).trans (hy k), hdefers⟩
  cases hi : (handles s)[i]? with
  | none =>
    have hmisused : Rouses s (pure .misused) :=
      ⟨pure .misused, fun _ => rfl, fun _ _ hk => Core.defers_pure hk _⟩
    exact hat hmisused fun k => resolve_of_none ((hsame k).symm ▸ hi)
  | some id =>
    have hact : Rouses s (act (x id)) := rouses_report (hx id)
    exact hat hact fun k => resolve_of_some ((hsame k).symm ▸ hi)

/-- A call that may give way does at once what it does in a handler. -/
theorem execute_rouses (hc : c.rouses = true) (s : Session) : Rouses s (execute c) := by
  cases c with
  | create name priority => exact rouses_report fun _ _ hk => Core.defers_spawn hk _ _ _
  | spawn name priority task => exact rouses_report fun _ _ hk => Core.defers_spawn hk _ _ _
  | setPriority p => exact rouses_report fun _ _ hk => Core.defers_setPriority hk p
  | wakeSleepers now => exact rouses_report fun _ _ hk => Core.defers_wakeSleepers hk now
  | up i => exact rouses_resolve (fun _ => rfl) fun id _ _ hk => Core.defers_up hk id
  | release i => exact rouses_resolve (fun _ => rfl) fun id _ _ hk => Core.defers_release hk id
  | reportFork => exact rouses_report fun _ _ hk => Core.defers_reportFork hk
  | _ => cases hc

/-- Outside a handler a call leaves no request to yield behind where there was none. -/
theorem execute_pending (hs : Clear s.core.machine.interruptsOn s.core)
    (h : execute c s = .ok a s') : s'.core.yieldPending = false := by
  cases hc : c.rouses with
  | true =>
    obtain ⟨x, hx, hdefers⟩ := execute_rouses hc s
    have hrun := (hx s.core).symm.trans h
    obtain ⟨k, hk, rfl⟩ := onCore_eq_ok.mp hrun
    exact (hdefers _ _ hs).pending a k hk
  | false =>
    by_cases hr : c.requests = true
    · have hact : ∀ {x : CoreM Unit}, act x s = .ok a s' →
          (∀ k', x s.core = .ok () k' → k'.yieldPending = false) →
            s'.core.yieldPending = false := by
        intro x h hx
        obtain ⟨_, k, hk, rfl⟩ := act_eq_ok h
        exact hx _ hk
      cases c with
      | timer => exact hact h fun k' hk => Core.timerInterrupt_pending hk
      | tick n => exact hact h fun k' hk => Core.ticks_pending n hs.pending hk
      | yieldOnReturn =>
        refine hact h fun k' hk => ?_
        obtain ⟨hin, -⟩ := demand_bind_eq_ok.mp (get_bind_eq_ok.mp hk)
        rw [hs.handler] at hin
        cases hin
      | create | spawn | setPriority | wakeSleepers | up | release | reportFork => cases hc
      | _ => cases hr
    · let φ := Guise.requesting false
      have hmimics :=
        execute_mimics (φ := φ) (c := c) (Core.requesting_honest false) (fun h => absurd h hr)
        (fun _ => ⟨fun _ => rfl, fun _ => rfl⟩) fun _ _ _ _ => rfl
      have hsame : φ.session s = s := by
        have hcore : φ.core s.core = s.core := by rw [Core.requesting_core, ← hs.pending]
        rw [Guise.session, hcore]
      have hcall : φ.call c = c := by cases c <;> rfl
      have hrun := hmimics s
      rw [hsame, hcall, h, shown] at hrun
      have hstate : s' = φ.session s' := by injection hrun
      rw [hstate]
      rfl

/-- **No request is left behind.** In a run that leaves the handler flag to the handlers, nobody has
asked for a yield when none of them runs. -/
theorem Reached.clear (h : Reached (fun _ c => ∀ on, c ≠ .setHandler on) frames s)
    (hh : s.core.machine.inHandler = false) : Clear s.core.machine.interruptsOn s.core := by
  refine ⟨h.anchored, rfl, hh, ?_⟩
  induction h with
  | @boot setup config k _ hb =>
    exact Core.pending_of_blind (Core.blind_boot (Core.requesting_honest false)) rfl hb
  | @call frames s s' c a hs hc he ih =>
    have hends := (execute_shelters hs.steered hc fun _ _ => Set.mem_univ _).ok he
    cases hin : s.core.machine.inHandler with
    | true =>
      have hin' : s'.core.machine.inHandler = true := (hends.2 hin).handler.trans hin
      rw [hh] at hin'
      cases hin'
    | false => exact execute_pending ⟨hs.anchored, rfl, hin, ih hin⟩ he
  | enter _ he _ =>
    obtain ⟨k, hk, rfl⟩ := onCore_eq_ok.mp he
    obtain ⟨-, -, rfl⟩ := Core.enterHandler_entered.mp hk
    cases hh
  | leave _ he _ =>
    obtain ⟨_, k, hk, rfl⟩ := act_eq_ok he
    exact Core.leaveHandler_pending hk

/-- What a call does, and what an interrupt does whose handler makes just that call. -/
structure DefersCall (c : Call) (s : Session) : Prop where
  /-- The handler gets the same answer, and the state after the return is the same. -/
  ok : ∀ a s', execute c s = .ok a s' → ∃ r r' : Record, r.outcome = .ok a ∧
    perform s (.interrupt [.call c]) = (.interrupt [.call r] r', s', none)
  /-- The interrupt halts for the same reason. -/
  halts : ∀ e s', execute c s = .error e s' →
    ∃ m, (perform s (.interrupt [.call c])).2 = (m, some e)

section

variable (hh : s.core.machine.inHandler = false)

include hh

theorem perform_handler_ok {m : Session}
    (h : execute c { s with core := s.core.entered } = .ok a m) : perform s (.interrupt [.call c]) =
      (.interrupt [.call (recordOf { s with core := s.core.entered } (.ok a m))]
        (m.recordOf (act (Core.leaveHandler s.core.machine.interruptsOn) m)),
        outcomeOf (act (Core.leaveHandler s.core.machine.interruptsOn) m)) := by
  have he : onCore Core.enterHandler s =
      .ok s.core.machine.interruptsOn { s with core := s.core.entered } :=
    onCore_eq_ok.mpr ⟨_, Core.enterHandler_entered.mpr ⟨hh, rfl, rfl⟩, rfl⟩
  simp only [perform, performAll, he, h, outcomeOf]

theorem perform_handler_error {e : Halt} {m : Session}
    (h : execute c { s with core := s.core.entered } = .error e m) :
    (perform s (.interrupt [.call c])).2 = (m, some e) := by
  have he : onCore Core.enterHandler s =
      .ok s.core.machine.interruptsOn { s with core := s.core.entered } :=
    onCore_eq_ok.mpr ⟨_, Core.enterHandler_entered.mpr ⟨hh, rfl, rfl⟩, rfl⟩
  simp only [perform, performAll, he, h, outcomeOf]

end

/-- **Deferral.** No handler runs, and the idle thread does not. A call that creates a thread,
changes a priority, brings a unit, hands a lock over or wakes sleepers gives way at once, and the
same call in a handler when that returns. Both end with the same answer and in the same state, what
was recorded and said included, or both halt for the same reason. -/
theorem reached_defers (h : Reached (fun _ c => ∀ on, c ≠ .setHandler on) frames s)
    (hh : s.core.machine.inHandler = false) (hi : s.core.current ≠ s.core.idle)
    (hc : c.rouses = true) :
    DefersCall c s := by
  have hs := h.clear hh
  obtain ⟨x, hx, hdefers⟩ := execute_rouses hc s
  obtain ⟨hok, hhalts⟩ := (hdefers _ _ hs).agrees hi
  constructor
  · intro a s' he
    obtain ⟨k', hk', rfl⟩ := onCore_eq_ok.mp ((hx s.core).symm.trans he)
    -- The step and the return, one after the other.
    obtain ⟨a', m, hm, hleave⟩ := bind_eq_ok.mp (hok a k' hk')
    obtain ⟨_, n, hn, hlast⟩ := bind_eq_ok.mp hleave
    obtain ⟨rfl, rfl⟩ := pure_eq_ok.mp hlast
    have hcall : execute c { s with core := s.core.entered } = .ok a' { s with core := m } :=
      (hx s.core.entered).trans (onCore_eq_ok.mpr ⟨m, hm, rfl⟩)
    have hreturn : act (Core.leaveHandler s.core.machine.interruptsOn) { s with core := m } =
        .ok (.done .nothing) { s with core := n } :=
      report_ok.mpr ⟨(), n, hn, rfl, rfl⟩
    have hrun := perform_handler_ok hh hcall
    rw [hreturn] at hrun
    exact ⟨recordOf { s with core := s.core.entered } (.ok a' { s with core := m }), _, rfl, hrun⟩
  · intro e s' he
    obtain ⟨k', hk', rfl⟩ := onCore_eq_error.mp ((hx s.core).symm.trans he)
    obtain ⟨m, hm⟩ := hhalts e k' hk'
    rcases bind_eq_error.mp hm with hcall | ⟨a, n, hn, hleave⟩
    · exact ⟨_,
        perform_handler_error hh ((hx s.core.entered).trans (onCore_eq_error.mpr ⟨m, hcall, rfl⟩))⟩
    · have hcall : execute c { s with core := s.core.entered } = .ok a { s with core := n } :=
        (hx s.core.entered).trans (onCore_eq_ok.mpr ⟨n, hn, rfl⟩)
      rcases bind_eq_error.mp hleave with hleave | ⟨_, _, -, hlast⟩
      · have hreturn : act (Core.leaveHandler s.core.machine.interruptsOn) { s with core := n } =
            .error e { s with core := m } :=
          bind_of_error (onCore_eq_error.mpr ⟨m, hleave, rfl⟩)
        rw [perform_handler_ok hh hcall, hreturn]
        exact ⟨_, rfl⟩
      · cases hlast

/-- The unit wakes a more urgent thread, which runs when the call has been made, and when the
handler that made it has returned. -/
theorem reached_defers_wakes : ∃ s a s', Reached (fun _ c => ∀ on, c ≠ .setHandler on) [] s ∧
    s.core.machine.inHandler = false ∧ s.core.current = 1 ∧ s.core.idle = 2 ∧
    execute (.up 0) s = .ok a s' ∧ s'.core.current = 3 ∧ DefersCall (.up 0) s := by
  have hrun : (replayFrom (fun _ _ c => !isDelicate c) ⟨none, none, none, false, none⟩
      [.newSemaphore 0, .create "waits" 40, .down 0]).any (fun r =>
        r.2.core.machine.inHandler = false ∧ r.2.core.current = 1 ∧ r.2.core.idle = 2 ∧
          succeeds (fun _ s => s.core.current = 3) (execute (.up 0) r.2)) = true := by
    decide +kernel
  obtain ⟨⟨log, s⟩, hs, hrun⟩ := (Option.any_eq_true _ _).mp hrun
  obtain ⟨hh, hcurrent, hidle, hwakes⟩ := of_decide_eq_true hrun
  obtain ⟨a, s', he, hwoken⟩ := exists_of_succeeds hwakes
  have hlog : Logged (fun _ _ c => ∀ on, c ≠ .setHandler on) log [] s :=
    logged_replayFrom (fun _ _ c hc on h => by subst h; cases hc) hs
  have hreach : Reached (fun _ c => ∀ on, c ≠ .setHandler on) [] s := hlog.reached fun _ _ _ h => h
  have hi : s.core.current ≠ s.core.idle := by
    rw [hcurrent, hidle]
    decide
  exact ⟨s, a, s', hreach, hh, hcurrent, hidle, he, of_decide_eq_true hwoken,
    reached_defers hreach hh hi rfl⟩

end Session

end ThreadCore
