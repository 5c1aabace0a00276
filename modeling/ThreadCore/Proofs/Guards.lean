import ThreadCore.Proofs.Masking
import ThreadCore.Proofs.Pages
import ThreadCore.Proofs.Returns

/-!
# Masking over runs

Calls and interrupts hand the interrupt flag back as they found it, except the calls that move it by
hand (`Call.movesFlag`). An interrupt does so if its handler does not enable interrupts
(`Operation.restrained`). Whatever happens between the opening of a guard and its closing, the flag
is then as before, if the guards in between were closed first (`Operation.Bracketed`).
-/

namespace ThreadCore

/-- Whether the call moves the interrupt flag by hand. -/
def Call.movesFlag : Call → Bool
  | .openGuard | .closeGuard | .enableInterrupts | .disableInterrupts => true
  | _ => false

/-- Whether the call may enable interrupts. -/
def Call.enables : Call → Bool
  | .closeGuard | .enableInterrupts => true
  | _ => false

namespace Operation

/-- Whether the operation moves the interrupt flag by hand. -/
def movesFlag : Operation → Bool
  | .call c => c.movesFlag
  | .interrupt _ => false

mutual

/-- Whether no handler enables interrupts or closes a guard. `inside` says whether the operation is
part of a handler itself. -/
def restrained (inside : Bool) : Operation → Bool
  | .call c => !(inside && c.enables)
  | .interrupt handler => restrainedAll true handler

def restrainedAll (inside : Bool) : List Operation → Bool
  | [] => true
  | op :: ops => restrained inside op && restrainedAll inside ops

end

mutual

/-- The number of guards that the operation opens. -/
def openings : Operation → Nat
  | .call .openGuard => 1
  | .call _ => 0
  | .interrupt handler => openingsAll handler

def openingsAll : List Operation → Nat
  | [] => 0
  | op :: ops => openings op + openingsAll ops

end

/-- The operations close `n` guards that are open and all that they open, each before those that
were open when it was opened. Otherwise they do not move the interrupt flag by hand. -/
inductive Bracketed : Nat → List Operation → Prop
  | done : Bracketed 0 []
  | opens {n : Nat} {ops : List Operation} : Bracketed (n + 1) ops →
      Bracketed n (.call .openGuard :: ops)
  | closes {n : Nat} {ops : List Operation} : Bracketed n ops →
      Bracketed (n + 1) (.call .closeGuard :: ops)
  | call {n : Nat} {c : Call} {ops : List Operation} : c.movesFlag = false → Bracketed n ops →
      Bracketed n (.call c :: ops)
  | interrupt {n : Nat} {handler ops : List Operation} : Bracketed (n + openingsAll handler) ops →
      Bracketed n (.interrupt handler :: ops)

end Operation

namespace Session

open ThreadCore.Core (masking)

variable {α β : Type} {s s' : Session} {c : Call} {a : Answer} {e : Halt}

/-! ## Calls -/

/-- Calls leave the flags of the machine and the open guards as they are. -/
def guarding : Rule Session where
  inv s := s.core.Anchored
  rel s s' := s'.core.machine.flags = s.core.machine.flags ∧ s'.guards = s.guards
  rest s := s.core.Apart
  refl _ := ⟨rfl, rfl⟩
  trans h h' := ⟨h'.1.trans h.1, h'.2.trans h.2⟩
  inv_rest h := h.apart

theorem mild_asks {reply : α → Reply} {question : Core → Except Halt α}
    (h : s.Asks c reply question) (k : Core) : Mild (question k) := by
  cases h with
  | self | name | current => exact Core.mild_running k
  | getPriority | parent | children | exitStatus =>
    exact (Core.mild_running k).bind fun _ => mild_pure _
  | validate => exact Core.mild_validate k
  | semaphoreValue _ | semaphoreWaiters _ => exact Core.mild_semaphore _ k
  | heldByCurrent _ => exact Core.mild_heldByCurrent _ k
  | holder _ | lockWaiters _ => exact Core.mild_lock _ k
  | conditionWaiters _ => exact Core.mild_condition _ k

/-- Only a call that moves the interrupt flag by hand touches the guards. -/
theorem performs_guards {e : Errand α} (hc : c.movesFlag = false) (hp : s.Performs c e) (r : α)
    (m : Session) : (e.keep r m).guards = m.guards := by
  cases hp <;> first | rfl | cases hc

/-- The flags stay as they are in any other step. -/
theorem performs_masking {e : Errand α} (hc : c.movesFlag = false) (hp : s.Performs c e) :
    (masking false).Upholds e.step := by
  cases hp with
  | create _ _ | spawn _ _ _ => exact Core.masking_spawn _ _ _
  | exit => exact Core.masking_exit
  | yield => exact Core.masking_yieldNow
  | block => exact Core.masking_block
  | unblock t => exact Core.masking_unblock t
  | setPriority p => exact Core.masking_setPriority p
  | overwrite offset byte _ =>
    refine (Core.masking_ask fun _ => ?_).bind fun _ => Core.masking_changeThread _ fun _ => rfl
    unfold Page.writeByte
    split
    · exact mild_pure _
    · exact mild_error rfl
  | printUsage => exact Core.masking_write _
  | sleepUntil tick => exact Core.masking_sleepUntil tick
  | sleepFor ticks =>
    exact Rule.upholds_get.bind fun _ => Core.masking_sleepUntil _
  | wakeSleepers now => exact Core.masking_wakeSleepers now
  | advance ticks => exact Core.masking_advances ticks
  | timer => exact Core.masking_timerInterrupt
  | tick n => exact Core.masking_ticks n
  | yieldOnReturn => exact Core.masking_yieldOnReturn
  | setHandler on => exact Core.masking_setHandler on
  | newSemaphore value => exact Core.masking_newSemaphore value
  | newLock => exact Core.masking_newLock
  | newCondition => exact Core.masking_newCondition
  | down _ => exact Core.masking_down _
  | tryDown _ => exact Core.masking_tryDown _
  | up _ => exact Core.masking_up _
  | destroySemaphore _ => exact Core.masking_destroySemaphore _
  | acquire _ => exact Core.masking_acquire _
  | tryAcquire _ => exact Core.masking_tryAcquire _
  | release _ => exact Core.masking_release _
  | destroyLock _ => exact Core.masking_destroyLock _
  | await _ _ => exact Core.masking_await _ _
  | signal _ _ => exact Core.masking_signal _ _
  | broadcast _ _ => exact Core.masking_broadcast _ _
  | destroyCondition _ => exact Core.masking_destroyCondition _
  | setExitStatus status => exact Core.masking_setExitStatus status
  | reportFork => exact Core.masking_reportFork
  | awaitFork child => exact Core.masking_awaitFork child
  | awaitExit child => exact Core.masking_awaitExit child
  | tryCollect child => exact Core.masking_tryCollect child
  | print text => exact Core.masking_write text
  | announce severity text =>
    refine Rule.upholds_get.bind fun k => ?_
    split
    · exact Core.masking_write _
    · exact Rule.upholds_pure _
  | log severity text => exact Core.masking_writeLine severity text
  | setThreshold _ | setQuiet _ => exact Core.masking_adjust fun _ => rfl
  | ask ha => exact Core.masking_ask (mild_asks ha)
  | openGuard | closeGuard _ | enableInterrupts | disableInterrupts => cases hc

/-- **Calls.** A call that does not move the interrupt flag by hand leaves it as it was. -/
theorem execute_guarding (hc : c.movesFlag = false) : guarding.Upholds (execute c) := by
  intro s hs
  constructor
  · intro a s' h
    obtain ⟨-, rfl⟩ | ⟨α, e, r, k, hp, hx, -, rfl⟩ := execute_ok h
    · exact ⟨guarding.refl _, hs⟩
    · obtain ⟨hflags, ha, -⟩ := (performs_masking hc hp s.core ⟨hs, nofun⟩).ok r k hx
      have hcore : (e.keep r { s with core := k }).core = k := e.core_keep _ _
      exact ⟨⟨hflags ▸ congrArg (·.machine.flags) hcore, performs_guards hc hp r _⟩,
        Eq.mpr (congrArg Core.Anchored hcore) ha⟩
  · intro halt s' h
    obtain ⟨α, e, k, hp, hx, rfl⟩ := execute_error h
    exact (performs_masking hc hp s.core ⟨hs, nofun⟩).halts halt k hx

/-! ## Moving the flag by hand -/

theorem openGuard_eq (s : Session) : execute .openGuard s =
    .ok (.done (.text (interruptText s.core.machine.interruptsOn)))
      { s with
        core := { s.core with machine := s.core.machine.withInterrupts false }
        guards := s.core.machine.interruptsOn :: s.guards } := rfl

theorem closeGuard_eq {was : Bool} {guards : List Bool} (hg : s.guards = was :: guards) :
    execute .closeGuard s = .ok (.done .nothing)
      { s with
        core := { s.core with
          machine := { s.core.machine with flags := s.core.machine.flags.unmasked was } }
        guards := guards } := by
  obtain ⟨core, semaphores, locks, conditions, guards'⟩ := s
  obtain rfl : guards' = was :: guards := hg
  cases was <;> rfl

/-- A call that moves the flag by hand does nothing else, and nothing at all to a flag that is off
if it does not enable interrupts. -/
theorem execute_movesFlag (hc : c.movesFlag = true) (s : Session) :
    ∃ a s', execute c s = .ok a s' ∧ (s.core.Anchored → s'.core.Anchored) ∧
      (c.enables = false → s.core.machine.interruptsOn = false →
        s'.core.machine.flags = s.core.machine.flags) := by
  have hkeep : ∀ w : Machine, w.handedOut = s.core.machine.handedOut → s.core.Anchored →
      ({ s.core with machine := w } : Core).Anchored := fun w hw hs =>
    ⟨hs.number.trans (congrArg (· + 1) hw.symm), hs.sp, hs.apart⟩
  have hoff : s.core.machine.interruptsOn = false →
      s.core.machine.flags.set .interrupt false = s.core.machine.flags := fun hoff =>
    hoff ▸ Flags.set_isOn s.core.machine.flags .interrupt
  cases c with
  | openGuard => exact ⟨_, _, openGuard_eq s, hkeep _ rfl, fun _ => hoff⟩
  | closeGuard =>
    cases hg : s.guards with
    | nil =>
      refine ⟨.misused, s, ?_, id, nofun⟩
      unfold execute
      rw [get_bind_eq_ok]
      simp only [hg, pure_eq_ok]
      trivial
    | cons was guards => exact ⟨_, _, closeGuard_eq hg, hkeep _ rfl, nofun⟩
  | enableInterrupts => exact ⟨_, _, rfl, hkeep _ rfl, nofun⟩
  | disableInterrupts => exact ⟨_, _, rfl, hkeep _ rfl, fun _ => hoff⟩
  | _ => cases hc

/-! ## Operations -/

/-- How operations end that begin in `s`. `inside` says that they are part of a handler, `plain`
that none of them moves the flag by hand, and `n` is the number of guards that they open. -/
structure Concludes (inside : Bool) (plain : Prop) (n : Nat) (s s' : Session)
    (halted : Option Halt) : Prop where
  anchored : halted = none → s'.core.Anchored
  flags : halted = none → inside = true ∨ plain → s'.core.machine.flags = s.core.machine.flags
  guards : halted = none → inside = true ∨ plain → s'.guards = List.replicate n false ++ s.guards
  halts : ∀ e, halted = some e → e.maskFault = false ∧ s'.core.Apart

theorem Concludes.of_halt {inside : Bool} {plain : Prop} {n : Nat}
    (he : e.maskFault = false ∧ s'.core.Apart) : Concludes inside plain n s s' (some e) :=
  ⟨nofun, nofun, nofun, fun _ hx => Option.some.inj hx ▸ he⟩

theorem execute_concludes {inside : Bool} {halted : Option Halt}
    (hc : inside = true → c.enables = false)
    (hs : s.core.Anchored) (hoff : inside = true → s.core.machine.interruptsOn = false)
    (h : outcomeOf (execute c s) = (s', halted)) :
    Concludes inside (c.movesFlag = false) (Operation.openings (.call c)) s s' halted := by
  cases hmoves : c.movesFlag with
  | false =>
    obtain ⟨hok, hhalts⟩ := execute_guarding hmoves s hs
    have hn : Operation.openings (.call c) = 0 := by cases c <;> first | rfl | cases hmoves
    cases he : execute c s with
    | ok a m =>
      rw [he] at h
      cases h
      obtain ⟨⟨hflags, hguards⟩, ha⟩ := hok a s' he
      exact ⟨fun _ => ha, fun _ _ => hflags, fun _ _ => hn.symm ▸ hguards, nofun⟩
    | error e m =>
      rw [he] at h
      cases h
      exact .of_halt (hhalts e s' he)
  | true =>
    obtain ⟨a, m, he, ha, hflags⟩ := execute_movesFlag hmoves s
    rw [he] at h
    cases h
    refine ⟨fun _ => ha hs, fun _ hin => ?_, fun _ hin => ?_, nofun⟩
    · have hin := hin.resolve_right nofun
      exact hflags (hc hin) (hoff hin)
    · have hin := hin.resolve_right nofun
      have hc := hc hin
      cases c with
      | openGuard =>
        rw [openGuard_eq] at he
        cases he
        rw [hoff hin]
        rfl
      | disableInterrupts =>
        cases he
        rfl
      | closeGuard | enableInterrupts => cases hc
      | _ => cases hmoves

mutual

/-- **Operations.** If no handler enables interrupts, no demand that they are disabled fails, and an
operation that does not move the flag by hand leaves it as it was. -/
theorem perform_concludes {inside : Bool} {s s' : Session} {halted : Option Halt} :
    (op : Operation) → op.restrained inside = true → s.core.Anchored →
      (inside = true → s.core.machine.interruptsOn = false) → (perform s op).2 = (s', halted) →
      Concludes inside (op.movesFlag = false) op.openings s s' halted
  | .call c, hop, hs, hoff, h => by
    unfold Operation.restrained at hop
    unfold perform at h
    refine execute_concludes (fun hin => ?_) hs hoff h
    simpa [hin] using hop
  | .interrupt handler, hop, hs, hoff, h => by
    unfold Operation.restrained at hop
    unfold perform at h
    cases he : onCore Core.enterHandler s with
    | error e m =>
      rw [he] at h
      cases h
      obtain ⟨k, hk, hm⟩ := onCore_eq_error.mp he
      exact .of_halt (hm ▸ Core.enterHandler_mild hs hk)
    | ok was s₁ =>
      obtain ⟨k, hk, rfl⟩ := onCore_eq_ok.mp he
      obtain ⟨-, rfl, rfl⟩ := Core.enterHandler_entered.mp hk
      obtain ⟨ha, hmasked⟩ := Core.masking_entered hs
      simp only [he] at h
      rcases hp :
        performAll { s with core := { s.core with machine := s.core.machine.entered } } handler
        with ⟨steps, s₂, halted'⟩
      have hhandler := performAll_concludes handler hop ha hmasked (congrArg Prod.snd hp)
      rw [hp] at h
      cases halted' with
      | some e =>
        cases h
        exact .of_halt (hhandler.halts e rfl)
      | none =>
        have hflags := hhandler.flags rfl (.inl rfl)
        have hoff₂ : s₂.core.machine.interruptsOn = false :=
          (congrArg (Flags.isOn · .interrupt) hflags).trans (hmasked rfl)
        have hleave : Core.Unmasks s.core.machine.interruptsOn
            (Core.leaveHandler s.core.machine.interruptsOn) s₂.core :=
          Core.leaveHandler_unmasks ⟨hhandler.anchored rfl, fun _ => hoff₂⟩
        obtain ⟨hok, hhalts⟩ := hleave
        cases hl : onCore (Core.leaveHandler s.core.machine.interruptsOn) s₂ with
        | error e m =>
          have hact : act (Core.leaveHandler s.core.machine.interruptsOn) s₂ = .error e m :=
            bind_of_error hl
          simp only [hact] at h
          cases h
          obtain ⟨k, hk, rfl⟩ := onCore_eq_error.mp hl
          exact .of_halt (hhalts e k hk)
        | ok u m =>
          have hact : act (Core.leaveHandler s.core.machine.interruptsOn) s₂ =
              .ok (.done .nothing) m :=
            bind_of_ok hl
          simp only [hact] at h
          cases h
          obtain ⟨k, hk, rfl⟩ := onCore_eq_ok.mp hl
          obtain ⟨hf, ha'⟩ := hok u k hk
          have hrestored : k.machine.flags = s.core.machine.flags := by
            rw [hf, hflags]
            exact Flags.unmasked_set _
          exact ⟨fun _ => ha', fun _ _ => hrestored, fun _ _ => hhandler.guards rfl (.inl rfl),
            nofun⟩

theorem performAll_concludes {inside : Bool} {s s' : Session} {halted : Option Halt} :
    (ops : List Operation) → Operation.restrainedAll inside ops = true → s.core.Anchored →
      (inside = true → s.core.machine.interruptsOn = false) → (performAll s ops).2 = (s', halted) →
      Concludes inside (∀ op ∈ ops, op.movesFlag = false) (Operation.openingsAll ops) s s' halted
  | [], _, hs, hoff, h => by
    unfold performAll at h
    cases h
    exact ⟨fun _ => hs, fun _ _ => rfl, fun _ _ => rfl, nofun⟩
  | op :: ops, hops, hs, hoff, h => by
    unfold Operation.restrainedAll at hops
    obtain ⟨hop, hops⟩ := Bool.and_eq_true_iff.mp hops
    unfold performAll at h
    rcases hp : perform s op with ⟨step, s₁, halted'⟩
    have hfirst : Concludes inside (op.movesFlag = false) op.openings s s₁ halted' :=
      perform_concludes op hop hs hoff (congrArg Prod.snd hp)
    simp only [hp] at h
    cases halted' with
    | some e =>
      cases h
      exact .of_halt (hfirst.halts e rfl)
    | none =>
      rcases hq : performAll s₁ ops with ⟨steps, s₂, halted''⟩
      simp only [hq] at h
      cases h
      have hflags := hfirst.flags rfl
      have hrest := performAll_concludes ops hops (hfirst.anchored rfl)
        (fun hin => (congrArg (Flags.isOn · .interrupt) (hflags (.inl hin))).trans (hoff hin))
        (congrArg Prod.snd hq)
      have hplain : (inside = true ∨ ∀ o ∈ op :: ops, o.movesFlag = false) →
          (inside = true ∨ op.movesFlag = false) ∧
            (inside = true ∨ ∀ o ∈ ops, o.movesFlag = false) :=
        fun hin => ⟨hin.imp_right fun hall => hall op List.mem_cons_self,
          hin.imp_right fun hall o ho => hall o (List.mem_cons_of_mem _ ho)⟩
      refine ⟨hrest.anchored, fun hn hin => ?_, fun hn hin => ?_, hrest.halts⟩
      · exact (hrest.flags hn (hplain hin).2).trans (hflags (hplain hin).1)
      · rw [hrest.guards hn (hplain hin).2, hfirst.guards rfl (hplain hin).1, ← List.append_assoc,
          List.replicate_append_replicate, Operation.openingsAll, Nat.add_comm]

end

/-! ## Guards -/

/-- A call that does not move the flag by hand leaves the guards as they are, too. -/
theorem perform_guarding (hc : c.movesFlag = false) (hs : s.core.Anchored)
    (h : (perform s (.call c)).2 = (s', none)) :
    s'.core.machine.flags = s.core.machine.flags ∧ s'.guards = s.guards ∧ s'.core.Anchored := by
  obtain ⟨a, he⟩ := perform_call h
  obtain ⟨⟨hflags, hguards⟩, ha⟩ := (execute_guarding hc s hs).ok a s' he
  exact ⟨hflags, hguards, ha⟩

/-- **Guards.** Operations that close the guards `above`, and all that they open, leave the flag on
if it was on or if one of those guards was opened while it was on. The guards below stay open. -/
theorem performAll_brackets {n : Nat} {ops : List Operation} (hb : Operation.Bracketed n ops)
    {above base : List Bool} (hlen : above.length = n)
    (hops : Operation.restrainedAll false ops = true) (hs : s.core.Anchored)
    (hg : s.guards = above ++ base) (h : (performAll s ops).2 = (s', none)) :
    s'.guards = base ∧ s'.core.machine.flags = s.core.machine.flags.unmasked (above.any id) := by
  induction hb generalizing s above with
  | done =>
    obtain rfl := List.length_eq_zero_iff.mp hlen
    cases h
    exact ⟨hg, rfl⟩
  | @opens n ops _ ih =>
    obtain ⟨m, hm, hrest⟩ := performAll_cons h
    obtain ⟨a, he⟩ := perform_call hm
    obtain ⟨b, m', he', ha, -⟩ := execute_movesFlag (c := .openGuard) rfl s
    rw [he] at he'
    cases he'
    rw [openGuard_eq] at he
    cases he
    have hlen' : (s.core.machine.interruptsOn :: above).length = n + 1 := congrArg (· + 1) hlen
    obtain ⟨hguards, hflags⟩ :=
      ih hlen' hops (ha hs) (congrArg (s.core.machine.interruptsOn :: ·) hg) hrest
    exact ⟨hguards, hflags.trans (Flags.unmasked_set_or s.core.machine.flags (above.any id))⟩
  | @closes n ops _ ih =>
    obtain ⟨was, above, rfl⟩ := List.exists_cons_of_length_eq_add_one hlen
    obtain ⟨m, hm, hrest⟩ := performAll_cons h
    obtain ⟨a, he⟩ := perform_call hm
    obtain ⟨b, m', he', ha, -⟩ := execute_movesFlag (c := .closeGuard) rfl s
    rw [he] at he'
    cases he'
    rw [closeGuard_eq hg] at he
    cases he
    obtain ⟨hguards, hflags⟩ := ih (Nat.succ.inj hlen) hops (ha hs) rfl hrest
    exact ⟨hguards, hflags.trans (Flags.unmasked_unmasked _ was _)⟩
  | @call n c ops hc _ ih =>
    obtain ⟨m, hm, hrest⟩ := performAll_cons h
    obtain ⟨hflags, hguards, ha⟩ := perform_guarding hc hs hm
    rw [← hflags]
    exact ih hlen hops ha (hguards.trans hg) hrest
  | @interrupt n handler ops _ ih =>
    obtain ⟨m, hm, hrest⟩ := performAll_cons h
    unfold Operation.restrainedAll at hops
    obtain ⟨hop, hops⟩ := Bool.and_eq_true_iff.mp hops
    have hends := perform_concludes (.interrupt handler) hop hs nofun hm
    have hguards : m.guards = (List.replicate (Operation.openingsAll handler) false ++ above) ++
        base := by
      rw [hends.guards rfl (.inr rfl), hg, List.append_assoc, Operation.openings]
    obtain ⟨hbase, hflags⟩ :=
      ih (by rw [List.length_append, List.length_replicate, hlen, Nat.add_comm])
      hops (hends.anchored rfl) hguards hrest
    rw [List.any_append, hends.flags rfl (.inr rfl)] at hflags
    have hnone : (List.replicate (Operation.openingsAll handler) false).any id = false := by
      simp [List.any_replicate]
    rw [hnone, Bool.false_or] at hflags
    exact ⟨hbase, hflags⟩

/-! ## Runs -/

end Session

/-- A step that leaves the flags as they are keeps stack pointers apart. -/
theorem Rule.Upholds.anchored {α : Type} {x : CoreM α} {k k' : Core} {a : α}
    (hx : (Core.masking false).Upholds x) (h : x k = .ok a k') (hk : k.Anchored) : k'.Anchored :=
  ((hx k ⟨hk, nofun⟩).ok a k' h).2.1

namespace Core

variable {k k' : Core} {was : Bool}

theorem anchored_boot (hk : k.Anchored) (h : boot k = .ok (.ok ()) k') : k'.Anchored := by
  unfold boot at h
  rw [get_bind_eq_ok, demand_bind_eq_ok, get_bind_eq_ok, bind_eq_ok] at h
  obtain ⟨-, r, m, hm, h⟩ := h
  have ha := (masking_register _ _ _ _).anchored hm hk
  cases r with
  | error refusal =>
    obtain ⟨_, _, -, h⟩ := bind_eq_ok.mp h
    cases h
  | ok main =>
    simp only [changeThread_bind_eq_ok, modify_bind_eq_ok] at h
    rw [bind_eq_ok] at h
    obtain ⟨-, r, m', hm', h⟩ := h
    have hrun : (m.mapThread main fun th => { th with state := .running }).Anchored :=
      ha.mapThread fun _ hth => hth
    have ha' := (masking_register _ _ _ _).anchored hm' (hrun.congr rfl)
    cases r with
    | error refusal =>
      obtain ⟨_, _, -, h⟩ := bind_eq_ok.mp h
      cases h
    | ok idle =>
      have hsay : (masking false).Upholds (say (.booted main idle) >>= fun _ =>
          (pure (.ok ()) : CoreM (Except Refusal Unit))) :=
        (masking_say _).bind fun _ => Rule.upholds_pure _
      exact hsay.anchored h ⟨ha'.number, ha'.sp, ha'.apart⟩

/-- Leaving a handler with interrupts enabled does not end a turn. -/
theorem anchored_leaveHandler (hk : k.Anchored) (h : leaveHandler was k = .ok () k') :
    k'.Anchored := by
  have hlast : ∀ {m : Core}, m.Anchored → onMachine (Machine.unmask was) m = .ok () k' →
      k'.Anchored := by
    intro m hm h
    rw [unmask_eq] at h
    cases h
    exact ⟨hm.number, hm.sp, hm.apart⟩
  unfold leaveHandler at h
  obtain ⟨_, k₁, h₁, h⟩ := bind_eq_ok.mp h
  have ha := (masking_setHandler false).anchored h₁ hk
  rw [get_bind_eq_ok, modify_bind_eq_ok, get_bind_eq_ok] at h
  have ha₂ : ({ k₁ with yieldPending := false } : Core).Anchored := ha.congr rfl
  split at h
  · obtain ⟨_, m, hm, h⟩ := bind_eq_ok.mp h
    have hoff : k₁.machine.interruptsOn = false := by
      rw [endTurn, get_bind_eq_ok, demand_bind_eq_ok] at hm
      exact hm.1
    exact hlast ((masking_endTurn .blocked _ ⟨ha₂, fun _ => hoff⟩).ok _ _ hm).2.1 h
  · split at h
    · obtain ⟨_, m, hm, h⟩ := bind_eq_ok.mp h
      exact hlast (masking_yieldNow.anchored hm ha₂) h
    · exact hlast ha₂ h

end Core

namespace Session

variable {allowed : Session → Call → Prop} {frames : List Bool} {s s' : Session}

/-- In every state of a run the stack pointers tell the live threads apart. -/
theorem Reached.anchored (h : Reached allowed frames s) : s.core.Anchored := by
  induction h with
  | @boot setup config k _ hb =>
    have hbare : (setup.core config).Anchored := by
      refine ⟨?_, fun t th hth => ?_, fun _ _ hm => ?_⟩
      · cases hp : setup.pages <;> rfl
      · simp [Setup.core, Core.bare] at hth
      · simp [Setup.core, Core.bare, Journal.empty] at hm
    exact Core.anchored_boot hbare hb
  | @call frames s s' c a _ _ he ih =>
    cases hc : c.movesFlag with
    | false => exact ((execute_guarding hc s ih).ok a s' he).2
    | true =>
      obtain ⟨b, m, he', ha, -⟩ := execute_movesFlag hc s
      rw [he] at he'
      cases he'
      exact ha ih
  | enter _ he ih =>
    obtain ⟨k, hk, rfl⟩ := onCore_eq_ok.mp he
    obtain ⟨-, -, rfl⟩ := Core.enterHandler_entered.mp hk
    exact (Core.masking_entered ih).1
  | leave _ he ih =>
    obtain ⟨_, k, hk, hcore⟩ := act_eq_ok he
    exact hcore ▸ Core.anchored_leaveHandler ih hk

/-- What operations do to the interrupt flag that begin in `s`. -/
structure KeepsMask (ops : List Operation) (s s' : Session) (halted : Option Halt) : Prop where
  /-- No turn was ended and no switch made with interrupts enabled. -/
  halts : ∀ e, halted = some e → e.maskFault = false
  /-- Every switch was between different threads. -/
  apart : ∀ t u, Event.switched t u ∈ s'.core.journal.events.toList → t ≠ u
  /-- Without a call that moves it by hand the flag is as it was. -/
  plain : halted = none → (∀ op ∈ ops, op.movesFlag = false) →
    s'.core.machine.interruptsOn = s.core.machine.interruptsOn
  /-- So it is if every guard that was opened has been closed, the last first. -/
  bracketed : halted = none → Operation.Bracketed 0 ops →
    s'.core.machine.interruptsOn = s.core.machine.interruptsOn ∧ s'.guards = s.guards

/-- **Masking.** Whatever a run has done before, operations whose handlers do not enable interrupts
never switch or end a turn with interrupts enabled, nor switch a thread to itself. They leave the
interrupt flag as it was, except for the calls that move it by hand; guards that are closed in the
reverse order restore it. -/
theorem reached_masking {ops : List Operation} {halted : Option Halt}
    (hs : Reached allowed frames s) (hops : Operation.restrainedAll false ops = true)
    (h : (performAll s ops).2 = (s', halted)) :
    KeepsMask ops s s' halted := by
  have ha := hs.anchored
  have hends := performAll_concludes ops hops ha nofun h
  refine ⟨fun e he => (hends.halts e he).1, ?_, fun hn hplain => ?_, fun hn hb => ?_⟩
  · cases halted with
    | none => exact (hends.anchored rfl).apart
    | some e => exact (hends.halts e rfl).2
  · exact congrArg (Flags.isOn · .interrupt) (hends.flags hn (.inr hplain))
  · subst hn
    obtain ⟨hguards, hflags⟩ := performAll_brackets hb rfl hops ha (List.nil_append _).symm h
    exact ⟨congrArg (Flags.isOn · .interrupt) hflags, hguards⟩

/-- Two guards, one of them opened by a handler whose return gives the processor to a third thread,
which closes both. -/
theorem reached_masking_nested :
    ∃ s s', Reached (fun _ _ => True) [] s ∧ s.core.current = 1 ∧
      s.core.machine.interruptsOn = true ∧
      (performAll s
        [.call .openGuard, .interrupt [.call .openGuard, .call (.up 0)], .call .getPriority,
        .call .closeGuard, .call .closeGuard]).2 = (s', none) ∧
      s'.core.current = 3 ∧ s'.core.machine.interruptsOn = true ∧ s'.guards = [] := by
  have hrun : (replayFrom (fun _ _ _ => true) ⟨none, none, none, false, none⟩
      [.newSemaphore 0, .create "waits" 40, .down 0]).any (fun r =>
        let after :=
          (performAll r.2 [.call .openGuard, .interrupt [.call .openGuard, .call (.up 0)],
          .call .getPriority, .call .closeGuard, .call .closeGuard]).2
        r.2.core.current = 1 ∧ r.2.core.machine.interruptsOn = true ∧ r.2.guards = [] ∧
          after.2 = none ∧ after.1.core.current = 3) = true := by
    decide +kernel
  obtain ⟨⟨log, s⟩, hs, hrun⟩ := (Option.any_eq_true _ _).mp hrun
  obtain ⟨hcurrent, hon, hguards, hdone, hafter⟩ := of_decide_eq_true hrun
  have hlog : Logged (fun _ _ _ => True) log [] s := logged_replayFrom (fun _ _ _ _ => trivial) hs
  have hends : (performAll s [.call .openGuard, .interrupt [.call .openGuard, .call (.up 0)],
      .call .getPriority, .call .closeGuard, .call .closeGuard]).2 = (_, none) := Prod.ext rfl hdone
  have hkeeps := reached_masking (hlog.reached fun _ _ _ _ => trivial) rfl hends
  obtain ⟨hflag, hg⟩ := hkeeps.bracketed rfl
    (.opens (.interrupt (.call rfl (.closes (.closes .done)))))
  exact ⟨s, _, hlog.reached fun _ _ _ _ => trivial, hcurrent, hon, hends, hafter,
    hflag.trans hon, hg.trans hguards⟩

end Session

end ThreadCore
