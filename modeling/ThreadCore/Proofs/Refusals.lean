import ThreadCore.Proofs.FamilyCalls
import ThreadCore.Proofs.Onward

/-!
# Calls that are refused

A call that is refused, or that could only have succeeded by waiting, did not happen. It leaves the
session as it was and only adds to the journal: a text on the console, and the event that there was
no page if a thread could not be created. The one exception is a wait for an exit that has taken the
processor away: its answer says that the status is not there yet, and the caller does wait.
-/

namespace ThreadCore

/-- Nothing happened but that `events` and some texts were written in the journal. -/
structure Core.Journaled (k : Core) (events : List Event) (k' : Core) : Prop where
  core : k' = { k with journal := k'.journal }
  events : k'.journal.events.toList = k.journal.events.toList ++ events
  output : k.journal.output.toList <+: k'.journal.output.toList

namespace Core

variable {α : Type} {k k' m : Core} {a : α} {u : Unit} {r : Refusal} {s l c : ObjectId}
  {events events' : List Event}

/-! ## Steps that only write in the journal -/

theorem Journaled.refl (k : Core) : k.Journaled [] k :=
  ⟨rfl, (List.append_nil _).symm, List.prefix_rfl⟩

theorem Journaled.trans (h : k.Journaled events m) (h' : m.Journaled events' k') :
    k.Journaled (events ++ events') k' := by
  refine ⟨?_, ?_, h.output.trans h'.output⟩
  · calc k' = { m with journal := k'.journal } := h'.core
      _ = { k with journal := k'.journal } :=
        congrArg (fun n : Core => { n with journal := k'.journal }) h.core
  · rw [h'.events, h.events, List.append_assoc]

theorem Journaled.addEvent (k : Core) (e : Event) :
    k.Journaled [e] { k with journal := k.journal.addEvent e } :=
  ⟨rfl, Array.toList_push, List.prefix_rfl⟩

theorem journaled_say {n : Notice} (h : say n k = .ok u k') : k.Journaled [] k' := by
  rw [say, get_bind_eq_ok] at h
  split at h
  · rw [write, modify_eq_ok] at h
    subst h
    refine ⟨rfl, (List.append_nil _).symm, ?_⟩
    show _ <+: (k.journal.output.push _).toList
    rw [Array.toList_push]
    exact List.prefix_append _ _
  · obtain ⟨-, rfl⟩ := pure_eq_ok.mp h
    exact .refl _

/-- Disabling interrupts and restoring the flag changes nothing, down to the flags. -/
theorem masked_journaled {body : CoreM α} (h : masked body k = .ok a k')
    (hb : ∀ m m', body m = .ok a m' → m' = m) : k' = k := by
  simp only [masked, bind_eq_ok, pure_eq_ok, onMachine_eq_ok] at h
  obtain ⟨was, _, ⟨w, hmask, rfl⟩, a', m, hm, _, _, ⟨w', hunmask, rfl⟩, rfl, rfl⟩ := h
  obtain rfl := hb _ _ hm
  rw [Machine.mask, get_bind_eq_ok, modify_bind_eq_ok, pure_eq_ok] at hmask
  obtain ⟨hwas, rfl⟩ := hmask
  have hsame : w' = k.machine := by
    cases was with
    | true =>
      obtain rfl : w' = _ := modify_eq_ok.mp hunmask
      simp only [Machine.withInterrupts, Flags.set_set]
      rw [← hwas, Machine.interruptsOn, Flags.set_isOn]
    | false =>
      obtain ⟨-, rfl⟩ := pure_eq_ok.mp hunmask
      simp only [Machine.withInterrupts]
      rw [← hwas, Machine.interruptsOn, Flags.set_isOn]
  rw [hsame]

/-! ## The operations -/

/-- A thread is not created only if no page is left. -/
theorem spawn_declined {name : String} {priority : Priority} {task : Option Task}
    (h : spawn name priority task k = .ok (.error r) k') :
    r = .noMemory ∧ k.Journaled [.refused] k' := by
  unfold spawn at h
  rw [bind_eq_ok] at h
  obtain ⟨_, m, hm, h⟩ := h
  obtain ⟨-, rfl⟩ := demand_eq_ok.mp hm
  rw [ask_bind_eq_ok] at h
  obtain ⟨th, -, h⟩ := h
  rw [bind_eq_ok] at h
  obtain ⟨born, m, hm, h⟩ := h
  rcases (register_birth hm).2 with ⟨-, rfl, -⟩ | ⟨-, rfl, rfl⟩
  · simp only [bind_eq_ok, pure_eq_ok] at h
    obtain ⟨_, _, -, _, _, -, _, _, -, _, _, -, hr, -⟩ := h
    cases hr
  · simp only [bind_eq_ok, pure_eq_ok] at h
    obtain ⟨_, m, hm, hr, rfl⟩ := h
    obtain rfl := Except.error.inj hr
    exact ⟨rfl, (Journaled.addEvent k .refused).trans (journaled_say hm)⟩

theorem tryDown_refused {e : WouldBlock} (h : tryDown s k = .ok (.error e) k') : k' = k := by
  refine masked_journaled h fun m m' hm => ?_
  rw [ask_bind_eq_ok] at hm
  obtain ⟨sema, -, hm⟩ := hm
  split at hm
  · simp only [changeSemaphore_bind_eq_ok, pure_eq_ok] at hm
    obtain ⟨-, he, -⟩ := hm
    cases he
  · exact (pure_eq_ok.mp hm).2.symm

theorem tryAcquire_refused {e : WouldBlock} (h : tryAcquire l k = .ok (.error e) k') : k' = k := by
  unfold tryAcquire at h
  rw [ask_bind_eq_ok] at h
  obtain ⟨th, -, h⟩ := h
  refine masked_journaled h fun m m' hm => ?_
  rw [ask_bind_eq_ok] at hm
  obtain ⟨lk, -, hm⟩ := hm
  cases hh : lk.holder with
  | none =>
    simp only [hh, changeLock_bind_eq_ok, pure_eq_ok] at hm
    obtain ⟨-, he, -⟩ := hm
    cases he
  | some holder =>
    simp only [hh, pure_eq_ok] at hm
    exact hm.2.symm

theorem destroySemaphore_refused (h : destroySemaphore s k = .ok (.error r) k') :
    r = .busy ∧ k' = k := by
  rcases destroySemaphore_sets h with ⟨hr, hk⟩ | ⟨hr, -⟩
  · exact ⟨Except.error.inj hr, hk⟩
  · cases hr

theorem destroyLock_refused (h : destroyLock l k = .ok (.error r) k') : r = .busy ∧ k' = k := by
  unfold destroyLock at h
  simp only [ask_bind_eq_ok] at h
  obtain ⟨lk, -, h⟩ := h
  cases hh : lk.holder with
  | none =>
    simp only [hh, modify_bind_eq_ok, pure_eq_ok] at h
    cases h.1
  | some holder =>
    simp only [hh, pure_eq_ok] at h
    exact ⟨(Except.error.inj h.1).symm, h.2.symm⟩

theorem destroyCondition_refused (h : destroyCondition c k = .ok (.error r) k') :
    r = .busy ∧ k' = k := by
  unfold destroyCondition at h
  simp only [ask_bind_eq_ok] at h
  obtain ⟨cond, -, h⟩ := h
  split at h
  · simp only [modify_bind_eq_ok, pure_eq_ok] at h
    cases h.1
  · obtain ⟨hr, hk⟩ := pure_eq_ok.mp h
    exact ⟨(Except.error.inj hr).symm, hk.symm⟩

theorem reportFork_refused (h : reportFork k = .ok (.error r) k') :
    r = .notPermitted ∧ k' = k := by
  unfold reportFork at h
  simp only [ask_bind_eq_ok] at h
  obtain ⟨th, -, th', -, h⟩ := h
  cases hp : th'.family.parent with
  | none =>
    simp only [hp, pure_eq_ok] at h
    exact ⟨(Except.error.inj h.1).symm, h.2.symm⟩
  | some parent =>
    simp only [hp, ask_bind_eq_ok] at h
    obtain ⟨entry, -, h⟩ := h
    cases entry with
    | none =>
      obtain ⟨hr, hk⟩ := pure_eq_ok.mp h
      exact ⟨(Except.error.inj hr).symm, hk.symm⟩
    | some entry =>
      simp only at h
      split at h
      · obtain ⟨hr, hk⟩ := pure_eq_ok.mp h
        exact ⟨(Except.error.inj hr).symm, hk.symm⟩
      · simp only [bind_eq_ok, pure_eq_ok] at h
        obtain ⟨_, _, -, _, _, -, hr, -⟩ := h
        cases hr

theorem awaitFork_refused {child : ThreadId} (h : awaitFork child k = .ok (.error r) k') :
    r = .noSuchEntry ∧ k' = k := by
  unfold awaitFork at h
  simp only [ask_bind_eq_ok] at h
  obtain ⟨th, -, entry, -, h⟩ := h
  cases entry with
  | none =>
    obtain ⟨hr, hk⟩ := pure_eq_ok.mp h
    exact ⟨(Except.error.inj hr).symm, hk.symm⟩
  | some entry =>
    simp only [bind_eq_ok, pure_eq_ok] at h
    obtain ⟨_, _, -, hr, -⟩ := h
    cases hr

/-- Without a record there is nothing to collect, and only then is the collector refused. -/
theorem collect_refused {parent child : ThreadId}
    (h : collect parent child k = .ok (.error r) k') :
    r = .noSuchEntry ∧ k.recordOf parent child = none ∧ k' = k := by
  unfold collect at h
  simp only [ask_bind_eq_ok, childRecord_eq_ok] at h
  obtain ⟨entry, ⟨-, hentry⟩, h⟩ := h
  cases entry with
  | none =>
    obtain ⟨hr, hk⟩ := pure_eq_ok.mp h
    exact ⟨(Except.error.inj hr).symm, hentry, hk.symm⟩
  | some entry =>
    cases hs : entry.status with
    | none =>
      simp only [hs, pure_eq_ok] at h
      cases h.1
    | some status =>
      simp only [hs, bind_eq_ok, pure_eq_ok] at h
      obtain ⟨_, _, -, _, _, -, hr, -⟩ := h
      cases hr

theorem tryCollect_refused {child : ThreadId} (h : tryCollect child k = .ok (.error r) k') :
    r = .noSuchEntry ∧ k' = k := by
  unfold tryCollect at h
  rw [ask_bind_eq_ok] at h
  obtain ⟨th, -, h⟩ := h
  obtain ⟨rfl, -, rfl⟩ := collect_refused h
  exact ⟨rfl, rfl⟩

/-- A wait for an exit is refused at once if there is no record. Once it waits, the record stays. -/
theorem awaitExit_refused {child : ThreadId} (h : awaitExit child k = .ok (.error r) k') :
    r = .busy ∨ r = .noSuchEntry ∧ k' = k := by
  unfold awaitExit at h
  rw [ask_bind_eq_ok] at h
  obtain ⟨th, -, h⟩ := h
  rw [bind_eq_ok] at h
  obtain ⟨first, m, hm, h⟩ := h
  split at h
  · obtain ⟨hr, rfl⟩ := pure_eq_ok.mp h
    obtain ⟨rfl, -, hk⟩ := collect_refused hm
    exact .inr ⟨(Except.error.inj hr).symm, hk⟩
  · cases (pure_eq_ok.mp h).1
  obtain ⟨rfl, entry, hentry, -⟩ := collect_running hm
  simp only [ask_bind_eq_ok, childRecord_eq_ok, hentry] at h
  obtain ⟨_, ⟨-, rfl⟩, h⟩ := h
  simp only at h
  rw [bind_eq_ok] at h
  obtain ⟨_, n, hn, h⟩ := h
  rw [get_bind_eq_ok] at h
  split at h
  · exact .inl (Except.error.inj (pure_eq_ok.mp h).1).symm
  rw [bind_eq_ok] at h
  obtain ⟨second, n', hn', h⟩ := h
  split at h
  · obtain ⟨_, _, -, -, hs, -⟩ := down_sets hn
    have hgone := (collect_refused hn').2.1
    rw [recordOf_congr hs.ties, hentry] at hgone
    cases hgone
  · cases (pure_eq_ok.mp h).1
  · simp only [throw_eq_ok] at h

end Core

/-! ## Calls -/

/-- Whether the call did not happen. -/
def Answer.declined : Answer → Bool
  | .refused _ | .wouldBlock => true
  | _ => false

/-- The ways to decline a call. -/
def Call.refusals : Call → List Answer
  | .create .. | .spawn .. => [.refused .noMemory]
  | .tryDown _ | .tryAcquire _ => [.wouldBlock]
  | .destroySemaphore _ | .destroyLock _ | .destroyCondition _ => [.refused .busy]
  | .reportFork => [.refused .notPermitted]
  | .awaitFork _ | .tryCollect _ => [.refused .noSuchEntry]
  | .awaitExit _ => [.refused .noSuchEntry, .refused .busy]
  | _ => []

/-- The events of a call that was declined. -/
def Call.vainEvents : Call → List Event
  | .create .. | .spawn .. => [.refused]
  | _ => []

namespace Session

variable {α : Type} {s s' : Session} {c : Call} {a : Answer}

/-- The session is as before, but for what was written in the journal. -/
structure Journaled (s : Session) (events : List Event) (s' : Session) : Prop where
  session : s' = { s with core := s'.core }
  core : s.core.Journaled events s'.core

theorem Journaled.of_eq {k : Core} (hk : k = s.core) : s.Journaled [] { s with core := k } :=
  ⟨rfl, hk ▸ .refl _⟩

theorem refused_of_declined {reply : α → Reply} {r : Except Refusal α}
    (ha : (Answer.ofExcept reply r).declined = true) : ∃ reason, r = .error reason := by
  cases r with
  | ok b => cases ha
  | error reason => exact ⟨reason, rfl⟩

theorem blocked_of_declined {r : Except WouldBlock Unit} (ha : (Answer.ofTry r).declined = true) :
    ∃ e, r = .error e := by
  cases r with
  | ok b => cases ha
  | error e => exact ⟨e, rfl⟩

/-- **Refusals.** Whatever the state, a call that is refused, or that could only have succeeded by
waiting, leaves the session as it was but for the journal. There it leaves console text, and the
event that there was no page if it was to create a thread. The exception is the answer that an exit
has not happened yet. -/
theorem declined_journaled (h : execute c s = .ok a s') (ha : a.declined = true) :
    a ∈ c.refusals ∧
      ((∀ child, c = .awaitExit child → a ≠ .refused .busy) → s.Journaled c.vainEvents s') := by
  obtain ⟨hl, -⟩ | ⟨α, e, r, k, hp, hx, rfl, rfl⟩ := execute_ok h
  · cases hl <;> cases ha
  have hsame : ∀ {b : Answer} {P : Prop}, k = s.core →
      b ∈ [b] ∧ (P → s.Journaled [] { s with core := k }) :=
        fun he => ⟨List.mem_singleton_self _, fun _ => .of_eq he⟩
  cases hp with
  | create _ _ | spawn _ _ _ =>
    obtain ⟨reason, rfl⟩ := refused_of_declined ha
    obtain ⟨rfl, hu⟩ := Core.spawn_declined hx
    exact ⟨List.mem_singleton_self _, fun _ => ⟨rfl, hu⟩⟩
  | tryDown _ =>
    obtain ⟨e, rfl⟩ := blocked_of_declined ha
    exact hsame (Core.tryDown_refused hx)
  | tryAcquire _ =>
    obtain ⟨e, rfl⟩ := blocked_of_declined ha
    exact hsame (Core.tryAcquire_refused hx)
  | destroySemaphore _ =>
    obtain ⟨reason, rfl⟩ := refused_of_declined ha
    obtain ⟨rfl, he⟩ := Core.destroySemaphore_refused hx
    exact hsame he
  | destroyLock _ =>
    obtain ⟨reason, rfl⟩ := refused_of_declined ha
    obtain ⟨rfl, he⟩ := Core.destroyLock_refused hx
    exact hsame he
  | destroyCondition _ =>
    obtain ⟨reason, rfl⟩ := refused_of_declined ha
    obtain ⟨rfl, he⟩ := Core.destroyCondition_refused hx
    exact hsame he
  | reportFork =>
    obtain ⟨reason, rfl⟩ := refused_of_declined ha
    obtain ⟨rfl, he⟩ := Core.reportFork_refused hx
    exact hsame he
  | awaitFork _ =>
    obtain ⟨reason, rfl⟩ := refused_of_declined ha
    obtain ⟨rfl, he⟩ := Core.awaitFork_refused hx
    exact hsame he
  | tryCollect _ =>
    obtain ⟨reason, rfl⟩ := refused_of_declined ha
    obtain ⟨rfl, he⟩ := Core.tryCollect_refused hx
    exact hsame he
  | awaitExit child =>
    -- Of two reasons, one is that the call has blocked its caller.
    obtain ⟨reason, rfl⟩ := refused_of_declined ha
    rcases Core.awaitExit_refused hx with rfl | ⟨rfl, he⟩
    · exact ⟨List.mem_cons_of_mem _ (List.mem_singleton_self _),
        fun hb => absurd rfl (hb child rfl)⟩
    · exact ⟨List.mem_cons_self, fun _ => .of_eq he⟩
  | _ => cases ha

/-- No page is left for a thread. What its creator sees is a line on the console. -/
theorem declined_journaled_exhausted : ∃ s s', Reached (fun _ _ => True) [] s ∧
    execute (.create "third" 31) s = .ok (.refused .noMemory) s' ∧
    s'.core.journal.output.size = s.core.journal.output.size + 1 ∧
    (.refused .noMemory ∈ Call.refusals (.create "third" 31) ∧
      ((∀ child, Call.create "third" 31 = .awaitExit child →
          Answer.refused .noMemory ≠ .refused .busy) → s.Journaled [.refused] s')) := by
  have hrun : (replayFrom (fun _ _ _ => true) ⟨none, none, some 2, false, some .warn⟩
      [.newLock, .acquire 0]).any (fun r => succeeds (fun a s' => a = .refused .noMemory ∧
        s'.core.journal.output.size = r.2.core.journal.output.size + 1)
        (execute (.create "third" 31) r.2)) = true := by
    decide +kernel
  obtain ⟨⟨log, s⟩, hs, hrun⟩ := (Option.any_eq_true _ _).mp hrun
  have hlog : Logged (fun _ _ _ => True) log [] s := logged_replayFrom (fun _ _ _ _ => trivial) hs
  have hreach : Reached (fun _ _ => True) [] s := hlog.reached fun _ _ _ _ => trivial
  obtain ⟨a, s', he, hrun⟩ := exists_of_succeeds hrun
  obtain ⟨rfl, houtput⟩ := of_decide_eq_true hrun
  exact ⟨s, s', hreach, he, houtput, declined_journaled he rfl⟩

end Session

end ThreadCore
