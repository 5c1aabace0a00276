import ThreadCore.Proofs.GuisedCalls
import ThreadCore.Proofs.Restraint

/-!
# Tasks change nothing

A task tells the user what its thread is for. The core notes in the journal when the thread gets the
processor and when it exits, and counts the ticks of threads with and without a task apart. It does
nothing else with it. So two sessions that are the same but for tasks, for the journal and for who
had the ticks (`Session.untasked`) stay so, whatever operations they perform, and say the same
meanwhile (`Session.performAll_neutral`).

There is one thing between them. Ticks are counted in words, and two words hold more ticks than one:
after `2 ^ 64` ticks outside the idle thread a session that counts them all in one of the words
halts, and one that has had threads of both kinds need not.
-/

namespace ThreadCore

/-! ## What is compared -/

/-- The usage, no matter who had a task. -/
def Usage.joined (u : Usage) : Usage := ⟨u.idle, u.kernel + u.user, 0⟩

/-- A counter of the ticks outside the idle thread is full. -/
def Usage.Full (u : Usage) : Prop := Word.greatest ≤ u.kernel ∨ Word.greatest ≤ u.user

theorem filter_noted {event : String → Event} (he : ∀ label, (event label).ofTask = true)
    (o : Option Task) (es : Array Event) :
    (noted event o es).filter (fun e => !e.ofTask) = es.filter fun e => !e.ofTask := by
  unfold noted
  cases o.bind Task.label? with
  | none => rfl
  | some label => simp [he label]

/-- The look of a core without tasks. -/
def Guise.untasked : Guise :=
  { Guise.plain with
    task := fun _ => none
    usage := Usage.joined
    events := fun es => es.filter fun e => !e.ofTask
    task_none := Guise.plain.task_none
    events_push := fun es e he => by simp [he]
    events_activated := filter_noted fun _ => rfl }

theorem untasked_parting : Guise.untasked.Parting := fun _ => filter_noted fun _ => rfl

theorem untasked_prompt : Guise.untasked.Prompt := ⟨⟨fun _ => rfl, fun _ => rfl⟩, fun _ => rfl⟩

/-- The call, if threads are created without tasks. -/
def Call.untasked : Call → Call := Guise.untasked.call

mutual

/-- The operation, if threads are created without tasks. -/
def Operation.untasked : Operation → Operation
  | .call c => .call c.untasked
  | .interrupt handler => .interrupt (untaskedAll handler)

def Operation.untaskedAll : List Operation → List Operation
  | [] => []
  | op :: ops => op.untasked :: untaskedAll ops

end

/-- The core, without tasks, without its journal and no matter who had the ticks. -/
def Core.untasked (k : Core) : Core :=
  { k with
    threads := k.threads.map fun _ th => { th with task := none }
    dead := k.dead.map fun th => { th with task := none }
    usage := k.usage.joined
    journal := .empty }

namespace Session

/-- The session, without tasks, without its journal and no matter who had the ticks. -/
def untasked (s : Session) : Session := { s with core := s.core.untasked }

end Session

/-- The snapshot, no matter who had the ticks. -/
def Snapshot.untasked (v : Snapshot) : Snapshot := { v with usage := v.usage.joined }

/-- The record without what is noted about tasks. -/
def Record.untasked (r : Record) : Record :=
  { r with
    events := r.events.filter fun e => !e.ofTask
    after := r.after.map Snapshot.untasked }

/-- What is compared of the record of a call. The text of the usage tells who had the ticks. -/
def Record.compared (c : Call) (r : Record) : Record :=
  match c with
  | .usage => { r.untasked with outcome := r.outcome.map fun _ => .done .nothing }
  | .printUsage => { r.untasked with output := "" }
  | _ => r.untasked

/-- The ending without what is noted about tasks. -/
def Ending.untasked (e : Ending) : Ending := { e with events := e.events.filter fun e => !e.ofTask }

mutual

/-- What is compared of the records of an operation. -/
def Step.compared : Operation → Step → Step
  | .call c, .call r => .call (r.compared c)
  | .interrupt handler, .interrupt steps r => .interrupt (comparedAll handler steps) r.untasked
  | _, step => step

def Step.comparedAll : List Operation → List Step → List Step
  | op :: ops, step :: steps => step.compared op :: comparedAll ops steps
  | _, _ => []

end

/-! ## Ticks -/

/-- A halt for want of room for a tick outside the idle thread. -/
def HaltsFull {σ α : Type} (usage : σ → Usage) (r : EStateM.Result Halt σ α) : Prop :=
  ∃ s, r = .error .overflow s ∧ (usage s).Full

namespace Core

variable {α β : Type} {k k' : Core}

/-- On cores that look the same without tasks the step does the same, if there is room for its
ticks. -/
def Neutral (x : CoreM α) : Prop := ∀ k k', Guise.untasked.core k = Guise.untasked.core k' →
  shown Guise.untasked.core (x k) = shown Guise.untasked.core (x k') ∨
    HaltsFull Core.usage (x k) ∨ HaltsFull Core.usage (x k')

theorem Neutral.of_blind {x : CoreM α} (hx : Blind Guise.untasked.core x) : Neutral x :=
  fun k k' h =>
  .inl (by rw [← hx k, ← hx k', h])

theorem Neutral.bind {x : CoreM α} {g : α → CoreM β} (hx : Neutral x) (hg : ∀ a, Neutral (g a)) :
    Neutral (x >>= g) := by
  intro k k' h
  rcases hx k k' h with hxk | ⟨m, hm, hfull⟩ | ⟨m, hm, hfull⟩
  · cases hm : x k with
    | ok a m =>
      rw [hm, shown] at hxk
      obtain ⟨m', hm', hsame⟩ := shown_eq_ok.mp hxk.symm
      rw [bind_of_ok hm, bind_of_ok hm']
      exact hg a m m' hsame.symm
    | error e m =>
      rw [hm, shown] at hxk
      obtain ⟨m', hm', hsame⟩ := shown_eq_error.mp hxk.symm
      left
      rw [bind_of_error hm, bind_of_error hm', shown, shown, hsame]
  · exact .inr (.inl ⟨m, bind_of_error hm, hfull⟩)
  · exact .inr (.inr ⟨m, bind_of_error hm, hfull⟩)

theorem Neutral.get_bind {g : Core → CoreM β}
    (hsame : ∀ k k', Guise.untasked.core k = Guise.untasked.core k' → g k = g k')
    (hg : ∀ k, Neutral (g k)) :
    Neutral (get >>= g) := by
  intro k k' h
  show shown _ (g k k) = shown _ (g k' k') ∨ HaltsFull _ (g k k) ∨ HaltsFull _ (g k' k')
  rw [← hsame k k' h]
  exact hg k k k' h

/-- A tick outside the idle thread is counted in one of two words, or that is full. -/
theorem countTick_busy {th : Thread} (hi : k.current ≠ k.idle)
    (hth : k.threads[k.current]? = some th) :
    HaltsFull Core.usage (countTick k) ∨ ∃ u, countTick k = .ok () { k with usage := u } ∧
      u.joined = ⟨k.usage.idle, k.usage.kernel + k.usage.user + 1, 0⟩ := by
  have hask : ask (thread k.current) k = .ok th k :=
    ask_eq_ok_iff.mpr ⟨thread_eq_ok_iff.mpr hth, rfl⟩
  have hcount : countTick k = (if th.task.isSome = true then
      increment k.usage.user >>= fun user => modify fun k =>
        { k with usage := { k.usage with user := user } }
    else increment k.usage.kernel >>= fun kernel =>
      modify fun k => { k with usage := { k.usage with kernel := kernel } } : CoreM Unit) k := by
    show (if k.current = k.idle then _ else _ : CoreM Unit) k = _
    rw [if_neg hi]
    exact bind_of_ok hask
  have hnext : ∀ (n : Nat) (g : Nat → CoreM Unit), Word.greatest ≤ n ∧
      (increment n >>= g) k = .error .overflow k ∨ (increment n >>= g) k = g (n + 1) k := by
    intro n g
    unfold increment
    cases hn : Word.next? n with
    | none => exact .inl ⟨Word.next?_eq_none_iff.mp hn, rfl⟩
    | some m =>
      obtain ⟨-, rfl⟩ := Word.next?_eq_some_iff.mp hn
      exact .inr rfl
  rw [hcount]
  split
  · rcases hnext k.usage.user _ with ⟨hfull, h⟩ | h
    · exact .inl ⟨k, h, .inr hfull⟩
    · exact .inr ⟨_, h, by simp only [Usage.joined]; congr 1⟩
  · rcases hnext k.usage.kernel _ with ⟨hfull, h⟩ | h
    · exact .inl ⟨k, h, .inl hfull⟩
    · refine .inr ⟨_, h, ?_⟩
      simp only [Usage.joined, Nat.add_right_comm]

theorem neutral_countTick : Neutral countTick := by
  intro k k' h
  have hsame : ∀ {γ : Type} (f : Core → γ),
      f (Guise.untasked.core k) = f (Guise.untasked.core k') :=
    fun f => congrArg f h
  have hcurrent : k.current = k'.current := hsame Core.current
  have hidle : k.idle = k'.idle := hsame Core.idle
  have husage : k.usage.joined = k'.usage.joined := hsame Core.usage
  have hthread : (k.threads[k.current]?).map Guise.untasked.thread =
      (k'.threads[k'.current]?).map Guise.untasked.thread := by
    rw [← hcurrent, ← getElem?_guise, ← getElem?_guise, h]
  obtain ⟨hidles, hbusy, -⟩ := (Usage.mk.injEq _ _ _ _ _ _).mp husage
  by_cases hi : k.current = k.idle
  · -- Both count the tick in the same word.
    have hcount : ∀ n : Core, n.current = n.idle →
        countTick n = (increment n.usage.idle >>= fun idle =>
        modify fun k => { k with usage := { k.usage with idle := idle } } : CoreM Unit) n := by
      intro n hn
      show (if n.current = n.idle then _ else _ : CoreM Unit) n = _
      rw [if_pos hn]
    rw [hcount k hi, hcount k' (hcurrent ▸ hidle ▸ hi), ← hidles]
    refine Neutral.of_blind ?_ k k' h
    exact .bind (blind_increment _) fun _ => blind_modify fun _ => rfl
  · have hi' : k'.current ≠ k'.idle := by rwa [← hcurrent, ← hidle]
    cases hth : k.threads[k.current]? with
    | none =>
      rw [hth, Option.map_none, eq_comm, Option.map_eq_none_iff] at hthread
      have hcount : ∀ n : Core, n.current ≠ n.idle → n.threads[n.current]? = none →
          countTick n = .error (.notRegistered n.current) n := by
        intro n hn hth
        show (if n.current = n.idle then _ else _ : CoreM Unit) n = _
        rw [if_neg hn]
        exact bind_of_error (by simp only [ask, thread, hth])
      left
      rw [hcount k hi hth, hcount k' hi' hthread, shown, shown, h, hcurrent]
    | some th =>
      rw [hth, Option.map_some, eq_comm, Option.map_eq_some_iff] at hthread
      obtain ⟨th', hth', -⟩ := hthread
      rcases countTick_busy hi hth with hfull | ⟨u, hu, hsum⟩
      · exact .inr (.inl hfull)
      rcases countTick_busy hi' hth' with hfull | ⟨u', hu', hsum'⟩
      · exact .inr (.inr hfull)
      have hset : Guise.untasked.core { k with usage := u } =
          Guise.untasked.core { k' with usage := u' } := by
        show { Guise.untasked.core k with usage := u.joined } =
          { Guise.untasked.core k' with usage := u'.joined }
        rw [h, hsum, hsum', hidles, hbusy]
      left
      rw [hu, hu', shown, shown, hset]

theorem neutral_timerInterrupt : Neutral timerInterrupt := by
  have hp := untasked_prompt
  refine .bind (.of_blind (blind_enterHandler hp)) fun was => .bind ?_ fun _ =>
    .bind (.of_blind (blind_leaveHandler hp was)) fun _ => .of_blind (blind_pure _)
  refine .get_bind (fun k k' h => ?_) fun k => neutral_countTick.bind fun _ => .of_blind <|
    (blind_countSlice hp).bind fun _ => (blind_wakeSleepers hp _).bind fun _ => blind_pure _
  have hnow : (Guise.untasked.core k).machine.ticks = (Guise.untasked.core k').machine.ticks := by
    rw [h]
  rw [show k.machine.ticks = k'.machine.ticks from hnow]

theorem neutral_ticks (n : Nat) : Neutral (ticks n) := by
  induction n with
  | zero => exact .of_blind (blind_pure _)
  | succ n ih =>
    exact .bind (.bind (.of_blind blind_advance) fun _ => neutral_timerInterrupt) fun _ => ih

end Core

/-! ## Records -/

namespace Session

open ThreadCore.Core (Neutral finalState)

variable {α : Type} {s s' m m' : Session} {c c' : Call} {j : Journal}

theorem snapshot_guise {φ : Guise} (h : φ.Honest) (s : Session) :
    (φ.session s).snapshot = { s.snapshot with usage := φ.usage s.core.usage } := by
  have hview : ∀ th, (φ.session s).view (φ.thread th) = s.view th := fun _ => rfl
  have hthreads : (φ.session s).core.threads.values.map (φ.session s).view =
      s.core.threads.values.map s.view := by
    rw [show (φ.session s).core = φ.core s.core from rfl, Core.values_guise, List.map_map]
    rfl
  simp only [snapshot, hthreads]
  simp only [Guise.session, Core.runningThreads_guise, h.core_machine, Core.size_guise]
  simp only [Guise.core, List.length_map]

theorem snapshot_untasked (s : Session) : s.untasked.snapshot = s.snapshot.untasked :=
  snapshot_guise untasked_prompt.toHonest s

/-- Two steps, one from `s` and one from `s'`, end alike and say the same on the way. -/
structure Matches (s s' : Session) (r r' : EStateM.Result Halt Session α) : Prop where
  answer : ∀ a m, r = .ok a m → ∃ m', r' = .ok a m'
  halted : (outcomeOf r).2 = (outcomeOf r').2
  final : (outcomeOf r).1.untasked = (outcomeOf r').1.untasked
  events : (s.core.journal.newEvents (outcomeOf r).1.core.journal).filter (fun e => !e.ofTask) =
    (s'.core.journal.newEvents (outcomeOf r').1.core.journal).filter fun e => !e.ofTask
  output : s.core.journal.newText (outcomeOf r).1.core.journal =
    s'.core.journal.newText (outcomeOf r').1.core.journal

theorem outcomeOf_shown (f : Session → Session) (r : EStateM.Result Halt Session α) :
    outcomeOf (shown f r) = (f (outcomeOf r).1, (outcomeOf r).2) := by
  cases r <;> rfl

/-- Steps match that do alike on sessions with empty journals. -/
theorem matches_of_shown {x y : SessionM α} (hx : ∀ j, Blind (Guise.prefixed j).session x)
    (hy : ∀ j, Blind (Guise.prefixed j).session y)
    (h : shown Guise.untasked.session (x s.unwritten) =
      shown Guise.untasked.session (y s'.unwritten)) :
    Matches s s' (x s) (y s') := by
  have hs : x s = shown (Guise.prefixed s.core.journal).session (x s.unwritten) := by
    rw [← hx s.core.journal, prefixed_unwritten]
  have hs' : y s' = shown (Guise.prefixed s'.core.journal).session (y s'.unwritten) := by
    rw [← hy s'.core.journal, prefixed_unwritten]
  have hends := congrArg outcomeOf h
  rw [outcomeOf_shown, outcomeOf_shown, Prod.mk.injEq] at hends
  obtain ⟨hlast, hhalted⟩ := hends
  have hevents : ∀ (j : Journal) (m : Session),
      (j.newEvents ((Guise.prefixed j).session m).core.journal).filter (fun e => !e.ofTask) =
        (Guise.untasked.session m).core.journal.events.toList := by
    intro j m
    rw [prefixed_session]
    simp [Journal.newEvents, Guise.session, Guise.core, Guise.journal, Guise.untasked]
  have houtput : ∀ (j : Journal) (m : Session),
      j.newText ((Guise.prefixed j).session m).core.journal =
      String.join (Guise.untasked.session m).core.journal.output.toList := by
    intro j m
    rw [prefixed_session]
    simp [Journal.newText, Guise.session, Guise.core, Guise.journal, Guise.untasked, Guise.plain]
  have hfinal : ∀ (j : Journal) (m : Session),
      ((Guise.prefixed j).session m).untasked = (Guise.untasked.session m).unwritten := by
    intro j m
    rw [prefixed_session]
    rfl
  rw [hs, hs']
  refine ⟨fun a m hm => ?_, ?_, ?_, ?_, ?_⟩
  · obtain ⟨n, hn, -⟩ := shown_eq_ok.mp hm
    rw [hn, shown] at h
    obtain ⟨n', hn', -⟩ := shown_eq_ok.mp h.symm
    exact ⟨_, by rw [hn', shown]⟩
  · rw [outcomeOf_shown, outcomeOf_shown, hhalted]
  · rw [outcomeOf_shown, outcomeOf_shown, hfinal, hfinal, hlast]
  · rw [outcomeOf_shown, outcomeOf_shown, hevents, hevents, hlast]
  · rw [outcomeOf_shown, outcomeOf_shown, houtput, houtput, hlast]

/-- So do steps that are blind to tasks. -/
theorem matches_of_blind {x : SessionM α} (hx : ∀ j, Blind (Guise.prefixed j).session x)
    (hφ : Blind Guise.untasked.session x) (h : s.untasked = s'.untasked) :
    Matches s s' (x s) (x s') := by
  refine matches_of_shown hx hx ?_
  have hsame : Guise.untasked.session s.unwritten = Guise.untasked.session s'.unwritten := h
  rw [← hφ s.unwritten, ← hφ s'.unwritten, hsame]

theorem newEvents_self (j : Journal) : j.newEvents j = [] := List.drop_of_length_le (by simp)

theorem newText_self (j : Journal) : j.newText j = "" := by
  rw [Journal.newText, List.drop_of_length_le (by simp), String.join_nil]

/-- A halt before anything is said. -/
theorem matches_of_halt (e : Halt) (h : s.untasked = s'.untasked) :
    Matches (α := α) s s' (.error e s) (.error e s') :=
  ⟨nofun, rfl, h, by simp only [outcomeOf, newEvents_self], by simp only [outcomeOf, newText_self]⟩

theorem Matches.of_error {β : Type} {e e' : Halt}
    (h : Matches (α := α) s s' (.error e m) (.error e' m')) :
    Matches (α := β) s s' (.error e m) (.error e' m') :=
  ⟨nofun, h.halted, h.final, h.events, h.output⟩

theorem Matches.error {r : EStateM.Result Halt Session α} {e : Halt}
    (h : Matches s s' (.error e m) r) : ∃ m', r = .error e m' := by
  cases r with
  | ok a m' => cases h.halted
  | error e' m' =>
    cases h.halted
    exact ⟨m', rfl⟩

theorem Matches.record {r r' : EStateM.Result Halt Session Answer} (h : Matches s s' r r') :
    (s.recordOf r).untasked = (s'.recordOf r').untasked := by
  cases r with
  | ok a m =>
    obtain ⟨m', rfl⟩ := h.answer a m rfl
    have hafter : m.snapshot.untasked = m'.snapshot.untasked := by
      rw [← snapshot_untasked, ← snapshot_untasked, show m.untasked = m'.untasked from h.final]
    have hevents := h.events
    have houtput := h.output
    simp only [outcomeOf] at hevents houtput
    simp only [recordOf, Record.untasked, Option.map_some, hafter, hevents, houtput]
  | error e m =>
    obtain ⟨m', rfl⟩ := h.error
    have hevents := h.events
    have houtput := h.output
    simp only [outcomeOf] at hevents houtput
    simp only [recordOf, Record.untasked, Option.map_none, hevents, houtput]

/-! ## Calls -/

/-- A session whose counter of busy ticks is full halts. -/
def Bursts (r : Session × Option Halt) : Prop := r.2 = some .overflow ∧ r.1.core.usage.Full

theorem bursts_of_haltsFull {r : EStateM.Result Halt Session α}
    (h : HaltsFull (fun s : Session => s.core.usage) r) : Bursts (outcomeOf r) := by
  obtain ⟨m, rfl, hfull⟩ := h
  exact ⟨rfl, hfull⟩

theorem haltsFull_of_unwritten {x : SessionM α} (hx : ∀ j, Blind (Guise.prefixed j).session x)
    (h : HaltsFull (fun s : Session => s.core.usage) (x s.unwritten)) :
    HaltsFull (fun s : Session => s.core.usage) (x s) := by
  obtain ⟨m, hm, hfull⟩ := h
  refine ⟨(Guise.prefixed s.core.journal).session m, ?_, hfull⟩
  have hs := hx s.core.journal s.unwritten
  rwa [prefixed_unwritten, hm, shown] at hs

theorem act_neutral {x : CoreM Unit} (hx : Neutral x)
    (h : Guise.untasked.session s = Guise.untasked.session s') :
    shown Guise.untasked.session (act x s) = shown Guise.untasked.session (act x s') ∨
      HaltsFull (fun s : Session => s.core.usage) (act x s) ∨
      HaltsFull (fun s : Session => s.core.usage) (act x s') := by
  have hfull : ∀ s : Session, HaltsFull Core.usage (x s.core) →
      HaltsFull (fun s : Session => s.core.usage) (act x s) := by
    rintro s ⟨k, hk, hfull⟩
    exact ⟨_, bind_of_error (onCore_eq_error.mpr ⟨k, hk, rfl⟩), hfull⟩
  have hact : ∀ s : Session, shown Guise.untasked.session (act x s) =
      match shown Guise.untasked.core (x s.core) with
      | .ok _ k => .ok (.done .nothing) { Guise.untasked.session s with core := k }
      | .error e k => .error e { Guise.untasked.session s with core := k } := by
    intro s
    simp only [act, onCore, bind, EStateM.bind]
    cases x s.core <;> rfl
  rcases hx s.core s'.core (congrArg Session.core h) with hsame | hs | hs
  · left
    rw [hact, hact, hsame, h]
  · exact .inr (.inl (hfull s hs))
  · exact .inr (.inr (hfull s' hs))

/-- The calls but for those that tell the usage. -/
theorem execute_matches (h : s.untasked = s'.untasked) (hc : c.untasked = c'.untasked)
    (hu : c ≠ .usage) (hp : c ≠ .printUsage) : Matches s s' (execute c s) (execute c' s') ∨
      Bursts (outcomeOf (execute c s)) ∨ Bursts (outcomeOf (execute c' s')) := by
  have hsame : Guise.untasked.session s.unwritten = Guise.untasked.session s'.unwritten := h
  by_cases hcount : c.counts = true
  · have hact : ∀ {x : CoreM Unit}, Neutral x → (∀ j, Blind (Guise.prefixed j).session (act x)) →
        Matches s s' (act x s) (act x s') ∨ Bursts (outcomeOf (act x s)) ∨
          Bursts (outcomeOf (act x s')) := by
      intro x hx hj
      rcases act_neutral hx hsame with hshown | hfull | hfull
      · exact .inl (matches_of_shown hj hj hshown)
      · exact .inr (.inl (bursts_of_haltsFull (haltsFull_of_unwritten hj hfull)))
      · exact .inr (.inr (bursts_of_haltsFull (haltsFull_of_unwritten hj hfull)))
    cases c with
    | usage => exact absurd rfl hu
    | printUsage => exact absurd rfl hp
    | timer =>
      obtain rfl : c' = .timer := by cases c' <;> simp_all [Call.untasked, Guise.call]
      exact hact Core.neutral_timerInterrupt (prefixed_blind .timer)
    | tick n =>
      obtain rfl : c' = .tick n := by cases c' <;> simp_all [Call.untasked, Guise.call]
      exact hact (Core.neutral_ticks n) (prefixed_blind (.tick n))
    | _ => cases hcount
  · have hcounts : ∀ c : Call, c.untasked.counts = c.counts := fun c => by cases c <;> rfl
    have hcount' : c'.counts = true → Guise.untasked.Plain := by
      rw [← hcounts c', ← hc, hcounts c]
      exact fun h => absurd h hcount
    have hrun : ∀ (c : Call) (s : Session), (c.counts = true → Guise.untasked.Plain) →
        execute c.untasked (Guise.untasked.session s) =
          shown Guise.untasked.session (execute c s) :=
      fun c s hc => execute_mimics untasked_prompt.toHonest (fun _ => untasked_prompt) hc
        (fun _ => untasked_parting) s
    refine .inl (matches_of_shown (prefixed_blind c) (prefixed_blind c') ?_)
    rw [← hrun c _ fun h => absurd h hcount, ← hrun c' _ hcount', hsame, hc]

/-- What a run says and does whatever tasks there are. -/
structure Agrees (ops ops' : List Operation) (r r' : List Step × Session × Option Halt) : Prop where
  steps : Step.comparedAll ops r.1 = Step.comparedAll ops' r'.1
  final : r.2.1.untasked = r'.2.1.untasked
  halted : r.2.2 = r'.2.2

/-- The call tells the usage, and does nothing else. -/
theorem usage_neutral (h : s.untasked = s'.untasked) :
    Agrees [.call .usage] [.call .usage]
      ([(perform s (.call .usage)).1], (perform s (.call .usage)).2)
      ([(perform s' (.call .usage)).1], (perform s' (.call .usage)).2) := by
  have hafter : s.snapshot.untasked = s'.snapshot.untasked := by
    rw [← snapshot_untasked, ← snapshot_untasked, h]
  have hrun : ∀ s : Session, execute .usage s = .ok (.done (.text s.core.usage.text)) s :=
    fun _ => rfl
  refine ⟨?_, ?_, ?_⟩
  · simp only [perform, hrun, Step.comparedAll, Step.compared, Record.compared, Record.untasked,
      recordOf, newEvents_self, newText_self, Option.map_some, hafter]
    rfl
  · simpa only [perform, hrun, outcomeOf] using h
  · simp only [perform, hrun, outcomeOf]

/-- The call prints the usage, and does nothing else. -/
theorem printUsage_neutral (h : s.untasked = s'.untasked) :
    Agrees [.call .printUsage] [.call .printUsage]
      ([(perform s (.call .printUsage)).1], (perform s (.call .printUsage)).2)
      ([(perform s' (.call .printUsage)).1], (perform s' (.call .printUsage)).2) := by
  let printed (s : Session) : Session :=
    { s with core := { s.core with journal := s.core.journal.addText (s.core.usage.text ++ "\n") } }
  have hrun : ∀ s : Session, execute .printUsage s = .ok (.done .nothing) (printed s) :=
    fun _ => rfl
  have hevents : ∀ s : Session, s.core.journal.newEvents (printed s).core.journal = [] := fun s =>
    newEvents_self s.core.journal
  have hafter : (printed s).snapshot.untasked = (printed s').snapshot.untasked := by
    rw [← snapshot_untasked, ← snapshot_untasked]
    exact congrArg snapshot h
  refine ⟨?_, ?_, ?_⟩
  · simp only [perform, hrun, Step.comparedAll, Step.compared, Record.compared, Record.untasked,
      recordOf, hevents, Option.map_some, hafter]
  · simp only [perform, hrun, outcomeOf]
    exact h
  · simp only [perform, hrun, outcomeOf]

/-- **Calls.** Calls that differ in tasks say and do the same, or a counter is full. -/
theorem call_neutral (h : s.untasked = s'.untasked) (hc : c.untasked = c'.untasked) :
    Agrees [.call c] [.call c'] ([(perform s (.call c)).1], (perform s (.call c)).2)
        ([(perform s' (.call c')).1], (perform s' (.call c')).2) ∨
      Bursts (perform s (.call c)).2 ∨ Bursts (perform s' (.call c')).2 := by
  by_cases hu : c = .usage
  · subst hu
    obtain rfl : c' = .usage := by cases c' <;> simp_all [Call.untasked, Guise.call]
    exact .inl (usage_neutral h)
  by_cases hp : c = .printUsage
  · subst hp
    obtain rfl : c' = .printUsage := by cases c' <;> simp_all [Call.untasked, Guise.call]
    exact .inl (printUsage_neutral h)
  have hcompared : ∀ {c : Call}, c.untasked ≠ .usage → c.untasked ≠ .printUsage →
      ∀ r : Record, r.compared c = r.untasked := by
    intro c hu hp r
    unfold Record.compared
    split
    · exact absurd rfl hu
    · exact absurd rfl hp
    · rfl
  have hne : ∀ d : Call, (∀ n p t, d ≠ .spawn n p t) → c ≠ d → c.untasked ≠ d := by
    intro d hd hne
    cases c <;> first | exact hne | exact (hd _ _ _ ·.symm)
  have hu' := hne .usage (fun _ _ _ => Call.noConfusion) hu
  have hp' := hne .printUsage (fun _ _ _ => Call.noConfusion) hp
  unfold perform
  refine (execute_matches h hc hu hp).imp_left fun hm => ⟨?_, hm.final, hm.halted⟩
  simp only [Step.comparedAll, Step.compared, hcompared hu' hp', hcompared (hc ▸ hu') (hc ▸ hp'),
    hm.record]

/-! ## Runs -/

theorem comparedAll_nil (ops : List Operation) : Step.comparedAll ops [] = [] := by
  cases ops <;> rfl

theorem interrupt_neutral {ops ops' : List Operation} (h : s.untasked = s'.untasked)
    (hinner : ∀ m m' : Session, m.untasked = m'.untasked →
      Agrees ops ops' (performAll m ops) (performAll m' ops') ∨
        Bursts (performAll m ops).2 ∨ Bursts (performAll m' ops').2) :
    Agrees [.interrupt ops] [.interrupt ops']
      ([(perform s (.interrupt ops)).1], (perform s (.interrupt ops)).2)
        ([(perform s' (.interrupt ops')).1], (perform s' (.interrupt ops')).2) ∨
      Bursts (perform s (.interrupt ops)).2 ∨ Bursts (perform s' (.interrupt ops')).2 := by
  have henter :=
    matches_of_blind (fun j => blind_enter _ (prefixed_prompt j)) (blind_enter _ untasked_prompt) h
  unfold perform
  cases he : onCore Core.enterHandler s with
  | error e m =>
    rw [he] at henter
    obtain ⟨m', he'⟩ := henter.error
    rw [he'] at henter ⊢
    have hends : Matches (α := Answer) s s' (.error e m) (.error e m') := henter.of_error
    refine .inl ⟨?_, hends.final, hends.halted⟩
    simp only [Step.comparedAll, Step.compared, comparedAll_nil, hends.record]
  | ok was m =>
    obtain ⟨m', he'⟩ := henter.answer was m he
    have hm : m.untasked = m'.untasked := by
      have hfinal := henter.final
      rwa [he, he'] at hfinal
    rw [he']
    have hrun := hinner m m' hm
    rcases hp : performAll m ops with ⟨steps, n, halted⟩
    rcases hp' : performAll m' ops' with ⟨steps', n', halted'⟩
    rw [hp, hp'] at hrun
    simp only [hp, hp']
    rcases hrun with ⟨hsteps, hfinal, hhalted⟩ | ⟨hhalted, hfull⟩ | ⟨hhalted, hfull⟩
    · have hclose : ∀ {r r' : EStateM.Result Halt Session Answer}, Matches n n' r r' →
          Agrees [.interrupt ops] [.interrupt ops'] ([.interrupt steps (n.recordOf r)], outcomeOf r)
            ([.interrupt steps' (n'.recordOf r')], outcomeOf r') := by
        intro r r' hends
        refine ⟨?_, hends.final, hends.halted⟩
        simp only [Step.comparedAll, Step.compared, hends.record, show _ = _ from hsteps]
      obtain rfl : halted = halted' := hhalted
      left
      cases halted with
      | some e => exact hclose (matches_of_halt e hfinal)
      | none =>
        exact hclose <| matches_of_blind (fun j => blind_leave _ (prefixed_prompt j) was)
          (blind_leave _ untasked_prompt was) hfinal
    · obtain rfl : halted = some .overflow := hhalted
      exact .inr (.inl ⟨rfl, hfull⟩)
    · obtain rfl : halted' = some .overflow := hhalted
      exact .inr (.inr ⟨rfl, hfull⟩)

theorem cons_neutral {op op' : Operation} {ops ops' : List Operation}
    (hfirst : Agrees [op] [op'] ([(perform s op).1], (perform s op).2)
      ([(perform s' op').1], (perform s' op').2) ∨
      Bursts (perform s op).2 ∨ Bursts (perform s' op').2)
    (hrest : ∀ m m' : Session, m.untasked = m'.untasked →
      Agrees ops ops' (performAll m ops) (performAll m' ops') ∨
        Bursts (performAll m ops).2 ∨ Bursts (performAll m' ops').2) :
    Agrees (op :: ops) (op' :: ops') (performAll s (op :: ops)) (performAll s' (op' :: ops')) ∨
      Bursts (performAll s (op :: ops)).2 ∨ Bursts (performAll s' (op' :: ops')).2 := by
  unfold performAll
  rcases hp : perform s op with ⟨step, m, halted⟩
  rcases hp' : perform s' op' with ⟨step', m', halted'⟩
  rw [hp, hp'] at hfirst
  rcases hfirst with ⟨hsteps, hfinal, hhalted⟩ | ⟨hhalted, hfull⟩ | ⟨hhalted, hfull⟩
  · obtain rfl : halted = halted' := hhalted
    simp only [Step.comparedAll, List.cons.injEq, and_true] at hsteps
    cases halted with
    | some e =>
      refine .inl ⟨?_, hfinal, rfl⟩
      simp only [Step.comparedAll, comparedAll_nil, hsteps]
    | none =>
      have hrun := hrest m m' hfinal
      rcases hq : performAll m ops with ⟨steps, n, halted⟩
      rcases hq' : performAll m' ops' with ⟨steps', n', halted'⟩
      rw [hq, hq'] at hrun
      simp only [hq, hq']
      refine hrun.imp_left fun hrun => ⟨?_, hrun.final, hrun.halted⟩
      have htail := hrun.steps
      simp only [Step.comparedAll, hsteps, htail]
  · obtain rfl : halted = some .overflow := hhalted
    exact .inr (.inl ⟨rfl, hfull⟩)
  · obtain rfl : halted' = some .overflow := hhalted
    exact .inr (.inr ⟨rfl, hfull⟩)

mutual

/-- Operations that differ in tasks say and do the same, or a counter is full. -/
theorem perform_neutral {s s' : Session} (h : s.untasked = s'.untasked) : (op op' : Operation) →
    op.untasked = op'.untasked →
    Agrees [op] [op'] ([(perform s op).1], (perform s op).2)
      ([(perform s' op').1], (perform s' op').2) ∨
      Bursts (perform s op).2 ∨ Bursts (perform s' op').2
  | .call c, .call c', hops => by
    unfold Operation.untasked at hops
    exact call_neutral h (Operation.call.inj hops)
  | .call _, .interrupt _, hops | .interrupt _, .call _, hops => by
    unfold Operation.untasked at hops
    cases hops
  | .interrupt ops, .interrupt ops', hops => by
    unfold Operation.untasked at hops
    exact interrupt_neutral h fun m m' hm =>
      performAll_agrees hm ops ops' (Operation.interrupt.inj hops)

/-- So do lists of operations. -/
theorem performAll_agrees {s s' : Session} (h : s.untasked = s'.untasked) :
    (ops ops' : List Operation) → Operation.untaskedAll ops = Operation.untaskedAll ops' →
    Agrees ops ops' (performAll s ops) (performAll s' ops') ∨
      Bursts (performAll s ops).2 ∨ Bursts (performAll s' ops').2
  | [], [], _ => .inl ⟨rfl, h, rfl⟩
  | [], _ :: _, hops | _ :: _, [], hops => by
    unfold Operation.untaskedAll at hops
    cases hops
  | op :: ops, op' :: ops', hops => by
    unfold Operation.untaskedAll at hops
    obtain ⟨hop, hops⟩ := List.cons.inj hops
    exact cons_neutral (perform_neutral h op op' hop) fun m m' hm =>
      performAll_agrees hm ops ops' hops

end

theorem validate_untasked (s : Session) : s.untasked.core.validate = s.core.validate := by
  have hjournal := Core.validate_guise (Guise.prefixed s.core.journal) s.unwritten.core
  rw [show (Guise.prefixed s.core.journal).core s.unwritten.core = s.core from
    congrArg Session.core (prefixed_unwritten s)] at hjournal
  exact (Core.validate_guise Guise.untasked s.unwritten.core).trans hjournal.symm

/-- Sessions that are the same but for tasks are audited and shut down alike. -/
theorem finish_untasked (h : s.untasked = s'.untasked) :
    s.finish.untasked = s'.finish.untasked := by
  have hends :=
    matches_of_blind (fun j => mimics_onCore (Core.blind_shutDown (φ := Guise.prefixed j)))
    (mimics_onCore Core.blind_shutDown) h
  have hlast := congrArg (fun n : Session => n.core.machine) hends.final
  have hmachine : ∀ n : Session, n.untasked.core.machine = n.core.machine := fun _ => rfl
  simp only [hmachine] at hlast
  simp only [finish, Ending.untasked, hends.events, hends.output, hlast, ← validate_untasked s,
    ← validate_untasked s', h]

/-- **Tasks are neutral.** Two sessions, for instance the same one after booting, differ at most in
tasks, in their journals and in who had the ticks outside the idle thread, and perform operations
that differ at most in tasks. Then at every step they answer alike but for the text of the usage, or
halt for the same reason, record the same events but for those about tasks, and print the same but
for the usage. They end up with no more differences than they had, and are audited and shut down
alike. The only exception is a session that has no room for another tick in one of the two words
that such ticks are counted in. -/
theorem performAll_neutral {ops ops' : List Operation} (h : s.untasked = s'.untasked)
    (hops : Operation.untaskedAll ops = Operation.untaskedAll ops') :
    (Agrees ops ops' (performAll s ops) (performAll s' ops') ∧
        (performAll s ops).2.1.finish.untasked = (performAll s' ops').2.1.finish.untasked) ∨
      Bursts (performAll s ops).2 ∨ Bursts (performAll s' ops').2 :=
  (performAll_agrees h ops ops' hops).imp_left fun hrun => ⟨hrun, finish_untasked hrun.final⟩

/-- A thread with a task, and one without, is created in a handler, runs for a tick and exits. The
tick is counted in different words, and what is recorded differs. -/
theorem performAll_neutral_split : ∃ s : Session, Reached (fun _ _ => True) [] s ∧
    let ops (task : Option Task) : List Operation :=
      [.interrupt [.call (.spawn "works" (some 40) task)], .call .usage, .call (.tick 1),
        .call .exit]
    let r := performAll s (ops (some (.named "works")))
    let r' := performAll s (ops none)
    r.2.2 = none ∧ r.2.1.core.usage = ⟨0, 0, 1⟩ ∧ r'.2.1.core.usage = ⟨0, 1, 0⟩ ∧
      r.2.1.core.journal.events ≠ r'.2.1.core.journal.events ∧
      Agrees (ops (some (.named "works"))) (ops none) r r' := by
  let ops (task : Option Task) : List Operation :=
    [.interrupt [.call (.spawn "works" (some 40) task)], .call .usage, .call (.tick 1), .call .exit]
  have hrun : (replayFrom (fun _ _ _ => true) ⟨none, none, none, false, none⟩ []).any (fun r =>
      let r₁ := (performAll r.2 (ops (some (.named "works")))).2
      let r₂ := (performAll r.2 (ops none)).2
      (r₁.2 = none ∧ r₂.2 = none) ∧ r₁.1.core.usage = ⟨0, 0, 1⟩ ∧ r₂.1.core.usage = ⟨0, 1, 0⟩ ∧
        r₁.1.core.journal.events ≠ r₂.1.core.journal.events) = true := by
    decide +kernel
  obtain ⟨⟨log, s⟩, hs, hrun⟩ := (Option.any_eq_true _ _).mp hrun
  obtain ⟨⟨hdone, hdone'⟩, husage, husage', hevents⟩ := of_decide_eq_true hrun
  have hlog : Logged (fun _ _ _ => True) log [] s := logged_replayFrom (fun _ _ _ _ => trivial) hs
  have hboth := @performAll_neutral s s (ops (some (.named "works"))) (ops none) rfl rfl
  refine ⟨s, hlog.reached fun _ _ _ _ => trivial, hdone, husage, husage', hevents, ?_⟩
  rcases hboth with hboth | ⟨hhalted, -⟩ | ⟨hhalted, -⟩
  · exact hboth.1
  · cases hdone.symm.trans hhalted
  · cases hdone'.symm.trans hhalted

end Session

end ThreadCore
