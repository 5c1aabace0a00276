import ThreadCore.Proofs.Onward

/-!
# The interrupt flag

An operation masks interrupts while it works on the core, also while it switches, and hands the
interrupt flag back as it found it. `Rule.Upholds` says this of a step: the flags are as before if
it ends with an answer, and if it halts, then not because the flag was on where it has to be off,
and not because a thread was switched to itself (`Halt.maskFault`). The second needs that stack
pointers tell threads apart (`Core.Anchored`), which every step keeps.

A handler that does not enable interrupts leaves the flag as the interrupted thread had it. Explicit
guards that are closed in the reverse order restore it to where it was before the first of them
(`Operation.Bracketed`).
-/

namespace ThreadCore

/-- Whether a turn was ended or a switch made with interrupts enabled, or a switch to the running
context. -/
def Halt.maskFault : Halt → Bool
  | .dispatchUnmasked | .switchUnmasked | .switchInPlace _ => true
  | _ => false

/-! ## Rules -/

/-- A rule for steps: what holds before and after them, what they leave as it is, and what of the
former holds even where they halt. -/
structure Rule (σ : Type) where
  inv : σ → Prop
  rel : σ → σ → Prop
  rest : σ → Prop
  refl : ∀ s, rel s s
  trans : ∀ {s m s'}, rel s m → rel m s' → rel s s'
  inv_rest : ∀ {s}, inv s → rest s

namespace Rule

variable {σ α β : Type} {r : Rule σ} {s : σ} {e : Halt}

/-- The step from `s` obeys the rule if it ends with an answer. If it halts, then for another reason
than the interrupt flag. -/
structure UpholdsAt (r : Rule σ) (x : EStateM Halt σ α) (s : σ) : Prop where
  ok : ∀ a s', x s = .ok a s' → r.rel s s' ∧ r.inv s'
  halts : ∀ h s', x s = .error h s' → h.maskFault = false ∧ r.rest s'

/-- The step does so from every state in which the rule holds. -/
def Upholds (r : Rule σ) (x : EStateM Halt σ α) : Prop := ∀ s, r.inv s → r.UpholdsAt x s

theorem UpholdsAt.bind {x : EStateM Halt σ α} {g : α → EStateM Halt σ β} (hx : r.UpholdsAt x s)
    (hg : ∀ a m, x s = .ok a m → r.inv m → r.UpholdsAt (g a) m) : r.UpholdsAt (x >>= g) s := by
  constructor
  · intro b s' h
    obtain ⟨a, m, hm, h⟩ := bind_eq_ok.mp h
    obtain ⟨hfirst, hinv⟩ := hx.ok a m hm
    obtain ⟨hrest, hinv'⟩ := (hg a m hm hinv).ok b s' h
    exact ⟨r.trans hfirst hrest, hinv'⟩
  · intro h s' he
    rcases bind_eq_error.mp he with he | ⟨a, m, hm, he⟩
    · exact hx.halts h s' he
    · exact (hg a m hm (hx.ok a m hm).2).halts h s' he

theorem Upholds.bind {x : EStateM Halt σ α} {g : α → EStateM Halt σ β} (hx : r.Upholds x)
    (hg : ∀ a, r.Upholds (g a)) : r.Upholds (x >>= g) :=
  fun s hs => (hx s hs).bind fun a m _ hm => hg a m hm

theorem upholds_pure (a : α) : r.Upholds (pure a) := by
  refine fun s hs => ⟨fun b s' h => ?_, fun h s' he => nomatch he⟩
  obtain ⟨-, rfl⟩ := pure_eq_ok.mp h
  exact ⟨r.refl s, hs⟩

theorem upholds_get : r.Upholds (get : EStateM Halt σ σ) := by
  refine fun s hs => ⟨fun b s' h => ?_, fun h s' he => nomatch he⟩
  cases h
  exact ⟨r.refl s, hs⟩

theorem UpholdsAt.get_bind {g : σ → EStateM Halt σ β} (hg : r.UpholdsAt (g s) s) :
    r.UpholdsAt (get >>= g) s :=
  ⟨hg.ok, hg.halts⟩

theorem upholds_throw (he : e.maskFault = false) : r.Upholds (throw e : EStateM Halt σ α) := by
  refine fun s hs => ⟨fun a s' h => (nomatch h), fun h s' hx => ?_⟩
  cases hx
  exact ⟨he, r.inv_rest hs⟩

theorem upholds_modify {f : σ → σ} (hf : ∀ s, r.inv s → r.rel s (f s) ∧ r.inv (f s)) :
    r.Upholds (modify f) := by
  refine fun s hs => ⟨fun u s' h => ?_, fun h s' he => nomatch he⟩
  rw [modify_eq_ok] at h
  subst h
  exact hf s hs

theorem upholds_demand {p : Prop} [Decidable p] (he : e.maskFault = false) :
    r.Upholds (demand p e : EStateM Halt σ Unit) := by
  unfold demand
  split
  · exact upholds_pure ()
  · exact upholds_throw he

theorem UpholdsAt.demand_bind {p : Prop} [Decidable p] {g : Unit → EStateM Halt σ β} (hs : r.inv s)
    (he : e.maskFault = false) (hg : p → r.UpholdsAt (g ()) s) :
    r.UpholdsAt (demand p e >>= g) s := by
  apply (upholds_demand he s hs).bind
  intro _ m hm _
  obtain ⟨hp, rfl⟩ := demand_eq_ok.mp hm
  exact hg hp

/-- A demand that is met. -/
theorem UpholdsAt.met_bind {p : Prop} [Decidable p] {g : Unit → EStateM Halt σ β} (hp : p)
    (hg : r.UpholdsAt (g ()) s) : r.UpholdsAt (demand p e >>= g) s := by
  have hmet : (demand p e : EStateM Halt σ Unit) = pure () := if_pos hp
  rw [hmet]
  exact ⟨hg.ok, hg.halts⟩

end Rule

/-- The question, if it has no answer, halts for another reason than the interrupt flag. -/
def Mild {α : Type} (x : Except Halt α) : Prop := ∀ h, x = .error h → h.maskFault = false

section

variable {α β : Type} {e : Halt}

theorem mild_pure (a : α) : Mild (pure a) := by
  intro h hx
  cases hx

theorem mild_error (he : e.maskFault = false) : Mild (.error e : Except Halt α) := by
  intro h hx
  cases hx
  exact he

theorem Mild.bind {x : Except Halt α} {g : α → Except Halt β} (hx : Mild x) (hg : ∀ a, Mild (g a)) :
    Mild (x >>= g) := by
  intro h he
  cases x with
  | ok a => exact hg a h he
  | error e =>
    cases he
    exact hx _ rfl

theorem mild_demand {p : Prop} [Decidable p] (he : e.maskFault = false) :
    Mild (demand p e : Except Halt Unit) := by
  unfold demand
  split
  · exact mild_pure ()
  · exact mild_error he

theorem mild_push (q : Queue) (t : ThreadId) : Mild (q.push t) := by
  unfold Queue.push
  split
  · exact mild_error rfl
  · exact mild_pure _

end

namespace Core

variable {α β : Type} {k k' : Core} {t : ThreadId} {s l c : ObjectId} {off : Bool}

/-! ## Questions -/

theorem mild_thread (t : ThreadId) (k : Core) : Mild (k.thread t) := by
  unfold thread
  split
  · exact mild_pure _
  · exact mild_error rfl

theorem mild_running (k : Core) : Mild k.running :=
  (mild_thread _ k).bind fun _ => (mild_demand rfl).bind fun _ => (mild_demand rfl).bind fun _ =>
    mild_pure _

theorem mild_semaphore (s : ObjectId) (k : Core) : Mild (k.semaphore s) := by
  unfold semaphore
  split
  · exact mild_pure _
  · exact mild_error rfl

theorem mild_lock (l : ObjectId) (k : Core) : Mild (k.lock l) := by
  unfold lock
  split
  · exact mild_pure _
  · exact mild_error rfl

theorem mild_condition (c : ObjectId) (k : Core) : Mild (k.condition c) := by
  unfold condition
  split
  · exact mild_pure _
  · exact mild_error rfl

theorem mild_mostUrgent (q : Queue) (k : Core) : Mild (k.mostUrgent q) :=
  (mild_demand rfl).bind fun _ => mild_pure _

theorem mild_earliestSleeper (k : Core) : Mild k.earliestSleeper :=
  (mild_demand rfl).bind fun _ => mild_pure _

theorem mild_outranked (k : Core) : Mild k.outranked := by
  refine (mild_mostUrgent _ k).bind fun best => ?_
  split
  · exact mild_pure _
  split
  · exact mild_pure _
  split
  · exact mild_error rfl
  · exact mild_pure _

theorem mild_greatestPriority (k : Core) (least : Priority) (ts : List ThreadId) :
    Mild (k.greatestPriority least ts) := by
  induction ts generalizing least with
  | nil => exact mild_pure _
  | cons t ts ih => exact (mild_thread t k).bind fun _ => ih _

theorem mild_effectivePriority (t : ThreadId) (k : Core) : Mild (k.effectivePriority t) :=
  (mild_thread t k).bind fun _ => mild_greatestPriority k _ _

theorem mild_heldByCurrent (l : ObjectId) (k : Core) : Mild (k.heldByCurrent l) :=
  (mild_lock l k).bind fun _ => (mild_running k).bind fun _ => mild_pure _

theorem mild_childRecord (parent child : ThreadId) (k : Core) : Mild (k.childRecord parent child) :=
  (mild_thread parent k).bind fun _ => mild_pure _

theorem mild_auditEntry (k : Core) (place : Place) (t : ThreadId) :
    Mild (k.auditEntry place t) := by
  have hthread := mild_thread t k
  unfold auditEntry
  split
  · exact (mild_demand rfl).bind fun _ => hthread.bind fun _ => mild_demand rfl
  · exact hthread.bind fun _ => (mild_demand rfl).bind fun _ => mild_demand rfl
  · exact hthread.bind fun _ => mild_demand rfl

theorem mild_enroll (seen : List (ThreadId × Place)) (t : ThreadId) (place : Place) :
    Mild (enroll seen t place) := by
  unfold enroll
  split
  · exact mild_error rfl
  · exact mild_pure _

theorem mild_auditEntries (k : Core) (place : Place) (seen : List (ThreadId × Place))
    (ts : List ThreadId) : Mild (k.auditEntries place seen ts) := by
  induction ts generalizing seen with
  | nil => exact mild_pure _
  | cons t ts ih =>
    exact (mild_auditEntry k place t).bind fun _ => (mild_enroll seen t place).bind fun _ => ih _

theorem mild_auditQueues (k : Core) (seen : List (ThreadId × Place)) (qs : List (Place × Queue)) :
    Mild (k.auditQueues seen qs) := by
  induction qs generalizing seen with
  | nil => exact mild_pure _
  | cons q qs ih => exact (mild_auditEntries k _ seen _).bind fun _ => ih _

theorem mild_auditThread (k : Core) (th : Thread) : Mild (k.auditThread th) := by
  refine (mild_demand rfl).bind fun _ => (mild_demand rfl).bind fun _ => ?_
  have hpriority : Mild (do
      let expected ← k.greatestPriority th.base th.donors.entries
      demand (th.priority = expected) (.auditPriority th.id th.priority expected)) :=
    (mild_greatestPriority k _ _).bind fun _ => mild_demand rfl
  split
  · exact hpriority
  · exact (mild_lock _ k).bind fun _ => (mild_demand rfl).bind fun _ => hpriority

theorem mild_validate (k : Core) : Mild k.validate := by
  refine (mild_demand rfl).bind fun _ => (mild_auditQueues k _ _).bind fun _ => ?_
  generalize k.threads.values = ths
  induction ths with
  | nil => exact mild_pure _
  | cons th ths ih => exact (mild_auditThread k th).bind fun _ => ih

/-! ## Threads and their stack pointers -/

/-- No thread was ever switched to itself. -/
def Apart (k : Core) : Prop := ∀ s t, Event.switched s t ∈ k.journal.events.toList → s ≠ t

theorem Apart.addEvent {e : Event} (h : k.Apart) (he : ∀ s t, e = .switched s t → s ≠ t) :
    ({ k with journal := k.journal.addEvent e } : Core).Apart := by
  intro s t hm
  have hm : Event.switched s t ∈ (k.journal.events.push e).toList := hm
  rw [Array.toList_push] at hm
  rcases List.mem_append.mp hm with hm | hm
  · exact h s t hm
  · exact he s t (List.mem_singleton.mp hm).symm

/-- Pages and threads are numbered alike, and every live thread has the stack pointer that its page
gave it. -/
structure Anchored (k : Core) : Prop where
  number : k.nextThread = k.machine.handedOut + 1
  sp : ∀ (t : ThreadId) (th : Thread), k.threads[t]? = some th →
    th.context.sp = (Page.blank t).lastWord
  apart : k.Apart

theorem lastWord_blank_inj {t u : Nat} (h : (Page.blank t).lastWord = (Page.blank u).lastWord) :
    t = u := by
  simp only [Page.lastWord, Page.address, Page.blank, Page.wordSize, pageSize] at h
  omega

theorem Anchored.mapThread (h : k.Anchored) {f : Thread → Thread}
    (hf : ∀ th, th.context.sp = (Page.blank t).lastWord →
      (f th).context.sp = (Page.blank t).lastWord) :
    (k.mapThread t f).Anchored := by
  refine ⟨h.number, fun u th hth => ?_, h.apart⟩
  rw [getElem?_mapThread] at hth
  split at hth
  · rename_i hut
    obtain ⟨th', hth', rfl⟩ := Option.map_eq_some_iff.mp hth
    exact hut ▸ hf th' (h.sp t th' hth')
  · exact h.sp u th hth

/-- Steps leave the flags of the machine as they are and threads where their stacks are. If `off`,
they start with interrupts disabled. -/
def masking (off : Bool) : Rule Core where
  inv k := k.Anchored ∧ (off = true → k.machine.interruptsOn = false)
  rel k k' := k'.machine.flags = k.machine.flags
  rest := Apart
  refl _ := rfl
  trans h h' := h'.trans h
  inv_rest h := h.1.apart

theorem masking_inv (h : (masking off).inv k) (hf : k'.machine.flags = k.machine.flags)
    (ha : k'.Anchored) : (masking off).rel k k' ∧ (masking off).inv k' :=
  ⟨hf, ha, fun ho => (congrArg (Flags.isOn · .interrupt) hf).trans (h.2 ho)⟩

theorem masking_modify {f : Core → Core} (hf : ∀ k, (f k).machine.flags = k.machine.flags)
    (ha : ∀ k, k.Anchored → (f k).Anchored) : (masking off).Upholds (modify f) :=
  Rule.upholds_modify fun k hk => masking_inv hk (hf k) (ha k hk.1)

/-- What the rule sees of a core. -/
structure Sight where
  flags : Flags
  handedOut : Nat
  nextThread : ThreadId
  threads : Std.ExtTreeMap ThreadId Thread
  events : Array Event

def sight (k : Core) : Sight :=
  ⟨k.machine.flags, k.machine.handedOut, k.nextThread, k.threads, k.journal.events⟩

theorem Anchored.congr (h : k.Anchored) (hs : k'.sight = k.sight) : k'.Anchored := by
  have hnumber : k'.nextThread = k'.machine.handedOut + 1 :=
    (congrArg Sight.nextThread hs).trans
      (h.number.trans (congrArg (· + 1) (congrArg Sight.handedOut hs).symm))
  have hthreads : k'.threads = k.threads := congrArg Sight.threads hs
  have hevents : k'.journal.events = k.journal.events := congrArg Sight.events hs
  refine ⟨hnumber, fun t th hth => h.sp t th (hthreads ▸ hth),
    fun s t hm => h.apart s t (hevents ▸ hm)⟩

/-- A change of what the rule does not see. -/
theorem masking_adjust {f : Core → Core} (hf : ∀ k, (f k).sight = k.sight) :
    (masking off).Upholds (modify f) :=
  masking_modify (fun k => congrArg Sight.flags (hf k)) fun k h => h.congr (hf k)

theorem masking_ask {question : Core → Except Halt α} (hq : ∀ k, Mild (question k)) :
    (masking off).Upholds (ask question) := by
  refine fun k hk => ⟨fun a k' h => ?_, fun h k' he => ?_⟩
  · obtain ⟨-, rfl⟩ := ask_eq_ok_iff.mp h
    exact ⟨rfl, hk⟩
  · obtain ⟨ha, rfl⟩ := ask_eq_error_iff.mp he
    exact ⟨hq _ h ha, hk.1.apart⟩

theorem ask_bind {question : Core → Except Halt α} {g : α → CoreM β} (hk : (masking off).inv k)
    (hq : Mild (question k)) (hg : ∀ a, question k = .ok a → (masking off).UpholdsAt (g a) k) :
    (masking off).UpholdsAt (ask question >>= g) k := by
  constructor
  · intro b k' h
    obtain ⟨a, ha, h⟩ := ask_bind_eq_ok.mp h
    exact (hg a ha).ok b k' h
  · intro h k' he
    rcases bind_eq_error.mp he with hx | ⟨a, m, hm, hx⟩
    · obtain ⟨ha, rfl⟩ := ask_eq_error_iff.mp hx
      exact ⟨hq h ha, hk.1.apart⟩
    · obtain ⟨ha, rfl⟩ := ask_eq_ok_iff.mp hm
      exact (hg a ha).halts h k' hx

/-- A step of the machine that leaves the flags alone and hands out no page. -/
theorem masking_onMachine {step : MachineM α}
    (hok : ∀ w a w', step w = .ok a w' → w'.flags = w.flags ∧ w'.handedOut = w.handedOut)
    (hhalts : ∀ w h w', step w = .error h w' → h.maskFault = false) :
    (masking off).Upholds (onMachine step) := by
  refine fun k hk => ⟨fun a k' h => ?_, fun h k' he => ?_⟩
  · obtain ⟨w, hw, rfl⟩ := onMachine_eq_ok.mp h
    obtain ⟨hf, ho⟩ := hok _ a w hw
    exact masking_inv hk hf ⟨hk.1.number.trans (congrArg (· + 1) ho.symm), hk.1.sp, hk.1.apart⟩
  · obtain ⟨w, hw, rfl⟩ := onMachine_eq_error he
    exact ⟨hhalts _ h w hw, hk.1.apart⟩

/-! ## Masked sections -/

end Core

/-- The flags once interrupts are enabled again that `was` says were enabled. -/
def Flags.unmasked (f : Flags) (was : Bool) : Flags := if was then f.set .interrupt true else f

theorem Flags.unmasked_set (f : Flags) :
    (f.set .interrupt false).unmasked (f.isOn .interrupt) = f := by
  unfold Flags.unmasked
  split
  · rename_i hon
    rw [Flags.set_set]
    exact hon ▸ Flags.set_isOn f .interrupt
  · rename_i hoff
    exact (Bool.not_eq_true _ ▸ hoff : f.isOn .interrupt = false) ▸ Flags.set_isOn f .interrupt

theorem Flags.unmasked_unmasked (f : Flags) (a b : Bool) :
    (f.unmasked a).unmasked b = f.unmasked (a || b) := by
  cases a <;> cases b <;> simp [Flags.unmasked]

/-- Of two nested sections only the flag before the first counts. -/
theorem Flags.unmasked_set_or (f : Flags) (b : Bool) :
    (f.set .interrupt false).unmasked (f.isOn .interrupt || b) = f.unmasked b := by
  rw [← Flags.unmasked_unmasked, Flags.unmasked_set]

/-- The machine once a handler is entered. -/
def Machine.entered (w : Machine) : Machine :=
  { w with flags := w.flags.set .interrupt false, inHandler := true }

namespace Core

theorem mask_eq (k : Core) : onMachine Machine.mask k =
    .ok k.machine.interruptsOn { k with machine := k.machine.withInterrupts false } := rfl

theorem unmask_eq (was : Bool) (k : Core) : onMachine (Machine.unmask was) k =
    .ok () { k with machine := { k.machine with flags := k.machine.flags.unmasked was } } := by
  cases was <;> rfl

/-- The step enables interrupts if `was` says so, and leaves the flags as they are if it does
not. -/
structure Unmasks (was : Bool) (x : CoreM α) (k : Core) : Prop where
  ok : ∀ a k', x k = .ok a k' → k'.machine.flags = k.machine.flags.unmasked was ∧ k'.Anchored
  halts : ∀ h k', x k = .error h k' → h.maskFault = false ∧ k'.Apart

theorem unmasks_unmask {was : Bool} (hk : (masking true).inv k) :
    Unmasks was (onMachine (Machine.unmask was)) k := by
  constructor
  · intro u k' h
    rw [unmask_eq] at h
    cases h
    exact ⟨rfl, hk.1.number, hk.1.sp, hk.1.apart⟩
  · intro h k' he
    rw [unmask_eq] at he
    cases he

/-- What comes before leaves interrupts disabled. -/
theorem Unmasks.after {was : Bool} {x : CoreM β} {g : β → CoreM α} (hx : (masking true).Upholds x)
    (hk : (masking true).inv k) (hg : ∀ b m, (masking true).inv m → Unmasks was (g b) m) :
    Unmasks was (x >>= g) k := by
  obtain ⟨hok, hhalts⟩ := hx k hk
  constructor
  · intro a k' h
    obtain ⟨b, m, hm, h⟩ := bind_eq_ok.mp h
    obtain ⟨hflags, hinv⟩ := hok b m hm
    obtain ⟨hflags', ha⟩ := (hg b m hinv).ok a k' h
    exact ⟨hflags'.trans (congrArg (Flags.unmasked · was) hflags), ha⟩
  · intro h k' he
    rcases bind_eq_error.mp he with he | ⟨b, m, hm, he⟩
    · exact hhalts h k' he
    · exact (hg b m (hok b m hm).2).halts h k' he

theorem Unmasks.bind_pure {was : Bool} {x : CoreM β} (hx : Unmasks was x k) (a : α) :
    Unmasks was (x >>= fun _ => pure a) k := by
  constructor
  · intro a k' h
    obtain ⟨b, m, hm, h⟩ := bind_eq_ok.mp h
    obtain ⟨-, rfl⟩ := pure_eq_ok.mp h
    exact hx.ok b m hm
  · intro h k' he
    rcases bind_eq_error.mp he with he | ⟨b, m, -, he⟩
    · exact hx.halts h k' he
    · cases he

/-- **Masked sections.** They hand the interrupt flag back as they found it, if their body leaves it
off. -/
theorem masking_masked {body : CoreM α} (hb : (masking true).Upholds body) :
    (masking off).Upholds (masked body) := by
  intro k hk
  have hm : (masking true).inv { k with machine := k.machine.withInterrupts false } :=
    ⟨⟨hk.1.number, hk.1.sp, hk.1.apart⟩, fun _ => Flags.isOn_set_self _ _ _⟩
  have hrest : Unmasks k.machine.interruptsOn (do
      let a ← body
      onMachine (Machine.unmask k.machine.interruptsOn)
      return a) { k with machine := k.machine.withInterrupts false } :=
    .after hb hm fun a _ hn => (unmasks_unmask hn).bind_pure a
  constructor
  · intro a k' h
    obtain ⟨hflags, ha⟩ := hrest.ok a k' ((bind_of_ok (mask_eq k)).symm.trans h)
    exact masking_inv hk (hflags.trans (Flags.unmasked_set _)) ha
  · intro h k' he
    exact hrest.halts h k' ((bind_of_ok (mask_eq k)).symm.trans he)

/-! ## Steps without a switch -/

theorem masking_record {e : Event} (he : ∀ s t, e = .switched s t → s ≠ t) :
    (masking off).Upholds (record e) := by
  exact masking_modify (fun _ => rfl) fun k h => ⟨h.number, h.sp, h.apart.addEvent he⟩

theorem masking_write (text : String) : (masking off).Upholds (write text) :=
  masking_adjust fun _ => rfl

theorem masking_writeLine (x : Severity) (text : String) :
    (masking off).Upholds (writeLine x text) := by
  refine Rule.upholds_get.bind fun k => ?_
  split
  · exact masking_write _
  · exact Rule.upholds_pure _

theorem masking_say (n : Notice) : (masking off).Upholds (say n) := masking_writeLine _ _

theorem masking_increment (n : Nat) : (masking off).Upholds (increment n) := by
  unfold increment
  split
  · exact Rule.upholds_pure _
  · exact Rule.upholds_throw rfl

theorem masking_forM {g : β → CoreM Unit} (hg : ∀ b, (masking off).Upholds (g b)) (bs : List β) :
    (masking off).Upholds (bs.forM g) := by
  induction bs with
  | nil => exact Rule.upholds_pure _
  | cons b bs ih => exact (hg b).bind fun _ => ih

theorem masking_outsideHandler (attempt : Attempt) :
    (masking off).Upholds (outsideHandler attempt) :=
  Rule.upholds_get.bind fun _ => Rule.upholds_demand rfl

theorem masking_changeThread (t : ThreadId) {f : Thread → Thread}
    (hf : ∀ th, (f th).context.sp = th.context.sp) : (masking off).Upholds (changeThread t f) :=
  (masking_ask (mild_thread t)).bind fun _ =>
    masking_modify (fun _ => rfl) fun _ h => h.mapThread fun th hth => (hf th).trans hth

theorem masking_changeFamily (t : ThreadId) (f : Family → Family) :
    (masking off).Upholds (changeFamily t f) :=
  masking_changeThread t fun _ => rfl

theorem masking_changeSemaphore (s : ObjectId) (f : Semaphore → Semaphore) :
    (masking off).Upholds (changeSemaphore s f) :=
  (masking_ask (mild_semaphore s)).bind fun _ =>
    masking_adjust fun _ => rfl

theorem masking_changeLock (l : ObjectId) (f : Lock → Lock) :
    (masking off).Upholds (changeLock l f) :=
  (masking_ask (mild_lock l)).bind fun _ =>
    masking_adjust fun _ => rfl

theorem masking_changeCondition (c : ObjectId) (f : Condition → Condition) :
    (masking off).Upholds (changeCondition c f) :=
  (masking_ask (mild_condition c)).bind fun _ =>
    masking_adjust fun _ => rfl

theorem masking_freshObject : (masking off).Upholds freshObject :=
  Rule.upholds_get.bind fun _ => (masking_increment _).bind fun _ =>
    .bind (masking_adjust fun _ => rfl) fun _ => Rule.upholds_pure _

theorem masking_newSemaphore (value : Nat) : (masking off).Upholds (newSemaphore value) :=
  masking_freshObject.bind fun _ =>
    .bind (masking_adjust fun _ => rfl) fun _ => Rule.upholds_pure _

theorem masking_newLock : (masking off).Upholds newLock :=
  masking_freshObject.bind fun _ =>
    .bind (masking_adjust fun _ => rfl) fun _ => Rule.upholds_pure _

theorem masking_newCondition : (masking off).Upholds newCondition :=
  masking_freshObject.bind fun _ =>
    .bind (masking_adjust fun _ => rfl) fun _ => Rule.upholds_pure _

theorem masking_dropSemaphore (s : ObjectId) : (masking off).Upholds (dropSemaphore s) :=
  masking_adjust fun _ => rfl

theorem masking_enqueueReady (t : ThreadId) : (masking off).Upholds (enqueueReady t) :=
  (masking_ask fun _ => mild_push _ _).bind fun _ =>
    masking_adjust fun _ => rfl

theorem masking_unblock (t : ThreadId) : (masking off).Upholds (unblock t) :=
  Rule.upholds_get.bind fun _ => (Rule.upholds_demand rfl).bind fun _ => masking_masked <|
    (masking_ask (mild_thread t)).bind fun _ => (Rule.upholds_demand rfl).bind fun _ =>
    .bind (masking_changeThread t fun _ => rfl) fun _ => masking_enqueueReady t

theorem masking_refreshPriority (t : ThreadId) : (masking off).Upholds (refreshPriority t) :=
  (masking_ask (mild_effectivePriority t)).bind fun _ =>
    .bind (masking_changeThread t fun _ => rfl) fun _ => Rule.upholds_pure _

theorem masking_addDonor (t donor : ThreadId) : (masking off).Upholds (addDonor t donor) :=
  (masking_ask fun k => (mild_thread t k).bind fun _ => mild_push _ _).bind fun _ =>
    masking_changeThread t fun _ => rfl

theorem masking_donateAlong (donor : ThreadId) (links : Nat) (waiter : ThreadId) :
    (masking off).Upholds (donateAlong donor links waiter) := by
  induction links generalizing waiter with
  | zero =>
    unfold donateAlong
    refine (masking_ask (mild_thread waiter)).bind fun th => ?_
    split
    · exact Rule.upholds_pure _
    refine (masking_ask (mild_lock _)).bind fun o => ?_
    split
    · exact Rule.upholds_throw rfl
    · exact (Rule.upholds_demand rfl).bind fun _ => Rule.upholds_throw rfl
  | succ links ih =>
    unfold donateAlong
    refine (masking_ask (mild_thread waiter)).bind fun th => ?_
    split
    · exact Rule.upholds_pure _
    refine (masking_ask (mild_lock _)).bind fun o => ?_
    split
    · exact Rule.upholds_throw rfl
    · exact (Rule.upholds_demand rfl).bind fun _ => (masking_refreshPriority _).bind fun _ =>
        (masking_say _).bind fun _ => ih _

theorem masking_waitForLock (t : ThreadId) (l : ObjectId) (holder : ThreadId) :
    (masking off).Upholds (waitForLock t l holder) :=
  (masking_ask fun k => (mild_lock l k).bind fun _ => mild_push _ _).bind fun _ =>
    (masking_changeLock _ _).bind fun _ => .bind (masking_changeThread t fun _ => rfl) fun _ =>
    (masking_addDonor _ _).bind fun _ => Rule.upholds_get.bind fun _ => masking_donateAlong _ _ _

theorem masking_wakeOne (s : ObjectId) : (masking off).Upholds (wakeOne s) := by
  refine (masking_ask (mild_semaphore s)).bind fun sema =>
    (masking_ask (mild_mostUrgent _)).bind fun next => ?_
  split
  · exact (masking_changeSemaphore _ _).bind fun _ => (masking_unblock _).bind fun _ =>
      Rule.upholds_pure _
  · exact (masking_increment _).bind fun _ => (masking_changeSemaphore _ _).bind fun _ =>
      Rule.upholds_pure _

theorem masking_passOn (l : ObjectId) (holder : ThreadId) :
    (masking off).Upholds (passOn l holder) := by
  refine (masking_ask (mild_lock l)).bind fun lk => (Rule.upholds_demand rfl).bind fun _ =>
    (masking_changeLock _ _).bind fun _ => .bind (masking_changeThread _ fun _ => rfl) fun _ =>
    (masking_refreshPriority _).bind fun _ => (masking_ask (mild_mostUrgent _)).bind fun next => ?_
  split
  · exact Rule.upholds_pure _
  · exact (masking_changeLock _ _).bind fun _ =>
      .bind (masking_changeThread _ fun _ => rfl) fun _ =>
      (masking_forM (fun _ => masking_addDonor _ _) _).bind fun _ =>
      (masking_refreshPriority _).bind fun _ => (masking_unblock _).bind fun _ =>
      (masking_say _).bind fun _ => Rule.upholds_pure _

theorem masking_wakeDue (now n : Nat) : (masking off).Upholds (wakeDue now n) := by
  induction n with
  | zero => exact Rule.upholds_pure _
  | succ n ih =>
    refine (masking_ask mild_earliestSleeper).bind fun next => ?_
    split
    · exact Rule.upholds_pure _
    refine (masking_ask (mild_thread _)).bind fun th => ?_
    split
    · exact Rule.upholds_pure _
    · exact .bind (masking_adjust fun _ => rfl) fun _ =>
        .bind (masking_changeThread _ fun _ => rfl) fun _ => (masking_unblock _).bind fun _ =>
        (masking_say _).bind fun _ => ih.bind fun _ => Rule.upholds_pure _

theorem masking_checkHeld (use : ConditionUse) (c l : ObjectId) :
    (masking off).Upholds (checkHeld use c l) :=
  (masking_ask (mild_heldByCurrent l)).bind fun _ => Rule.upholds_demand rfl

theorem masking_signalOne (c l : ObjectId) : (masking off).Upholds (signalOne c l) := by
  refine (masking_ask (mild_condition c)).bind fun cond =>
    (masking_ask (mild_mostUrgent _)).bind fun next => ?_
  split
  · exact Rule.upholds_pure _
  · exact (masking_changeCondition _ _).bind fun _ => Rule.upholds_get.bind fun _ =>
      (masking_waitForLock _ _ _).bind fun _ => (masking_say _).bind fun _ => Rule.upholds_pure _

theorem masking_signalMany (c l : ObjectId) (n : Nat) :
    (masking off).Upholds (signalMany c l n) := by
  induction n with
  | zero => exact Rule.upholds_pure _
  | succ n ih =>
    refine (masking_signalOne c l).bind fun next => ?_
    split
    · exact Rule.upholds_pure _
    · exact ih.bind fun _ => Rule.upholds_pure _

theorem masking_dropRecord (entry : ChildRecord) : (masking off).Upholds (dropRecord entry) :=
  (masking_dropSemaphore _).bind fun _ => masking_dropSemaphore _

theorem masking_adopt (parent child : ThreadId) : (masking off).Upholds (adopt parent child) :=
  (masking_newSemaphore _).bind fun _ => (masking_newSemaphore _).bind fun _ =>
    (masking_changeFamily _ _).bind fun _ => masking_changeFamily _ _

theorem masking_collect (parent child : ThreadId) :
    (masking off).Upholds (collect parent child) := by
  refine (masking_ask (mild_childRecord _ _)).bind fun r => ?_
  split
  · exact Rule.upholds_pure _
  split
  · exact Rule.upholds_pure _
  · exact (masking_changeFamily _ _).bind fun _ => (masking_dropRecord _).bind fun _ =>
      Rule.upholds_pure _

theorem masking_orphan (entries : List (ThreadId × ChildRecord)) :
    (masking off).Upholds (orphan entries) := by
  induction entries with
  | nil => exact Rule.upholds_pure _
  | cons entry rest ih =>
    refine Rule.upholds_get.bind fun k => ?_
    split
    · exact (masking_changeFamily _ _).bind fun _ => (masking_dropRecord _).bind fun _ => ih
    · exact (masking_dropRecord _).bind fun _ => ih

theorem masking_reportExit (t : ThreadId) (status : Int32) (parent : ThreadId) :
    (masking off).Upholds (reportExit t status parent) := by
  refine Rule.upholds_get.bind fun k => ?_
  split
  · exact Rule.upholds_pure _
  split
  · exact Rule.upholds_pure _
  refine (masking_changeFamily _ _).bind fun _ => ?_
  split
  · exact (masking_wakeOne _).bind fun _ => (masking_wakeOne _).bind fun _ => masking_say _
  · exact (masking_wakeOne _).bind fun _ => masking_say _

/-- A note about a task, if it has a label, is in keeping with the rule. -/
theorem masking_note {label? : Option String} {event : String → Event} {rest : CoreM α}
    (he : ∀ label s t, event label ≠ .switched s t) (h : (masking off).Upholds rest) :
    (masking off).Upholds (match label? with
      | some label => record (event label) >>= fun _ => rest
      | none => rest) := by
  split
  · exact (masking_record fun s t hs => absurd hs (he _ s t)).bind fun _ => h
  · exact h

theorem masking_leaveFamily (t : ThreadId) : (masking off).Upholds (leaveFamily t) := by
  refine (masking_ask (mild_thread t)).bind fun th => masking_note nofun ?_
  refine (masking_changeFamily _ _).bind fun _ => (masking_orphan _).bind fun _ => ?_
  split
  · exact Rule.upholds_pure _
  · exact masking_reportExit _ _ _

theorem takeStack_overflow {e : Halt} (h : takeStack k = .error e k') : e = .overflow := by
  unfold takeStack at h
  rcases bind_eq_error.mp h with h | ⟨o, m, -, h⟩
  · obtain ⟨w, hw, rfl⟩ := onMachine_eq_error h
    unfold Machine.takePage at hw
    rcases bind_eq_error.mp hw with hw | ⟨b, w', -, hw⟩
    · unfold Machine.onPool at hw
      split at hw
      · cases hw
      · rename_i hp
        cases hw
        exact (Pool.take_eq_error hp).1
    · cases b <;> cases hw
  · cases o <;> cases h

/-- A page that is handed out belongs to the thread that is about to be numbered. -/
theorem masking_register (name : String) (priority : Priority) (entry : Option String)
    (task : Option Task) : (masking off).Upholds (register name priority entry task) := by
  refine fun k hk => ⟨fun a k' h => ?_, fun h k' he => ?_⟩
  · rcases (register_birth h).2 with ⟨-, -, rfl⟩ | ⟨-, -, rfl⟩
    · refine masking_inv hk rfl
        ⟨congrArg (· + 1) hk.1.number, fun u th hth => ?_, hk.1.apart.addEvent nofun⟩
      rw [getElem?_enlist] at hth
      split at hth
      · rename_i hu
        obtain rfl := Option.some.inj hth
        rw [hu]
        exact congrArg (fun n => (Page.blank n).lastWord) hk.1.number.symm
      · exact hk.1.sp u th hth
    · exact masking_inv hk rfl ⟨hk.1.number, hk.1.sp, hk.1.apart.addEvent nofun⟩
  · unfold register at he
    rcases bind_eq_error.mp he with he | ⟨o, m, hm, he⟩
    · obtain rfl := takeStack_overflow he
      exact ⟨rfl, takeStack_eq_error he ▸ hk.1.apart⟩
    rcases takeStack_eq_ok hm with ⟨-, rfl, rfl⟩ | ⟨-, rfl, -⟩
    · simp only [get_bind_eq_error] at he
      rcases bind_eq_error.mp he with he | ⟨_, _, -, he⟩
      · obtain ⟨-, rfl, rfl⟩ := increment_eq_error.mp he
        exact ⟨rfl, hk.1.apart.addEvent nofun⟩
      · cases he
    · cases he

/-! ## Turns -/

theorem masking_reclaim (n : Nat) : (masking off).Upholds (reclaim n) := by
  have hfree : (masking off).Upholds (onMachine Machine.freePage) := by
    refine masking_onMachine (fun w u w' hw => ?_) fun w h w' hw => ?_
    · obtain rfl := Machine.freePage_eq_ok hw
      exact ⟨rfl, rfl⟩
    · obtain ⟨rfl, -⟩ := Machine.freePage_eq_error hw
      rfl
  induction n with
  | zero => exact Rule.upholds_pure _
  | succ n ih =>
    refine Rule.upholds_get.bind fun k => ?_
    split
    · exact Rule.upholds_pure _
    · exact .bind (masking_adjust fun _ => rfl) fun _ =>
        (masking_say _).bind fun _ => (masking_record (by nofun)).bind fun _ =>
          hfree.bind fun _ => ih

theorem masking_takeNext : (masking off).Upholds takeNext := by
  refine (masking_ask fun k => mild_mostUrgent _ k).bind fun next => ?_
  split
  · exact .bind (masking_adjust fun _ => rfl) fun _ =>
      Rule.upholds_pure _
  · exact Rule.upholds_get.bind fun _ => Rule.upholds_pure _

theorem switch_of_ne {running resumed : Context} (hoff : k.machine.interruptsOn = false)
    (hsp : running.sp ≠ resumed.sp) : onMachine (Machine.switch running resumed) k =
      .ok ({ resumed with entry := none }, resumed.entry)
        { k with machine :=
          { k.machine with switches := Word.nextWrapping k.machine.switches } } := by
  refine onMachine_eq_ok.mpr ⟨_, ?_, rfl⟩
  unfold Machine.switch
  rw [get_bind_eq_ok, demand_bind_eq_ok, demand_bind_eq_ok, modify_bind_eq_ok, pure_eq_ok]
  exact ⟨hoff, hsp, rfl, rfl⟩

/-- A context is loaded with interrupts disabled, and it is another one. -/
theorem masking_resume {source target : ThreadId} {running resumed : Context}
    (hne : source ≠ target) (hrunning : running.sp = (Page.blank source).lastWord)
    (hresumed : resumed.sp = (Page.blank target).lastWord) :
    (masking true).Upholds (resume source target running resumed) := by
  refine (masking_record fun s t hs => ?_).bind fun _ => fun k hk => ?_
  · cases hs
    exact hne
  have hsp : running.sp ≠ resumed.sp := fun he =>
    hne (lastWord_blank_inj (hrunning.symm.trans (he.trans hresumed)))
  have hswitch := switch_of_ne (hk.2 rfl) hsp
  have hrest : (masking true).Upholds (do
      changeThread target fun th => { th with context := { resumed with entry := none } }
      match resumed.entry with
      | some label => record (.launched label)
      | none => pure ()) := by
    refine .bind ((masking_ask (mild_thread target)).bind fun _ => ?_) fun _ => ?_
    · exact masking_modify (fun _ => rfl) fun _ h => h.mapThread fun _ _ => hresumed
    · split
      · exact masking_record nofun
      · exact Rule.upholds_pure _
  have hm : (masking true).inv
      { k with machine := { k.machine with switches := Word.nextWrapping k.machine.switches } } :=
    ⟨⟨hk.1.number, hk.1.sp, hk.1.apart⟩, hk.2⟩
  obtain ⟨hok, hhalts⟩ := hrest _ hm
  constructor
  · intro a k' h
    rw [bind_of_ok hswitch] at h
    exact hok a k' h
  · intro h k' he
    rw [bind_of_ok hswitch] at he
    exact hhalts h k' he

theorem masking_switchTo {source target : ThreadId} (hne : source ≠ target) :
    (masking true).Upholds (switchTo source target) := by
  refine .bind (masking_adjust fun _ => rfl) fun _ =>
    (masking_say _).bind fun _ => fun k hk => ?_
  refine ask_bind hk (mild_thread source k) fun leaving hl => ?_
  have hleaving := hk.1.sp source leaving (thread_eq_ok_iff.mp hl)
  have hload : (masking true).Upholds (do
      let resumed ← ask (thread target)
      resume source target leaving.context resumed.context) := by
    refine fun m hm => ask_bind hm (mild_thread target m) fun resumed hr => ?_
    exact masking_resume hne hleaving (hm.1.sp target resumed (thread_eq_ok_iff.mp hr)) m hm
  have herase : (masking true).Upholds (modify fun n : Core =>
      { n with threads := n.threads.erase source, dead := n.dead ++ [leaving] }) := by
    refine masking_modify (fun _ => rfl) fun m hm =>
      ⟨hm.number, fun u th hth => hm.sp u th ?_, hm.apart⟩
    rw [Std.ExtTreeMap.getElem?_erase] at hth
    split at hth
    · cases hth
    · exact hth
  split
  · exact (herase.bind fun _ => hload) k hk
  · exact hload k hk

theorem masking_dispatch : (masking true).Upholds dispatch := by
  refine Rule.upholds_get.bind fun k₀ => masking_takeNext.bind fun target => fun k hk => ?_
  refine .get_bind <| .met_bind (hk.2 rfl) ?_
  refine Rule.Upholds.bind (masking_ask (mild_thread _)) (fun src => ?_) k hk
  refine (Rule.upholds_demand rfl).bind fun _ => (masking_ask (mild_thread _)).bind fun th =>
    (Rule.upholds_demand rfl).bind fun _ => .bind (masking_changeThread _ fun _ => rfl) fun _ =>
    masking_note nofun ?_
  refine .bind (masking_adjust fun _ => rfl) fun _ => ?_
  split
  · rename_i hne
    exact masking_switchTo hne
  · exact Rule.upholds_pure _

/-- **Turns.** A turn that is ended with interrupts disabled leaves them disabled, and no demand for
that fails on the way. -/
theorem masking_endTurn (σ : ThreadState) : (masking true).Upholds (endTurn σ) := by
  refine fun k hk => .get_bind <| .met_bind (hk.2 rfl) ?_
  refine .get_bind <| Rule.Upholds.bind (masking_ask (mild_thread _)) (fun th => ?_) k hk
  exact (Rule.upholds_demand rfl).bind fun _ => Rule.upholds_get.bind fun _ =>
    (masking_reclaim _).bind fun _ => .bind (masking_changeThread _ fun _ => rfl) fun _ =>
    masking_dispatch

theorem masking_yieldNow : (masking off).Upholds yieldNow := by
  refine (masking_outsideHandler _).bind fun _ => (masking_ask mild_running).bind fun th =>
    masking_masked <| Rule.upholds_get.bind fun k => ?_
  split
  · exact masking_endTurn _
  · exact (masking_enqueueReady _).bind fun _ => masking_endTurn _

theorem masking_preempt : (masking off).Upholds preempt := by
  refine (masking_ask mild_outranked).bind fun b => ?_
  split
  · refine Rule.upholds_get.bind fun k => ?_
    split
    · exact masking_adjust fun _ => rfl
    · exact masking_yieldNow
  · exact Rule.upholds_pure _

/-- A thread that blocks has interrupts disabled already. -/
theorem masking_block : (masking off).Upholds block := by
  refine (masking_outsideHandler _).bind fun _ => fun k hk => .get_bind ?_
  refine .demand_bind hk rfl fun hoff => ?_
  obtain ⟨hok, hhalts⟩ := masking_endTurn .blocked k ⟨hk.1, fun _ => hoff⟩
  exact ⟨fun a k' h => masking_inv hk (hok a k' h).1 (hok a k' h).2.1, hhalts⟩

/-! ## Operations that may switch -/

theorem masking_setPriority (p : Priority) : (masking off).Upholds (setPriority p) := by
  refine (Rule.upholds_demand rfl).bind fun _ => (masking_ask mild_running).bind fun th =>
    .bind (masking_masked ?_) fun _ => masking_preempt
  exact .bind (masking_changeThread _ fun _ => rfl) fun _ =>
    (masking_refreshPriority _).bind fun _ => Rule.upholds_pure _

theorem masking_sleepUntil (tick : Nat) : (masking off).Upholds (sleepUntil tick) := by
  refine (masking_outsideHandler _).bind fun _ => (masking_ask mild_running).bind fun th =>
    Rule.upholds_get.bind fun k => ?_
  split
  · exact Rule.upholds_pure _
  · exact masking_masked <| .bind (masking_changeThread _ fun _ => rfl) fun _ =>
      (masking_ask fun _ => mild_push _ _).bind fun _ =>
      .bind (masking_adjust fun _ => rfl) fun _ =>
      (masking_say _).bind fun _ => masking_endTurn _

theorem masking_wakeSleepers (now : Nat) : (masking off).Upholds (wakeSleepers now) := by
  refine (masking_masked <| Rule.upholds_get.bind fun _ => masking_wakeDue _ _).bind fun woken => ?_
  split
  · exact masking_preempt.bind fun _ => Rule.upholds_pure _
  · exact Rule.upholds_pure _

theorem masking_down (s : ObjectId) : (masking off).Upholds (down s) := by
  refine (masking_ask mild_running).bind fun th => masking_masked <|
    (masking_ask (mild_semaphore s)).bind fun sema => ?_
  split
  · exact masking_changeSemaphore _ _
  · exact (masking_outsideHandler _).bind fun _ =>
      (masking_ask fun _ => mild_push _ _).bind fun _ =>
      (masking_changeSemaphore _ _).bind fun _ => (masking_say _).bind fun _ => masking_endTurn _

theorem masking_tryDown (s : ObjectId) : (masking off).Upholds (tryDown s) := by
  refine masking_masked <| (masking_ask (mild_semaphore s)).bind fun sema => ?_
  split
  · exact (masking_changeSemaphore _ _).bind fun _ => Rule.upholds_pure _
  · exact Rule.upholds_pure _

theorem masking_up (s : ObjectId) : (masking off).Upholds (up s) := by
  refine (masking_masked (masking_wakeOne s)).bind fun woken => ?_
  split
  · exact masking_preempt
  · exact Rule.upholds_pure _

theorem masking_destroySemaphore (s : ObjectId) : (masking off).Upholds (destroySemaphore s) := by
  refine (masking_ask (mild_semaphore s)).bind fun sema => ?_
  split
  · exact (masking_dropSemaphore _).bind fun _ => Rule.upholds_pure _
  · exact Rule.upholds_pure _

theorem masking_acquire (l : ObjectId) : (masking off).Upholds (acquire l) := by
  refine (masking_outsideHandler _).bind fun _ => (masking_ask mild_running).bind fun th =>
    masking_masked <| (masking_ask (mild_lock l)).bind fun o => ?_
  split
  · exact masking_changeLock _ _
  · exact (Rule.upholds_demand rfl).bind fun _ => (masking_waitForLock _ _ _).bind fun _ =>
      (masking_say _).bind fun _ => masking_endTurn _

theorem masking_tryAcquire (l : ObjectId) : (masking off).Upholds (tryAcquire l) := by
  refine (masking_ask mild_running).bind fun th => masking_masked <|
    (masking_ask (mild_lock l)).bind fun o => ?_
  split
  · exact (masking_changeLock _ _).bind fun _ => Rule.upholds_pure _
  · exact Rule.upholds_pure _

theorem masking_release (l : ObjectId) : (masking off).Upholds (release l) :=
  (masking_ask mild_running).bind fun _ => (masking_masked (masking_passOn _ _)).bind fun _ =>
    masking_preempt

theorem masking_destroyLock (l : ObjectId) : (masking off).Upholds (destroyLock l) := by
  refine (masking_ask (mild_lock l)).bind fun o => ?_
  split
  · exact Rule.upholds_pure _
  · exact .bind (masking_adjust fun _ => rfl) fun _ =>
      Rule.upholds_pure _

theorem masking_await (c l : ObjectId) : (masking off).Upholds (await c l) := by
  refine (masking_outsideHandler _).bind fun _ => (masking_checkHeld _ _ _).bind fun _ =>
    (masking_ask mild_running).bind fun th => masking_masked <|
    (masking_ask (mild_condition c)).bind fun cond => ?_
  have hrest : (masking true).Upholds (do
      let waiters ← ask fun k => do (← k.condition c).waiters.push th.id
      changeCondition c fun cond => { cond with waiters := waiters }
      let _ ← passOn l th.id
      say (.waits th.id (.condition c))
      endTurn .blocked) :=
    (masking_ask fun k => (mild_condition c k).bind fun _ => mild_push _ _).bind fun _ =>
      (masking_changeCondition _ _).bind fun _ => (masking_passOn _ _).bind fun _ =>
      (masking_say _).bind fun _ => masking_endTurn _
  split
  · exact (Rule.upholds_demand rfl).bind fun _ => hrest
  · exact (masking_changeCondition _ _).bind fun _ => hrest

theorem masking_signal (c l : ObjectId) : (masking off).Upholds (signal c l) :=
  (masking_checkHeld _ _ _).bind fun _ => (masking_masked (masking_signalOne _ _)).bind fun _ =>
    Rule.upholds_pure _

theorem masking_broadcast (c l : ObjectId) : (masking off).Upholds (broadcast c l) :=
  (masking_checkHeld _ _ _).bind fun _ => masking_masked <|
    (masking_ask (mild_condition c)).bind fun _ => masking_signalMany _ _ _

theorem masking_destroyCondition (c : ObjectId) : (masking off).Upholds (destroyCondition c) := by
  refine (masking_ask (mild_condition c)).bind fun o => ?_
  split
  · exact .bind (masking_adjust fun _ => rfl) fun _ =>
      Rule.upholds_pure _
  · exact Rule.upholds_pure _

theorem masking_setExitStatus (status : Int32) : (masking off).Upholds (setExitStatus status) :=
  (masking_ask mild_running).bind fun _ => masking_changeFamily _ _

theorem masking_reportFork : (masking off).Upholds reportFork := by
  refine (masking_ask mild_running).bind fun th => (masking_ask (mild_thread _)).bind fun _ => ?_
  split
  · exact Rule.upholds_pure _
  refine (masking_ask (mild_childRecord _ _)).bind fun r => ?_
  split
  · exact Rule.upholds_pure _
  split
  · exact Rule.upholds_pure _
  · exact (masking_changeFamily _ _).bind fun _ => (masking_up _).bind fun _ => Rule.upholds_pure _

theorem masking_awaitFork (child : ThreadId) : (masking off).Upholds (awaitFork child) := by
  refine (masking_ask mild_running).bind fun th =>
    (masking_ask (mild_childRecord _ _)).bind fun r => ?_
  split
  · exact Rule.upholds_pure _
  · exact (masking_down _).bind fun _ => Rule.upholds_pure _

theorem masking_tryCollect (child : ThreadId) : (masking off).Upholds (tryCollect child) :=
  (masking_ask mild_running).bind fun _ => masking_collect _ _

theorem masking_awaitExit (child : ThreadId) : (masking off).Upholds (awaitExit child) := by
  refine (masking_ask mild_running).bind fun th => (masking_collect _ _).bind fun first => ?_
  split
  · exact Rule.upholds_pure _
  · exact Rule.upholds_pure _
  refine (masking_ask (mild_childRecord _ _)).bind fun r => ?_
  split
  · exact Rule.upholds_pure _
  refine (masking_down _).bind fun _ => Rule.upholds_get.bind fun _ => ?_
  split
  · exact Rule.upholds_pure _
  refine (masking_collect _ _).bind fun second => ?_
  split
  · exact Rule.upholds_pure _
  · exact Rule.upholds_pure _
  · exact Rule.upholds_throw rfl

theorem masking_exit : (masking off).Upholds exit := by
  refine (masking_outsideHandler _).bind fun _ => (masking_ask mild_running).bind fun th =>
    Rule.upholds_get.bind fun k => (Rule.upholds_demand rfl).bind fun _ =>
    Rule.upholds_get.bind fun k => ?_
  have hrest : (masking off).Upholds (do
      leaveFamily th.id
      say (.exits th.id (← ask (thread th.id)).name)
      masked (endTurn .dying)) :=
    (masking_leaveFamily _).bind fun _ => (masking_ask (mild_thread _)).bind fun _ =>
      (masking_say _).bind fun _ => masking_masked (masking_endTurn _)
  split
  · exact (Rule.upholds_throw rfl).bind fun _ => hrest
  · exact hrest

theorem masking_spawn (name : String) (priority : Priority) (task : Option Task) :
    (masking off).Upholds (spawn name priority task) := by
  refine (Rule.upholds_demand rfl).bind fun _ => (masking_ask mild_running).bind fun creator =>
    (masking_register _ _ _ _).bind fun r => ?_
  split
  · exact (masking_say _).bind fun _ => Rule.upholds_pure _
  · exact (masking_adopt _ _).bind fun _ => (masking_say _).bind fun _ =>
      (masking_unblock _).bind fun _ => masking_preempt.bind fun _ => Rule.upholds_pure _

/-! ## Handlers -/

theorem enterHandler_entered {was : Bool} : enterHandler k = .ok was k' ↔
    k.machine.inHandler = false ∧ was = k.machine.interruptsOn ∧
      k' = { k with machine := k.machine.entered } := by
  unfold enterHandler
  rw [bind_of_ok (mask_eq k)]
  simp only [bind_eq_ok, setHandler_eq_ok, pure_eq_ok]
  constructor
  · rintro ⟨_, _, ⟨hne, rfl⟩, rfl, rfl⟩
    exact ⟨by simpa [Machine.withInterrupts] using hne, rfl, rfl⟩
  · rintro ⟨hout, rfl, rfl⟩
    exact ⟨(), _, ⟨by simp [Machine.withInterrupts, hout], rfl⟩, rfl, rfl⟩

theorem masking_entered {k : Core} (h : k.Anchored) :
    (masking true).inv { k with machine := k.machine.entered } :=
  ⟨⟨h.number, h.sp, h.apart⟩, fun _ => Flags.isOn_set_self _ _ _⟩

theorem masking_setHandler (on : Bool) :
    (masking off).Upholds (onMachine (Machine.setHandler on)) := by
  refine masking_onMachine (fun w u w' hw => ?_) fun w h w' hw => ?_
  · unfold Machine.setHandler at hw
    rw [get_bind_eq_ok, demand_bind_eq_ok, modify_eq_ok] at hw
    obtain ⟨-, rfl⟩ := hw
    exact ⟨rfl, rfl⟩
  · unfold Machine.setHandler at hw
    rw [get_bind_eq_error] at hw
    rcases bind_eq_error.mp hw with hw | ⟨_, _, -, hw⟩
    · unfold demand at hw
      split at hw
      · cases hw
      · cases hw
        rfl
    · cases hw

theorem enterHandler_mild {e : Halt} (hk : k.Anchored) (h : enterHandler k = .error e k') :
    e.maskFault = false ∧ k'.Apart := by
  unfold enterHandler at h
  rw [bind_of_ok (mask_eq k)] at h
  have hset : (masking false).Upholds (do
      onMachine (Machine.setHandler true)
      return k.machine.interruptsOn) :=
    (masking_setHandler true).bind fun _ => Rule.upholds_pure _
  have hm : (masking false).inv { k with machine := k.machine.withInterrupts false } :=
    ⟨⟨hk.number, hk.sp, hk.apart⟩, nofun⟩
  exact (hset _ hm).halts e k' h

/-- **The return.** A handler that ends with interrupts disabled hands them back as the interrupted
thread had them. -/
theorem leaveHandler_unmasks {was : Bool} (hk : (masking true).inv k) :
    Unmasks was (leaveHandler was) k := by
  refine .after (masking_setHandler false) hk fun _ k₁ h₁ =>
    .after Rule.upholds_get h₁ fun k₂ m h₂ => ?_
  refine .after (masking_adjust fun _ => rfl) h₂ fun _ k₃ h₃ => ?_
  refine .after Rule.upholds_get h₃ fun k₄ m h₄ => ?_
  split
  · exact .after (masking_endTurn _) h₄ fun _ _ => unmasks_unmask
  split
  · exact .after masking_yieldNow h₄ fun _ _ => unmasks_unmask
  · exact unmasks_unmask h₄

theorem masking_handleInterrupt {handler : CoreM α} (hx : (masking true).Upholds handler) :
    (masking off).Upholds (handleInterrupt handler) := by
  intro k hk
  have hrest : Unmasks k.machine.interruptsOn (do
      let a ← handler
      leaveHandler k.machine.interruptsOn
      return a) { k with machine := k.machine.entered } :=
    .after hx (masking_entered hk.1) fun a _ hn => (leaveHandler_unmasks hn).bind_pure a
  constructor
  · intro a k' h
    obtain ⟨was, m, hm, h⟩ := bind_eq_ok.mp h
    obtain ⟨-, rfl, rfl⟩ := enterHandler_entered.mp hm
    obtain ⟨hflags, ha⟩ := hrest.ok a k' h
    exact masking_inv hk (hflags.trans (Flags.unmasked_set _)) ha
  · intro h k' he
    rcases bind_eq_error.mp he with he | ⟨was, m, hm, he⟩
    · exact enterHandler_mild hk.1 he
    · obtain ⟨-, rfl, rfl⟩ := enterHandler_entered.mp hm
      exact hrest.halts h k' he

theorem masking_yieldOnReturn : (masking off).Upholds yieldOnReturn :=
  Rule.upholds_get.bind fun _ => (Rule.upholds_demand rfl).bind fun _ =>
    masking_adjust fun _ => rfl

theorem masking_countTick : (masking off).Upholds countTick := by
  have husage :
      ∀ f : Core → Usage, (masking off).Upholds (modify fun k => { k with usage := f k }) :=
    fun f => masking_adjust fun _ => rfl
  refine Rule.upholds_get.bind fun k => ?_
  split
  · exact (masking_increment _).bind fun _ => husage _
  · refine (masking_ask (mild_thread _)).bind fun th => ?_
    split
    · exact (masking_increment _).bind fun _ => husage _
    · exact (masking_increment _).bind fun _ => husage _

theorem masking_countSlice : (masking off).Upholds countSlice := by
  refine Rule.upholds_get.bind fun _ => (masking_increment _).bind fun slice =>
    .bind (masking_adjust fun _ => rfl) fun _ =>
    Rule.upholds_get.bind fun _ => ?_
  split
  · exact masking_adjust fun _ => rfl
  · exact Rule.upholds_pure _

theorem masking_timerInterrupt : (masking off).Upholds timerInterrupt :=
  masking_handleInterrupt <| Rule.upholds_get.bind fun _ => masking_countTick.bind fun _ =>
    masking_countSlice.bind fun _ => (masking_wakeSleepers _).bind fun _ => Rule.upholds_pure _

theorem masking_advance : (masking off).Upholds (onMachine Machine.advance) := by
  refine masking_onMachine (fun w a w' hw => ?_) fun w h w' hw => ?_
  · rw [Machine.advance, get_bind_eq_ok] at hw
    cases hn : Word.next? w.ticks with
    | none => simp only [hn, throw_eq_ok] at hw
    | some now =>
      simp only [hn, modify_bind_eq_ok, pure_eq_ok] at hw
      obtain ⟨-, rfl⟩ := hw
      exact ⟨rfl, rfl⟩
  · rw [Machine.advance, get_bind_eq_error] at hw
    cases hn : Word.next? w.ticks with
    | none =>
      simp only [hn] at hw
      cases hw
      rfl
    | some now =>
      simp only [hn] at hw
      cases hw

theorem masking_ticks (n : Nat) : (masking off).Upholds (ticks n) := by
  induction n with
  | zero => exact Rule.upholds_pure _
  | succ n ih => exact (masking_advance.bind fun _ => masking_timerInterrupt).bind fun _ => ih

theorem masking_advances (n : Nat) : (masking off).Upholds (advance n) := by
  induction n with
  | zero => exact Rule.upholds_get.bind fun _ => Rule.upholds_pure _
  | succ n ih => exact masking_advance.bind fun _ => ih

end Core

end ThreadCore
