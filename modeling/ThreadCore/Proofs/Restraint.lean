import ThreadCore.Proofs.Steadiness
import ThreadCore.Proofs.Parts

/-!
# What steps refrain from

A step may halt midway, and then its state stays on record. Here is what steps refrain from however
they end (`Respects`). Most leave the turn to the current thread (`Core.Abides`): nobody is switched
to, no stack is reclaimed, and in the queues of objects and among the sleepers nobody is new, but
for the waiters that a signal moves from a condition variable to a lock.

An operation that ends a turn does none of this inside a handler (`Core.Sheltered`), where those
that wait halt before they have done anything and those that give way leave it to the return.
Outside a handler it puts nobody into such a queue but the thread that it blocks, and that one only
if it has to wait.
-/

namespace ThreadCore

/-- Whether the event is one of a turn that ends. -/
def Event.ofTurn : Event → Bool
  | .switched .. | .launched _ | .activated _ | .freed _ => true
  | _ => false

/-- The machine is in a handler as before, has not switched, and its timer has not gone back. -/
structure Machine.Unswitched (w w' : Machine) : Prop where
  handler : w'.inHandler = w.inHandler
  switches : w'.switches = w.switches
  ticks : w.ticks ≤ w'.ticks

instance : IsPreorder Machine Machine.Unswitched where
  refl _ := ⟨rfl, rfl, le_rfl⟩
  trans _ _ _ h h' :=
    ⟨h'.handler.trans h.handler, h'.switches.trans h.switches, h.ticks.trans h'.ticks⟩

/-- The timer has not gone back. -/
def Machine.Onward (w w' : Machine) : Prop := w.ticks ≤ w'.ticks

instance : IsPreorder Machine Machine.Onward where
  refl _ := le_rfl
  trans _ _ _ h h' := le_trans (α := Nat) h h'

namespace Core

/-! ## However a step ends -/

section

variable {σ α β : Type} {s m : σ} {R S : σ → σ → Prop}

/-- The state in which a step ends, with an answer or with a halt. -/
def finalState : EStateM.Result Halt σ α → σ
  | .ok _ s => s
  | .error _ s => s

/-- However the step from `s` ends, it ends in a state to which `R` leads. -/
def RespectsAt (R : σ → σ → Prop) (x : EStateM Halt σ α) (s : σ) : Prop := R s (finalState (x s))

/-- The step does so from every state. -/
def Respects (R : σ → σ → Prop) (x : EStateM Halt σ α) : Prop := ∀ s, RespectsAt R x s

theorem RespectsAt.ok {x : EStateM Halt σ α} {a : α} (hx : RespectsAt R x s) (h : x s = .ok a m) :
    R s m := by
  rw [RespectsAt, h] at hx
  exact hx

/-- A step that halts in its first part ends there. -/
theorem finalState_bind {P : σ → Prop} {x : EStateM Halt σ α} {g : α → EStateM Halt σ β}
    (hx : P (finalState (x s))) (hg : ∀ a m, x s = .ok a m → P (finalState (g a m))) :
    P (finalState ((x >>= g) s)) := by
  cases hxs : x s with
  | ok a m =>
    rw [bind_of_ok hxs]
    exact hg a m hxs
  | error h m =>
    rw [hxs] at hx
    rw [bind_of_error hxs]
    exact hx

theorem RespectsAt.mono {x : EStateM Halt σ α} (hx : RespectsAt R x s)
    (hR : ∀ s s', R s s' → S s s') : RespectsAt S x s :=
  hR _ _ hx

theorem Respects.mono {x : EStateM Halt σ α} (hx : Respects R x) (hR : ∀ s s', R s s' → S s s') :
    Respects S x :=
  fun s => (hx s).mono hR

theorem respects_modify {g : σ → σ} (hg : ∀ s, R s (g s)) : Respects R (modify g) := hg

theorem RespectsAt.get_bind {g : σ → EStateM Halt σ β} (hg : RespectsAt R (g s) s) :
    RespectsAt R (get >>= g) s := hg

variable [IsPreorder σ R]

theorem respects_pure (a : α) : Respects R (pure a) := fun s => refl_of R s

theorem respects_get : Respects R (get : EStateM Halt σ σ) := fun s => refl_of R s

theorem respects_throw (e : Halt) : Respects R (throw e : EStateM Halt σ α) := fun s => refl_of R s

theorem RespectsAt.bind {x : EStateM Halt σ α} {g : α → EStateM Halt σ β} (hx : RespectsAt R x s)
    (hg : ∀ a m, x s = .ok a m → RespectsAt R (g a) m) : RespectsAt R (x >>= g) s :=
  finalState_bind hx fun a m h => trans_of R (hx.ok h) (hg a m h)

theorem Respects.bind {x : EStateM Halt σ α} {g : α → EStateM Halt σ β} (hx : Respects R x)
    (hg : ∀ a, Respects R (g a)) : Respects R (x >>= g) :=
  fun s => (hx s).bind fun a m _ => hg a m

theorem respects_demand (p : Prop) [Decidable p] (e : Halt) :
    Respects R (demand p e : EStateM Halt σ Unit) := by
  unfold demand
  split
  · exact respects_pure _
  · exact respects_throw _

end

variable {α β : Type} {k k' m : Core} {t : ThreadId} {s l c : ObjectId}
  {N : Set (Seat × ThreadId)} {R : Core → Core → Prop}

theorem respects_ask [IsPreorder Core R] (question : Core → Except Halt α) :
    Respects R (ask question) := by
  intro k
  unfold RespectsAt ask
  split <;> exact refl_of R k

theorem RespectsAt.ask_bind [IsPreorder Core R] {question : Core → Except Halt α} {g : α → CoreM β}
    (hg : ∀ a, question k = .ok a → RespectsAt R (g a) k) :
    RespectsAt R (ask question >>= g) k := by
  refine (respects_ask question k).bind fun a m h => ?_
  obtain ⟨hq, rfl⟩ := ask_eq_ok_iff.mp h
  exact hg a hq

theorem partwise_respects [IsPreorder Core R] : Partwise fun _ => Respects R where
  bind := .bind
  pure := respects_pure
  get := respects_get
  ask := respects_ask
  throw := respects_throw

theorem respects_outsideHandler [IsPreorder Core R] (attempt : Attempt) :
    Respects R (outsideHandler attempt) :=
  partwise_respects.outsideHandler attempt

/-! ## Who joins a queue -/

/-- `t` was in the queue, or takes one of the places `N`. -/
def Seated (N : Set (Seat × ThreadId)) (k : Core) (p : Seat) (t : ThreadId) : Prop :=
  t ∈ k.seating.queue p ∨ (p, t) ∈ N

/-- Nobody but `N` has joined a queue, other than the ready queue, except that waiters of condition
variables have gone on to wait for locks. -/
def Joins (N : Set (Seat × ThreadId)) (k k' : Core) : Prop :=
  ∀ p t, p ≠ .ready → t ∈ k'.seating.queue p →
    Seated N k p t ∨ (∃ l, p = .lock l) ∧ ∃ c, Seated N k (.condition c) t

theorem Joins.trans (h : Joins N k m) (h' : Joins N m k') : Joins N k k' := by
  -- A condition variable is not a lock, so whoever is new in its queue is one of `N`.
  have hcondition : ∀ c t, Seated N m (.condition c) t → Seated N k (.condition c) t := by
    intro c t ht
    rcases ht with ht | ht
    · rcases h (.condition c) t (by simp) ht with ht | ⟨⟨l, hl⟩, -⟩
      · exact ht
      · cases hl
    · exact .inr ht
  intro p t hp ht
  rcases h' p t hp ht with (ht | ht) | ⟨hl, c, ht⟩
  · exact h p t hp ht
  · exact .inl (.inr ht)
  · exact .inr ⟨hl, c, hcondition c t ht⟩

theorem Joins.mono {N' : Set (Seat × ThreadId)} (h : Joins N k k') (hN : N ⊆ N') : Joins N' k k' :=
  fun p t hp ht => (h p t hp ht).imp (Or.imp_right (hN ·))
    (And.imp_right (Exists.imp fun _ => Or.imp_right (hN ·)))

theorem joins_of_queue
    (h : ∀ p, p ≠ .ready → ∀ t ∈ k'.seating.queue p, t ∈ k.seating.queue p) : Joins N k k' :=
  fun p t hp ht => .inl (.inl (h p hp t ht))

theorem joins_of_eq (hs : k'.sleepers = k.sleepers) (ho : k'.objects = k.objects) :
    Joins N k k' := by
  refine joins_of_queue fun p hp t ht => ?_
  cases p with
  | ready => exact absurd rfl hp
  | sleep =>
    show t ∈ k.sleepers.entries
    rw [← hs]
    exact ht
  | _ =>
    simp only [seating, ← ho] at ht ⊢
    exact ht

theorem joins_setQueue {q : Seat} {ts : List ThreadId}
    (hseat : k'.seating = k.seating.setQueue q ts)
    (hts : ∀ t ∈ ts, Seated N k q t) : Joins N k k' := by
  intro p t hp ht
  simp only [hseat, Seating.setQueue, Function.update_apply] at ht
  split at ht
  · rename_i hq
    exact .inl (hq ▸ hts t ht)
  · exact .inl (.inl ht)

instance : IsPreorder Core (Joins N) where
  refl _ := joins_of_eq rfl rfl
  trans _ _ _ := Joins.trans

/-! ## Steps within a turn -/

/-- The turn of the current thread goes on, and nobody but `N` joins a queue. -/
structure Abides (N : Set (Seat × ThreadId)) (k k' : Core) : Prop where
  current : k'.current = k.current
  idle : k'.idle = k.idle
  handler : k'.machine.inHandler = k.machine.inHandler
  switches : k'.machine.switches = k.machine.switches
  dead : k'.dead = k.dead
  events : ∃ es, k'.journal.events.toList = k.journal.events.toList ++ es ∧
    ∀ e ∈ es, e.ofTurn = false
  joins : Joins N k k'
  ticks : k.machine.ticks ≤ k'.machine.ticks

/-- The list of the sleepers and when they wake. -/
def dorm (k : Core) : Queue × (ThreadId → Option Nat) := (k.sleepers, k.seating.wakeAt)

/-- Besides, the sleepers are left alone. -/
structure Restful (N : Set (Seat × ThreadId)) (k k' : Core) : Prop extends Abides N k k' where
  dorm : k'.dorm = k.dorm

/-- Nobody but `N` joins a queue, and the timer does not go back. -/
structure Passes (N : Set (Seat × ThreadId)) (k k' : Core) : Prop where
  joins : Joins N k k'
  ticks : k.machine.ticks ≤ k'.machine.ticks

theorem Abides.passes (h : Abides N k k') : Passes N k k' := ⟨h.joins, h.ticks⟩

theorem Passes.mono {N' : Set (Seat × ThreadId)} (h : Passes N k k') (hN : N ⊆ N') :
    Passes N' k k' :=
  ⟨h.joins.mono hN, h.ticks⟩

instance : IsPreorder Core (Passes N) where
  refl k := ⟨refl_of (Joins N) k, le_rfl⟩
  trans _ _ _ h h' := ⟨h.joins.trans h'.joins, h.ticks.trans h'.ticks⟩

theorem no_events (k : Core) : ∃ es, k.journal.events.toList = k.journal.events.toList ++ es ∧
    ∀ e ∈ es, Event.ofTurn e = false :=
  ⟨[], (List.append_nil _).symm, nofun⟩

instance : IsPreorder Core (Abides N) where
  refl k := ⟨rfl, rfl, rfl, rfl, rfl, no_events k, joins_of_eq rfl rfl, le_rfl⟩
  trans _ _ _ h h' := by
    obtain ⟨es, hes, hno⟩ := h.events
    obtain ⟨es', hes', hno'⟩ := h'.events
    refine ⟨h'.current.trans h.current, h'.idle.trans h.idle, h'.handler.trans h.handler,
      h'.switches.trans h.switches, h'.dead.trans h.dead, ⟨es ++ es', ?_, ?_⟩,
      h.joins.trans h'.joins, h.ticks.trans h'.ticks⟩
    · rw [hes', hes, List.append_assoc]
    · exact fun e he => (List.mem_append.mp he).elim (hno e) (hno' e)

instance : IsPreorder Core (Restful N) where
  refl k := ⟨refl_of (Abides N) k, rfl⟩
  trans _ _ _ h h' := ⟨trans_of (Abides N) h.toAbides h'.toAbides, h'.dorm.trans h.dorm⟩

theorem Abides.mono {N' : Set (Seat × ThreadId)} (h : Abides N k k') (hN : N ⊆ N') :
    Abides N' k k' :=
  ⟨h.current, h.idle, h.handler, h.switches, h.dead, h.events, h.joins.mono hN, h.ticks⟩

theorem Restful.mono {N' : Set (Seat × ThreadId)} (h : Restful N k k') (hN : N ⊆ N') :
    Restful N' k k' :=
  ⟨h.toAbides.mono hN, h.dorm⟩

/-- A change that is about nothing of this. -/
theorem Restful.of_eq (hc : k'.current = k.current) (hi : k'.idle = k.idle)
    (hh : k'.machine.inHandler = k.machine.inHandler)
    (hw : k'.machine.switches = k.machine.switches) (ht : k.machine.ticks ≤ k'.machine.ticks)
    (hd : k'.dead = k.dead) (he : k'.journal.events = k.journal.events)
    (hs : k'.sleepers = k.sleepers) (ho : k'.objects = k.objects)
    (hwake : k'.seating.wakeAt = k.seating.wakeAt) : Restful N k k' := by
  refine ⟨⟨hc, hi, hh, hw, hd, ?_, joins_of_eq hs ho, ht⟩, Prod.ext hs hwake⟩
  rw [he]
  exact no_events k

/-! ### The machine and the journal -/

theorem finalState_onMachine (step : MachineM α) (k : Core) :
    finalState (onMachine step k) = { k with machine := finalState (step k.machine) } := by
  unfold onMachine
  cases step k.machine <;> rfl

theorem rests_onMachine {step : MachineM α} (h : Respects Machine.Unswitched step) :
    Respects (Restful N) (onMachine step) := by
  intro k
  obtain ⟨hh, hw, ht⟩ := h k.machine
  unfold RespectsAt
  rw [finalState_onMachine]
  exact .of_eq rfl rfl hh hw ht rfl rfl rfl rfl rfl

theorem unswitched_withInterrupts (on : Bool) :
    Respects Machine.Unswitched (modify (·.withInterrupts on)) :=
  respects_modify fun _ => ⟨rfl, rfl, le_rfl⟩

theorem rests_mask : Respects (Restful N) (onMachine Machine.mask) :=
  rests_onMachine <| respects_get.bind fun _ => (unswitched_withInterrupts _).bind fun _ =>
    respects_pure _

theorem rests_unmask (was : Bool) : Respects (Restful N) (onMachine (Machine.unmask was)) := by
  refine rests_onMachine ?_
  unfold Machine.unmask
  split
  · exact unswitched_withInterrupts true
  · exact respects_pure _

theorem rests_advance : Respects (Restful N) (onMachine Machine.advance) := by
  refine rests_onMachine fun w => .get_bind ?_
  split
  · exact respects_throw _ _
  · rename_i now hnow
    obtain ⟨-, rfl⟩ := Word.next?_eq_some_iff.mp hnow
    exact ⟨rfl, rfl, Nat.le_succ _⟩

theorem rests_takePage : Respects (Restful N) (onMachine Machine.takePage) := by
  refine rests_onMachine (Respects.bind (fun w => ?_) fun taken => ?_)
  · unfold RespectsAt Machine.onPool
    split <;> exact ⟨rfl, rfl, le_rfl⟩
  · split
    · exact respects_get.bind fun _ => (respects_modify fun _ => ⟨rfl, rfl, le_rfl⟩).bind fun _ =>
        respects_pure _
    · exact respects_pure _

/-- A masked section, seen from its beginning. -/
theorem RespectsAt.masked [IsPreorder Core R] (hR : ∀ k k', Restful ∅ k k' → R k k')
    {body : CoreM α} (hb : ∀ m, Quiet k m → RespectsAt R body m) :
    RespectsAt R (Core.masked body) k :=
  ((rests_mask k).mono hR).bind fun was m hm => (hb m (quiet_mask hm)).bind fun a n _ =>
    ((rests_unmask was n).mono hR).bind fun _ v _ => respects_pure a v

theorem rests_write (text : String) : Respects (Restful N) (write text) :=
  respects_modify fun _ => .of_eq rfl rfl rfl rfl le_rfl rfl rfl rfl rfl rfl

theorem rests_writeLine (s : Severity) (text : String) :
    Respects (Restful N) (writeLine s text) := by
  refine respects_get.bind fun k => ?_
  split
  · exact rests_write _
  · exact respects_pure _

theorem rests_say (n : Notice) : Respects (Restful N) (say n) := rests_writeLine _ _

/-- What is said and masked is of no account for a relation that holds whenever nothing of this
changes. -/
theorem discreet_respects [IsPreorder Core R] (hR : ∀ k k', Restful ∅ k k' → R k k') :
    Discreet fun _ => Respects R where
  toPartwise := partwise_respects
  say n := (rests_say n).mono hR
  masked hb := fun _ => .masked hR fun m _ => hb m

theorem discreet_rests (N : Set (Seat × ThreadId)) : Discreet fun _ => Respects (Restful N) :=
  discreet_respects fun _ _ h => h.mono (Set.empty_subset N)

theorem rests_record {e : Event} (he : e.ofTurn = false) : Respects (Restful N) (record e) :=
  respects_modify fun _ => ⟨⟨rfl, rfl, rfl, rfl, rfl,
    ⟨[e], Array.toList_push, fun _ he' => List.mem_singleton.mp he' ▸ he⟩, joins_of_eq rfl rfl,
    le_rfl⟩, rfl⟩

/-! ### Threads and objects -/

theorem abides_changeThread (t : ThreadId) (f : Thread → Thread) :
    Respects (Abides N) (changeThread t f) :=
  (respects_ask _).bind fun _ => respects_modify fun k =>
    ⟨rfl, rfl, rfl, rfl, rfl, no_events k, joins_of_eq rfl rfl, le_rfl⟩

theorem rests_changeThread (t : ThreadId) {f : Thread → Thread}
    (hf : ∀ th, (f th).wakeAt = th.wakeAt) : Respects (Restful N) (changeThread t f) :=
  (respects_ask _).bind fun _ => respects_modify fun _ =>
    .of_eq rfl rfl rfl rfl le_rfl rfl rfl rfl rfl (funext (bind_getElem?_mapThread hf))

theorem rests_changeFamily (t : ThreadId) (f : Family → Family) :
    Respects (Restful N) (changeFamily t f) :=
  rests_changeThread t fun _ => rfl

/-- A change of the objects, seen by the queues. -/
theorem Restful.of_objects {o : Objects} (hj : Joins N k { k with objects := o }) :
    Restful N k { k with objects := o } :=
  ⟨⟨rfl, rfl, rfl, rfl, rfl, no_events k, hj, le_rfl⟩, rfl⟩

theorem rests_changeSemaphore {f : Semaphore → Semaphore}
    (hf : ∀ o, k.objects.semaphores[s]? = some o →
      ∀ t ∈ (f o).waiters.entries, Seated N k (.semaphore s) t) :
    RespectsAt (Restful N) (changeSemaphore s f) k := by
  refine RespectsAt.ask_bind fun o ho => Restful.of_objects ?_
  rw [semaphore_eq_ok_iff] at ho
  exact joins_setQueue (seating_mapSemaphore ho) (hf o ho)

theorem rests_changeLock {f : Lock → Lock}
    (hf : ∀ o, k.objects.locks[l]? = some o → ∀ t ∈ (f o).waiters.entries, Seated N k (.lock l) t) :
    RespectsAt (Restful N) (changeLock l f) k := by
  refine RespectsAt.ask_bind fun o ho => Restful.of_objects ?_
  rw [lock_eq_ok_iff] at ho
  exact joins_setQueue (seating_mapLock ho) (hf o ho)

theorem rests_changeCondition {f : Condition → Condition}
    (hf : ∀ o, k.objects.conditions[c]? = some o →
      ∀ t ∈ (f o).waiters.entries, Seated N k (.condition c) t) :
    RespectsAt (Restful N) (changeCondition c f) k := by
  refine RespectsAt.ask_bind fun o ho => Restful.of_objects ?_
  rw [condition_eq_ok_iff] at ho
  exact joins_setQueue (seating_mapCondition ho) (hf o ho)

/-- A count is changed. -/
theorem rests_setValue (s : ObjectId) (value : Nat → Nat) :
    Respects (Restful N) (changeSemaphore s fun sema => { sema with value := value sema.value }) :=
  fun _ => rests_changeSemaphore fun _ ho _ ht => .inl ((queue_semaphore ho).symm ▸ ht)

theorem rests_setHolder (l : ObjectId) (holder : Option ThreadId) :
    Respects (Restful N) (changeLock l fun lk => { lk with holder := holder }) :=
  fun _ => rests_changeLock fun _ ho _ ht => .inl ((queue_lock ho).symm ▸ ht)

theorem rests_bindLock (c : ObjectId) (lock : Option ObjectId) :
    Respects (Restful N) (changeCondition c fun cond => { cond with lock := lock }) :=
  fun _ => rests_changeCondition fun _ ho _ ht => .inl ((queue_condition ho).symm ▸ ht)

theorem rests_leaveSemaphore (s : ObjectId) (t : ThreadId) : Respects (Restful N)
    (changeSemaphore s fun sema => { sema with waiters := sema.waiters.remove t }) :=
  fun _ => rests_changeSemaphore fun _ ho _ hu =>
    .inl ((queue_semaphore ho).symm ▸ List.mem_of_mem_erase hu)

theorem rests_leaveCondition (c : ObjectId) (t : ThreadId) : Respects (Restful N)
    (changeCondition c fun cond => { cond with waiters := cond.waiters.remove t }) :=
  fun _ => rests_changeCondition fun _ ho _ hu =>
    .inl ((queue_condition ho).symm ▸ List.mem_of_mem_erase hu)

theorem rests_freshObject : Respects (Restful N) freshObject := by
  refine partwise_respects.freshObject fun _ =>
    respects_modify fun k => .of_objects (joins_of_queue fun p _ t ht => ?_)
  cases p <;> exact ht

/-- The queue of a new object is empty. -/
theorem rests_newSemaphore (value : Nat) : Respects (Restful N) (newSemaphore value) := by
  refine rests_freshObject.bind fun s =>
    .bind (respects_modify fun k => .of_objects (joins_of_queue fun p _ t ht => ?_)) fun _ =>
    respects_pure _
  cases p with
  | semaphore i =>
    simp only [seating, Std.ExtTreeMap.getElem?_insert] at ht ⊢
    split at ht
    · simp [Queue.empty] at ht
    · exact ht
  | _ => exact ht

theorem rests_newLock : Respects (Restful N) newLock := by
  refine rests_freshObject.bind fun s =>
    .bind (respects_modify fun k => .of_objects (joins_of_queue fun p _ t ht => ?_)) fun _ =>
    respects_pure _
  cases p with
  | lock i =>
    simp only [seating, Std.ExtTreeMap.getElem?_insert] at ht ⊢
    split at ht
    · simp [Queue.empty] at ht
    · exact ht
  | _ => exact ht

theorem rests_newCondition : Respects (Restful N) newCondition := by
  refine rests_freshObject.bind fun s =>
    .bind (respects_modify fun k => .of_objects (joins_of_queue fun p _ t ht => ?_)) fun _ =>
    respects_pure _
  cases p with
  | condition i =>
    simp only [seating, Std.ExtTreeMap.getElem?_insert] at ht ⊢
    split at ht
    · simp [Queue.empty] at ht
    · exact ht
  | _ => exact ht

theorem rests_dropSemaphore (s : ObjectId) : Respects (Restful N) (dropSemaphore s) := by
  refine respects_modify fun k => .of_objects (joins_of_queue fun p _ t ht => ?_)
  cases p with
  | semaphore i =>
    simp only [seating, Std.ExtTreeMap.getElem?_erase] at ht ⊢
    split at ht
    · simp at ht
    · exact ht
  | _ => exact ht

theorem rests_destroySemaphore (s : ObjectId) : Respects (Restful N) (destroySemaphore s) :=
  partwise_respects.destroySemaphore s (rests_dropSemaphore s)

theorem rests_destroyLock (l : ObjectId) : Respects (Restful N) (destroyLock l) := by
  refine partwise_respects.destroyLock l <|
    respects_modify fun k => .of_objects (joins_of_queue fun p _ t ht => ?_)
  cases p with
  | lock i =>
    simp only [seating, Std.ExtTreeMap.getElem?_erase] at ht ⊢
    split at ht
    · simp at ht
    · exact ht
  | _ => exact ht

theorem rests_destroyCondition (c : ObjectId) : Respects (Restful N) (destroyCondition c) := by
  refine partwise_respects.destroyCondition c <|
    respects_modify fun k => .of_objects (joins_of_queue fun p _ t ht => ?_)
  cases p with
  | condition i =>
    simp only [seating, Std.ExtTreeMap.getElem?_erase] at ht ⊢
    split at ht
    · simp at ht
    · exact ht
  | _ => exact ht

/-! ### Priorities, donations and the ready queue -/

theorem rests_enqueueReady (t : ThreadId) : Respects (Restful N) (enqueueReady t) := by
  refine (respects_ask _).bind fun _ => respects_modify fun k => ?_
  refine ⟨⟨rfl, rfl, rfl, rfl, rfl, no_events k, joins_of_eq rfl rfl, le_rfl⟩, rfl⟩

theorem rests_unblock (t : ThreadId) : Respects (Restful N) (unblock t) :=
  (discreet_rests N).unblock t (rests_changeThread t fun _ => rfl) (rests_enqueueReady t)

theorem rests_refreshPriority (t : ThreadId) : Respects (Restful N) (refreshPriority t) :=
  partwise_respects.refreshPriority t fun _ => rests_changeThread t fun _ => rfl

theorem rests_addDonor (t donor : ThreadId) : Respects (Restful N) (addDonor t donor) :=
  partwise_respects.addDonor t donor fun _ => rests_changeThread t fun _ => rfl

theorem rests_donateAlong (donor : ThreadId) (links : Nat) (waiter : ThreadId) :
    Respects (Restful N) (donateAlong donor links waiter) :=
  (discreet_rests N).donateAlong donor links waiter rests_refreshPriority

theorem rests_tryAcquire (l : ObjectId) : Respects (Restful N) (tryAcquire l) :=
  (discreet_rests N).tryAcquire l fun _ => rests_setHolder l _

theorem rests_tryDown (s : ObjectId) : Respects (Restful N) (tryDown s) :=
  (discreet_rests N).tryDown s (rests_setValue s (· - 1))

theorem rests_wakeOne (s : ObjectId) : Respects (Restful N) (wakeOne s) :=
  (discreet_rests N).wakeOne s (rests_leaveSemaphore s)
    (fun n => rests_setValue s fun _ => n) rests_unblock

/-- The one who is handed the lock leaves its queue, and nobody joins it. -/
theorem rests_passOn (l : ObjectId) (holder : ThreadId) :
    Respects (Restful N) (passOn l holder) := by
  have hleave : ∀ next : ThreadId, Respects (Restful N) (changeLock l fun lk =>
      { lk with holder := some next, waiters := lk.waiters.remove next }) := fun _ _ =>
    rests_changeLock fun _ ho _ ht => .inl ((queue_lock ho).symm ▸ List.mem_of_mem_erase ht)
  exact (discreet_rests N).passOn l holder (rests_setHolder l none)
    (fun _ => rests_changeThread holder fun _ => rfl) rests_refreshPriority hleave
    (fun _ => rests_changeThread _ fun _ => rfl) rests_addDonor rests_unblock

/-- A thread begins to wait for a lock. -/
theorem rests_waitForLock {holder : ThreadId} (ht : (.lock l, t) ∈ N) :
    Respects (Restful N) (waitForLock t l holder) := by
  have hdonate : Respects (Restful N) (do
      changeThread t fun th => { th with waitsFor := some l }
      addDonor holder t
      donate t) :=
    .bind (rests_changeThread t fun _ => rfl) fun _ => (rests_addDonor _ _).bind fun _ =>
      respects_get.bind fun _ => rests_donateAlong _ _ _
  refine fun k => RespectsAt.ask_bind fun waiters hw => RespectsAt.bind ?_ fun _ m _ => hdonate m
  simp only [except_bind_ok, lock_eq_ok_iff, Queue.push_eq_ok_iff] at hw
  obtain ⟨lk, hlk, -, hentries⟩ := hw
  refine rests_changeLock fun o _ u hu => ?_
  rw [hentries, List.mem_append, List.mem_singleton] at hu
  rw [Seated, queue_lock hlk]
  rcases hu with hu | rfl
  · exact .inl hu
  · exact .inr ht

/-- A waiter of the condition variable goes on to wait for the lock. -/
theorem Joins.relayed (h : Joins N k m) (h' : Joins {(.lock l, t)} m k')
    (ht : t ∈ k.seating.queue (.condition c)) : Joins N k k' := by
  have hseated : ∀ p u, Seated {(.lock l, t)} m p u → u ∈ m.seating.queue p ∨ p = .lock l ∧ u = t :=
    fun p u hu => hu.imp_right fun hpu => Prod.mk.inj (Set.mem_singleton_iff.mp hpu)
  have hcondition : ∀ d u, u ∈ m.seating.queue (.condition d) → Seated N k (.condition d) u := by
    intro d u hu
    rcases h (.condition d) u (by simp) hu with hu | ⟨⟨l, hl⟩, -⟩
    · exact hu
    · cases hl
  intro p u hp hu
  rcases h' p u hp hu with hu | ⟨hl, d, hu⟩
  · rcases hseated p u hu with hu | ⟨rfl, rfl⟩
    · exact h p u hp hu
    · exact .inr ⟨⟨l, rfl⟩, c, .inl ht⟩
  · rcases hseated _ u hu with hu | ⟨hd, -⟩
    · exact .inr ⟨hl, d, hcondition d u hu⟩
    · cases hd

theorem Restful.relayed (h : Restful N k m) (h' : Restful {(.lock l, t)} m k')
    (ht : t ∈ k.seating.queue (.condition c)) : Restful N k k' := by
  have hall : Restful Set.univ k k' :=
    trans_of (Restful Set.univ) (h.mono (Set.subset_univ _)) (h'.mono (Set.subset_univ _))
  exact ⟨{ hall.toAbides with joins := h.joins.relayed h'.joins ht }, hall.dorm⟩

theorem rests_signalOne (c l : ObjectId) : Respects (Restful N) (signalOne c l) := by
  refine fun k => RespectsAt.ask_bind fun cond hcond => RespectsAt.ask_bind fun next hnext => ?_
  cases next with
  | none => exact respects_pure _ _
  | some t =>
    rw [condition_eq_ok_iff] at hcond
    have ht : t ∈ k.seating.queue (.condition c) := by
      rw [queue_condition hcond]
      exact Queue.mem_of_foremostOf (mostUrgent_eq_ok.mp hnext).2
    have hleave : Respects (Restful N) (changeCondition c fun cond =>
        { cond with waiters := cond.waiters.remove t }) := rests_leaveCondition c t
    have hwait : Respects (Restful {(.lock l, t)}) (do
        waitForLock t l (← get).current
        say (.signals c t)
        return some t) :=
      respects_get.bind fun _ => (rests_waitForLock (Set.mem_singleton _)).bind fun _ =>
        (rests_say _).bind fun _ => respects_pure _
    exact finalState_bind (P := Restful N k) (hleave k) fun _ m hm =>
      ((hleave k).ok hm).relayed (hwait m) ht

theorem rests_signal (c l : ObjectId) : Respects (Restful N) (signal c l) :=
  (discreet_rests N).signal c l (rests_signalOne c l)

theorem rests_broadcast (c l : ObjectId) : Respects (Restful N) (broadcast c l) :=
  (discreet_rests N).broadcast c l (rests_signalOne c l)

/-! ### Families, births and the timer -/

theorem rests_setExitStatus (status : Int32) : Respects (Restful N) (setExitStatus status) :=
  partwise_respects.setExitStatus status rests_changeFamily

theorem rests_dropRecord (entry : ChildRecord) : Respects (Restful N) (dropRecord entry) :=
  partwise_respects.dropRecord entry rests_dropSemaphore

theorem rests_adopt (parent child : ThreadId) : Respects (Restful N) (adopt parent child) :=
  partwise_respects.adopt parent child (rests_newSemaphore 0) rests_changeFamily

theorem rests_collect (parent child : ThreadId) : Respects (Restful N) (collect parent child) :=
  partwise_respects.collect parent child rests_changeFamily rests_dropRecord

theorem rests_tryCollect (child : ThreadId) : Respects (Restful N) (tryCollect child) :=
  partwise_respects.tryCollect child fun _ => rests_collect _ child

theorem rests_orphan (entries : List (ThreadId × ChildRecord)) :
    Respects (Restful N) (orphan entries) :=
  partwise_respects.orphan entries rests_changeFamily rests_dropRecord

theorem rests_reportExit (t : ThreadId) (status : Int32) (parent : ThreadId) :
    Respects (Restful N) (reportExit t status parent) :=
  (discreet_rests N).reportExit t status parent rests_changeFamily rests_wakeOne

theorem rests_leaveFamily (t : ThreadId) : Respects (Restful N) (leaveFamily t) :=
  partwise_respects.leaveFamily t (fun _ _ => rests_record rfl) rests_changeFamily rests_orphan
    (rests_reportExit t)

theorem rests_takeStack : Respects (Restful N) takeStack := by
  refine rests_takePage.bind fun page => ?_
  split
  · exact (rests_record rfl).bind fun _ => respects_pure _
  · exact (rests_record rfl).bind fun _ => respects_pure _

theorem abides_register (name : String) (priority : Priority) (entry : Option String)
    (task : Option Task) : Respects (Abides N) (register name priority entry task) :=
  partwise_respects.register name priority entry task
    (rests_takeStack.mono fun _ _ => Restful.toAbides) fun _ _ _ => respects_modify fun k =>
      ⟨rfl, rfl, rfl, rfl, rfl, no_events k, joins_of_eq rfl rfl, le_rfl⟩

theorem rests_request : Respects (Restful N) (modify fun k => { k with yieldPending := true }) :=
  respects_modify fun _ => .of_eq rfl rfl rfl rfl le_rfl rfl rfl rfl rfl rfl

theorem rests_yieldOnReturn : Respects (Restful N) yieldOnReturn :=
  partwise_respects.yieldOnReturn rests_request

theorem rests_countTick : Respects (Restful N) countTick :=
  partwise_respects.countTick fun _ =>
    respects_modify fun _ => .of_eq rfl rfl rfl rfl le_rfl rfl rfl rfl rfl rfl

theorem rests_countSlice : Respects (Restful N) countSlice :=
  partwise_respects.countSlice
    (fun _ => respects_modify fun _ => .of_eq rfl rfl rfl rfl le_rfl rfl rfl rfl rfl rfl)
    rests_request

theorem rests_advances (n : Nat) : Respects (Restful N) (advance n) :=
  partwise_respects.advance n rests_advance

/-- Sleepers leave the sleep list when they are woken. -/
theorem abides_wakeDue (now n : Nat) : Respects (Abides N) (wakeDue now n) := by
  have hrests : ∀ k k', Restful ∅ k k' → Abides N k k' := fun _ _ h =>
    h.toAbides.mono (Set.empty_subset N)
  refine (discreet_respects hrests).wakeDue now n (fun t => respects_modify fun k => ?_)
    (fun _ => abides_changeThread _ _) fun t => (rests_unblock t).mono hrests
  refine ⟨rfl, rfl, rfl, rfl, rfl, no_events k, joins_of_queue fun p hp u hu => ?_, le_rfl⟩
  cases p with
  | sleep => exact List.mem_of_mem_erase hu
  | _ => exact hu

end Core

end ThreadCore
