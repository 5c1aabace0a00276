import ThreadCore.Core.Priority
import ThreadCore.Core.Sleep

/-!
# Steps that succeed

What is known of the state after a step that ended with an answer. The lemmas turn an equation
`step k = .ok a k'` into equations for the parts of the step, down to the states in between, and
from there on only states are compared.

Most of what a step does besides its purpose is of no consequence: it writes in the journal, moves
the machine's flags or counts pages. `Quiet k k'` says that nothing else happened.
-/

namespace ThreadCore

/-! ## Parts of a step -/

section

variable {σ α β : Type} {s s' : σ} {a : α} {b : β} {h h' : Halt}

theorem bind_eq_ok {x : EStateM Halt σ α} {f : α → EStateM Halt σ β} :
    (x >>= f) s = .ok b s' ↔ ∃ a m, x s = .ok a m ∧ f a m = .ok b s' := by
  show EStateM.bind x f s = _ ↔ _
  unfold EStateM.bind
  cases x s with
  | ok a m => grind
  | error h m => simp

theorem bind_eq_error {x : EStateM Halt σ α} {f : α → EStateM Halt σ β} :
    (x >>= f) s = .error h s' ↔
      x s = .error h s' ∨ ∃ a m, x s = .ok a m ∧ f a m = .error h s' := by
  show EStateM.bind x f s = _ ↔ _
  unfold EStateM.bind
  cases x s with
  | ok a m => grind
  | error h m => simp

theorem bind_of_ok {x : EStateM Halt σ α} {f : α → EStateM Halt σ β} {m : σ} (hx : x s = .ok a m) :
    (x >>= f) s = f a m := by
  show EStateM.bind x f s = _
  unfold EStateM.bind
  rw [hx]

theorem bind_of_error {x : EStateM Halt σ α} {f : α → EStateM Halt σ β} {m : σ}
    (hx : x s = .error h m) : (x >>= f) s = .error h m := by
  show EStateM.bind x f s = _
  unfold EStateM.bind
  rw [hx]

theorem pure_eq_ok {c : α} : (pure c : EStateM Halt σ α) s = .ok a s' ↔ c = a ∧ s = s' := by
  show EStateM.Result.ok c s = _ ↔ _
  simp [eq_comm]

theorem modify_eq_ok {f : σ → σ} {u : PUnit} :
    (modify f : EStateM Halt σ PUnit) s = .ok u s' ↔ s' = f s := by
  show EStateM.Result.ok _ (f s) = _ ↔ _
  simp [eq_comm]

theorem throw_eq_ok : (throw h : EStateM Halt σ α) s = .ok a s' ↔ False := by
  show EStateM.Result.error h s = _ ↔ _
  simp

theorem demand_eq_ok {p : Prop} [Decidable p] {u : Unit} :
    (demand p h : EStateM Halt σ Unit) s = .ok u s' ↔ p ∧ s = s' := by
  unfold demand
  split
  · simp_all [pure_eq_ok]
  · simp_all [throw_eq_ok]

theorem get_bind_eq {f : σ → EStateM Halt σ β} : (get >>= f) s = f s s := rfl

theorem get_bind_eq_ok {f : σ → EStateM Halt σ β} :
    (get >>= f) s = .ok b s' ↔ f s s = .ok b s' :=
  Iff.rfl

theorem get_bind_eq_error {f : σ → EStateM Halt σ β} {e : Halt} :
    (get >>= f) s = .error e s' ↔ f s s = .error e s' :=
  Iff.rfl

theorem modify_bind_eq_ok {g : σ → σ} {f : PUnit → EStateM Halt σ β} :
    (modify g >>= f) s = .ok b s' ↔ f ⟨⟩ (g s) = .ok b s' :=
  Iff.rfl

theorem demand_bind_eq_ok {p : Prop} [Decidable p] {f : Unit → EStateM Halt σ β} :
    (demand p h >>= f) s = .ok b s' ↔ p ∧ f () s = .ok b s' := by
  rw [bind_eq_ok]
  simp only [demand_eq_ok]
  grind

theorem demand_bind_of {p : Prop} [Decidable p] {f : Unit → EStateM Halt σ β} (hp : p) :
    (demand p h >>= f) s = f () s :=
  bind_of_ok (demand_eq_ok (u := ()).mpr ⟨hp, rfl⟩)

theorem demand_ok {p : Prop} [Decidable p] {u : Unit} :
    (demand p h : Except Halt Unit) = .ok u ↔ p := by
  unfold demand
  split
  · simp_all [pure, Except.pure]
  · simp_all [throw, throwThe, MonadExceptOf.throw]

theorem except_bind_ok {x : Except Halt α} {f : α → Except Halt β} :
    (x >>= f) = .ok b ↔ ∃ a, x = .ok a ∧ f a = .ok b := by
  cases x <;> simp [bind, Except.bind]

theorem except_pure_ok {c : α} : (pure c : Except Halt α) = .ok a ↔ c = a := by
  simp [pure, Except.pure]

end

/-! ## The page pool -/

section

variable {p p' : Pool} {w w' : Machine} {b : Bool} {h : Halt} {u : Unit}

theorem Pool.take_of_lt (hroom : p.inUse < p.capacity) (hnext : p.inUse < Word.greatest) :
    take p = .ok true { p with inUse := p.inUse + 1 } := by
  unfold take
  rw [get_bind_eq, Word.next?_eq_some_iff.mpr ⟨hnext, rfl⟩]
  simp only [if_pos hroom]
  rfl

theorem Pool.take_of_le (hfull : p.capacity ≤ p.inUse) (hnext : p.inUse < Word.greatest) :
    take p = .ok false p := by
  unfold take
  rw [get_bind_eq, Word.next?_eq_some_iff.mpr ⟨hnext, rfl⟩]
  simp only [if_neg (Nat.not_lt.mpr hfull)]
  rfl

/-- Where the count has no successor, not even the capacity is looked at. -/
theorem Pool.take_of_greatest (hlast : Word.greatest ≤ p.inUse) : take p = .error .overflow p := by
  unfold take
  rw [get_bind_eq, Word.next?_eq_none_iff.mpr hlast]
  rfl

theorem Pool.take_eq_ok (ht : take p = .ok b p') :
    p.inUse < p.capacity ∧ b = true ∧ p' = { p with inUse := p.inUse + 1 } ∨
      p.capacity ≤ p.inUse ∧ b = false ∧ p' = p := by
  rcases Nat.lt_or_ge p.inUse Word.greatest with hnext | hlast
  · rcases Nat.lt_or_ge p.inUse p.capacity with hroom | hfull
    · rw [take_of_lt hroom hnext] at ht
      cases ht
      exact .inl ⟨hroom, rfl, rfl⟩
    · rw [take_of_le hfull hnext] at ht
      cases ht
      exact .inr ⟨hfull, rfl, rfl⟩
  · rw [take_of_greatest hlast] at ht
    cases ht

theorem Pool.take_eq_error (ht : take p = .error h p') : h = .overflow ∧ p' = p := by
  rcases Nat.lt_or_ge p.inUse Word.greatest with hnext | hlast
  · rcases Nat.lt_or_ge p.inUse p.capacity with hroom | hfull
    · rw [take_of_lt hroom hnext] at ht
      cases ht
    · rw [take_of_le hfull hnext] at ht
      cases ht
  · rw [take_of_greatest hlast] at ht
    cases ht
    exact ⟨rfl, rfl⟩

theorem Pool.giveBack_of_pos (hsome : 0 < p.inUse) :
    giveBack p = .ok () { p with inUse := p.inUse - 1 } := by
  unfold giveBack
  rw [get_bind_eq, if_neg (Nat.ne_of_gt hsome)]
  rfl

theorem Pool.giveBack_of_zero (hnone : p.inUse = 0) :
    giveBack p = .error .poolEmpty { p with inUse := Word.greatest } := by
  unfold giveBack
  rw [get_bind_eq, if_pos hnone]
  rfl

theorem Machine.freePage_of_pos (hsome : 0 < w.pool.inUse) :
    freePage w = .ok () { w with pool := { w.pool with inUse := w.pool.inUse - 1 } } := by
  unfold freePage onPool
  rw [Pool.giveBack_of_pos hsome]

theorem Machine.freePage_of_zero (hnone : w.pool.inUse = 0) :
    freePage w = .error .poolEmpty { w with pool := { w.pool with inUse := Word.greatest } } := by
  unfold freePage onPool
  rw [Pool.giveBack_of_zero hnone]

theorem Machine.freePage_eq_ok (hf : freePage w = .ok u w') :
    w' = { w with pool := { w.pool with inUse := w.pool.inUse - 1 } } := by
  rcases Nat.eq_zero_or_pos w.pool.inUse with hnone | hsome
  · rw [freePage_of_zero hnone] at hf
    cases hf
  · rw [freePage_of_pos hsome] at hf
    cases hf
    rfl

theorem Machine.freePage_eq_error (hf : freePage w = .error h w') :
    h = .poolEmpty ∧ w' = { w with pool := { w.pool with inUse := Word.greatest } } := by
  rcases Nat.eq_zero_or_pos w.pool.inUse with hnone | hsome
  · rw [freePage_of_zero hnone] at hf
    cases hf
    exact ⟨rfl, rfl⟩
  · rw [freePage_of_pos hsome] at hf
    cases hf

end

namespace Core

variable {α β : Type} {k k' : Core} {a : α} {u : Unit} {t : ThreadId}

/-! ## Changes of one thread or one object -/

def mapThread (k : Core) (t : ThreadId) (f : Thread → Thread) : Core :=
  { k with threads := k.threads.modify t f }

def mapSemaphore (k : Core) (s : ObjectId) (f : Semaphore → Semaphore) : Core :=
  { k with objects := { k.objects with semaphores := k.objects.semaphores.modify s f } }

def mapLock (k : Core) (l : ObjectId) (f : Lock → Lock) : Core :=
  { k with objects := { k.objects with locks := k.objects.locks.modify l f } }

def mapCondition (k : Core) (c : ObjectId) (f : Condition → Condition) : Core :=
  { k with objects := { k.objects with conditions := k.objects.conditions.modify c f } }

theorem changeThread_eq_ok {f : Thread → Thread} :
    changeThread t f k = .ok u k' ↔ (∃ th, k.threads[t]? = some th) ∧ k' = k.mapThread t f := by
  unfold changeThread
  simp only [bind_eq_ok, ask_eq_ok_iff, modify_eq_ok, thread_eq_ok_iff]
  constructor
  · rintro ⟨th, m, ⟨hth, rfl⟩, rfl⟩
    exact ⟨⟨th, hth⟩, rfl⟩
  · rintro ⟨⟨th, hth⟩, rfl⟩
    exact ⟨th, k, ⟨hth, rfl⟩, rfl⟩

theorem changeSemaphore_eq_ok {s : ObjectId} {f : Semaphore → Semaphore} :
    changeSemaphore s f k = .ok u k' ↔
      (∃ o, k.objects.semaphores[s]? = some o) ∧ k' = k.mapSemaphore s f := by
  unfold changeSemaphore
  simp only [bind_eq_ok, ask_eq_ok_iff, modify_eq_ok, semaphore_eq_ok_iff]
  constructor
  · rintro ⟨o, m, ⟨ho, rfl⟩, rfl⟩
    exact ⟨⟨o, ho⟩, rfl⟩
  · rintro ⟨⟨o, ho⟩, rfl⟩
    exact ⟨o, k, ⟨ho, rfl⟩, rfl⟩

theorem changeLock_eq_ok {l : ObjectId} {f : Lock → Lock} :
    changeLock l f k = .ok u k' ↔
      (∃ o, k.objects.locks[l]? = some o) ∧ k' = k.mapLock l f := by
  unfold changeLock
  simp only [bind_eq_ok, ask_eq_ok_iff, modify_eq_ok, lock_eq_ok_iff]
  constructor
  · rintro ⟨o, m, ⟨ho, rfl⟩, rfl⟩
    exact ⟨⟨o, ho⟩, rfl⟩
  · rintro ⟨⟨o, ho⟩, rfl⟩
    exact ⟨o, k, ⟨ho, rfl⟩, rfl⟩

theorem changeCondition_eq_ok {c : ObjectId} {f : Condition → Condition} :
    changeCondition c f k = .ok u k' ↔
      (∃ o, k.objects.conditions[c]? = some o) ∧ k' = k.mapCondition c f := by
  unfold changeCondition
  simp only [bind_eq_ok, ask_eq_ok_iff, modify_eq_ok, condition_eq_ok_iff]
  constructor
  · rintro ⟨o, m, ⟨ho, rfl⟩, rfl⟩
    exact ⟨⟨o, ho⟩, rfl⟩
  · rintro ⟨⟨o, ho⟩, rfl⟩
    exact ⟨o, k, ⟨ho, rfl⟩, rfl⟩

theorem increment_eq_ok {n m : Nat} :
    increment n k = .ok m k' ↔ n < Word.greatest ∧ m = n + 1 ∧ k = k' := by
  unfold increment
  cases h : Word.next? n with
  | none =>
    rw [Word.next?_eq_none_iff] at h
    simp only [throw_eq_ok, false_iff]
    omega
  | some next =>
    obtain ⟨hn, rfl⟩ := Word.next?_eq_some_iff.mp h
    simp only [pure_eq_ok]
    grind

theorem running_eq_ok {th : Thread} :
    k.running = .ok th ↔ k.threads[k.current]? = some th ∧ th.intact ∧ th.state = .running := by
  unfold running
  simp only [except_bind_ok, thread_eq_ok_iff, demand_ok, except_pure_ok]
  constructor
  · rintro ⟨th', h, -, hi, -, hs, rfl⟩
    exact ⟨h, hi, hs⟩
  · rintro ⟨h, hi, hs⟩
    exact ⟨th, h, (), hi, (), hs, rfl⟩

theorem mostUrgent_eq_ok {q : Queue} {o : Option ThreadId} :
    k.mostUrgent q = .ok o ↔
      (∀ t ∈ q.entries, t ∈ k.threads) ∧ q.foremost k.outranks = o := by
  unfold mostUrgent checkLive
  simp only [except_bind_ok, demand_ok, except_pure_ok]
  simp

theorem ask_bind_eq_ok {question : Core → Except Halt α} {f : α → CoreM β} {b : β} :
    (ask question >>= f) k = .ok b k' ↔ ∃ a, question k = .ok a ∧ f a k = .ok b k' := by
  rw [bind_eq_ok]
  simp only [ask_eq_ok_iff]
  grind

theorem ask_bind_of_ok {question : Core → Except Halt α} {f : α → CoreM β}
    (h : question k = .ok a) : (ask question >>= f) k = f a k :=
  bind_of_ok (ask_eq_ok_iff.mpr ⟨h, rfl⟩)

theorem outsideHandler_bind_eq_ok {attempt : Attempt} {f : Unit → CoreM β} {b : β} :
    (outsideHandler attempt >>= f) k = .ok b k' ↔
      k.machine.inHandler = false ∧ f () k = .ok b k' := by
  rw [bind_eq_ok]
  unfold outsideHandler
  simp only [get_bind_eq_ok, demand_eq_ok]
  grind

theorem changeThread_bind_eq_ok {f : Thread → Thread} {g : Unit → CoreM β} {b : β} :
    (changeThread t f >>= g) k = .ok b k' ↔
      (∃ th, k.threads[t]? = some th) ∧ g () (k.mapThread t f) = .ok b k' := by
  rw [bind_eq_ok]
  simp only [changeThread_eq_ok]
  grind

theorem changeThread_bind_of_ok {f : Thread → Thread} {g : Unit → CoreM β} {th : Thread}
    (hth : k.threads[t]? = some th) : (changeThread t f >>= g) k = g () (k.mapThread t f) :=
  bind_of_ok (changeThread_eq_ok.mpr ⟨⟨th, hth⟩, rfl⟩)

theorem changeLock_bind_of_ok {l : ObjectId} {f : Lock → Lock} {g : Unit → CoreM β} {o : Lock}
    (ho : k.objects.locks[l]? = some o) : (changeLock l f >>= g) k = g () (k.mapLock l f) :=
  bind_of_ok (changeLock_eq_ok.mpr ⟨⟨o, ho⟩, rfl⟩)

theorem changeSemaphore_bind_eq_ok {s : ObjectId} {f : Semaphore → Semaphore}
    {g : Unit → CoreM β} {b : β} :
    (changeSemaphore s f >>= g) k = .ok b k' ↔
      (∃ o, k.objects.semaphores[s]? = some o) ∧ g () (k.mapSemaphore s f) = .ok b k' := by
  rw [bind_eq_ok]
  simp only [changeSemaphore_eq_ok]
  grind

theorem changeLock_bind_eq_ok {l : ObjectId} {f : Lock → Lock} {g : Unit → CoreM β} {b : β} :
    (changeLock l f >>= g) k = .ok b k' ↔
      (∃ o, k.objects.locks[l]? = some o) ∧ g () (k.mapLock l f) = .ok b k' := by
  rw [bind_eq_ok]
  simp only [changeLock_eq_ok]
  grind

theorem changeCondition_bind_eq_ok {c : ObjectId} {f : Condition → Condition}
    {g : Unit → CoreM β} {b : β} :
    (changeCondition c f >>= g) k = .ok b k' ↔
      (∃ o, k.objects.conditions[c]? = some o) ∧ g () (k.mapCondition c f) = .ok b k' := by
  rw [bind_eq_ok]
  simp only [changeCondition_eq_ok]
  grind

theorem onMachine_eq_ok {step : MachineM α} :
    onMachine step k = .ok a k' ↔ ∃ m, step k.machine = .ok a m ∧ k' = { k with machine := m } := by
  unfold onMachine
  constructor
  · intro h
    cases hs : step k.machine with
    | ok b m =>
      simp only [hs, EStateM.Result.ok.injEq] at h
      obtain ⟨rfl, rfl⟩ := h
      exact ⟨m, rfl, rfl⟩
    | error e m => simp [hs] at h
  · rintro ⟨m, hm, rfl⟩
    simp only [hm]

/-! ## Quiet steps -/

/-- Nothing has changed but the journal, the counts, the stacks to reclaim and the machine outside
its handler flag. -/
structure Quiet (k k' : Core) : Prop where
  threads : k'.threads = k.threads
  nextThread : k'.nextThread = k.nextThread
  current : k'.current = k.current
  idle : k'.idle = k.idle
  ready : k'.ready = k.ready
  sleepers : k'.sleepers = k.sleepers
  objects : k'.objects = k.objects
  pending : k'.yieldPending = k.yieldPending
  handler : k'.machine.inHandler = k.machine.inHandler

theorem Quiet.refl (k : Core) : Quiet k k := ⟨rfl, rfl, rfl, rfl, rfl, rfl, rfl, rfl, rfl⟩

theorem Quiet.trans {k₁ k₂ k₃ : Core} (h : Quiet k₁ k₂) (h' : Quiet k₂ k₃) : Quiet k₁ k₃ := by
  obtain ⟨h₁, h₂, h₃, h₄, h₅, h₆, h₇, h₈, h₉⟩ := h
  obtain ⟨h₁', h₂', h₃', h₄', h₅', h₆', h₇', h₈', h₉'⟩ := h'
  exact ⟨h₁'.trans h₁, h₂'.trans h₂, h₃'.trans h₃, h₄'.trans h₄, h₅'.trans h₅, h₆'.trans h₆,
    h₇'.trans h₇, h₈'.trans h₈, h₉'.trans h₉⟩

theorem quiet_record {e : Event} (h : record e k = .ok u k') : Quiet k k' := by
  rw [record, modify_eq_ok] at h
  subst h
  exact ⟨rfl, rfl, rfl, rfl, rfl, rfl, rfl, rfl, rfl⟩

theorem quiet_write {text : String} (h : write text k = .ok u k') : Quiet k k' := by
  rw [write, modify_eq_ok] at h
  subst h
  exact ⟨rfl, rfl, rfl, rfl, rfl, rfl, rfl, rfl, rfl⟩

theorem quiet_writeLine {s : Severity} {text : String} (h : writeLine s text k = .ok u k') :
    Quiet k k' := by
  rw [writeLine, get_bind_eq_ok] at h
  split at h
  · exact quiet_write h
  · obtain ⟨-, rfl⟩ := pure_eq_ok.mp h
    exact .refl _

theorem quiet_say {n : Notice} (h : say n k = .ok u k') : Quiet k k' :=
  quiet_writeLine h

/-- A step of the machine that leaves the handler flag alone is quiet. -/
theorem quiet_onMachine {step : MachineM α}
    (hs : ∀ m a m', step m = .ok a m' → m'.inHandler = m.inHandler)
    (h : onMachine step k = .ok a k') : Quiet k k' := by
  obtain ⟨m, hm, rfl⟩ := onMachine_eq_ok.mp h
  exact ⟨rfl, rfl, rfl, rfl, rfl, rfl, rfl, rfl, hs _ _ _ hm⟩

theorem quiet_modifyMachine {f : Machine → Machine} (hf : ∀ m, (f m).inHandler = m.inHandler)
    (h : onMachine (modify f) k = .ok u k') : Quiet k k' :=
  quiet_onMachine (fun m _ _ hm => modify_eq_ok.mp hm ▸ hf m) h

theorem quiet_mask {was : Bool} (h : onMachine Machine.mask k = .ok was k') : Quiet k k' := by
  refine quiet_onMachine (fun m a m' hm => ?_) h
  rw [Machine.mask, get_bind_eq_ok, modify_bind_eq_ok, pure_eq_ok] at hm
  obtain ⟨-, rfl⟩ := hm
  rfl

theorem quiet_unmask {was : Bool} (h : onMachine (Machine.unmask was) k = .ok u k') :
    Quiet k k' := by
  refine quiet_onMachine (fun m a m' hm => ?_) h
  unfold Machine.unmask at hm
  split at hm
  · rw [modify_eq_ok] at hm
    subst hm
    rfl
  · obtain ⟨-, rfl⟩ := pure_eq_ok.mp hm
    rfl

theorem quiet_onPool {step : PoolM α} (h : onMachine (Machine.onPool step) k = .ok a k') :
    Quiet k k' := by
  refine quiet_onMachine (fun m a m' hm => ?_) h
  unfold Machine.onPool at hm
  cases hp : step m.pool with
  | ok b pool =>
    simp only [hp, EStateM.Result.ok.injEq] at hm
    obtain ⟨-, rfl⟩ := hm
    rfl
  | error e pool => simp [hp] at hm

/-- A masked section runs its body between two quiet steps. -/
theorem masked_eq_ok {body : CoreM α} (h : masked body k = .ok a k') :
    ∃ k₁ k₂, Quiet k k₁ ∧ body k₁ = .ok a k₂ ∧ Quiet k₂ k' := by
  simp only [masked, bind_eq_ok, pure_eq_ok] at h
  obtain ⟨was, k₁, h₁, b, k₂, h₂, _, k₃, h₃, rfl, rfl⟩ := h
  exact ⟨k₁, k₂, quiet_mask h₁, h₂, quiet_unmask h₃⟩

theorem quiet_reclaim {n : Nat} (h : reclaim n k = .ok u k') : Quiet k k' := by
  induction n generalizing k with
  | zero =>
    obtain ⟨-, rfl⟩ := pure_eq_ok.mp h
    exact .refl _
  | succ n ih =>
    rw [reclaim, get_bind_eq_ok] at h
    cases hd : k.dead with
    | nil =>
      simp only [hd, pure_eq_ok] at h
      exact h.2 ▸ .refl _
    | cons victim rest =>
      simp only [hd, modify_bind_eq_ok] at h
      simp only [bind_eq_ok] at h
      obtain ⟨_, k₂, h₂, _, k₃, h₃, _, k₄, h₄, h⟩ := h
      have hrest : Quiet _ k' :=
        (((quiet_say h₂).trans (quiet_record h₃)).trans (quiet_onPool h₄)).trans (ih h)
      exact ⟨hrest.threads, hrest.nextThread, hrest.current, hrest.idle, hrest.ready,
        hrest.sleepers, hrest.objects, hrest.pending, hrest.handler⟩

end Core

end ThreadCore
