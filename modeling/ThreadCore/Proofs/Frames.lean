import ThreadCore.Proofs.Arrivals
import ThreadCore.Proofs.Histories
import ThreadCore.Proofs.Parts

/-!
# What a step leaves alone

Scheduling moves threads between queues and changes priorities, but it creates and destroys nothing:
the objects and the ties between threads are as before (`Core.estate`). The lock operations leave
the semaphores and the families alone (`Core.kin`), and the operations on semaphores and families
leave the locks and condition variables alone (`Core.gear`). For most steps this follows from their
parts (`Keeps`); a turn that ends is the one step for which it matters who dies.

From this follows, for each call of a session, which part of the state it can change at all
(`execute_estate`, `execute_kin`, `execute_gear`).
-/

namespace ThreadCore

/-- What is there besides scheduling. -/
structure Estate where
  objects : Objects
  /-- The number and the family of each live thread. -/
  ties : ThreadId → Option (ThreadId × Family)
  nextThread : ThreadId

/-- The semaphores and the families. -/
structure Kin where
  semaphores : Std.ExtTreeMap ObjectId Semaphore
  lastId : ObjectId
  ties : ThreadId → Option (ThreadId × Family)
  nextThread : ThreadId

/-- The locks and condition variables. -/
structure Gear where
  locks : Std.ExtTreeMap ObjectId Lock
  conditions : Std.ExtTreeMap ObjectId Condition

def Estate.kin (e : Estate) : Kin := ⟨e.objects.semaphores, e.objects.lastId, e.ties, e.nextThread⟩

def Estate.gear (e : Estate) : Gear := ⟨e.objects.locks, e.objects.conditions⟩

namespace Core

variable {α β : Type} {k k' : Core} {s t : ThreadId} {l c : ObjectId} {u : Unit} {σ : ThreadState}

/-- The number and the family of each live thread. -/
def ties (k : Core) (t : ThreadId) : Option (ThreadId × Family) :=
  (k.threads[t]?).map fun th => (th.id, th.family)

def estate (k : Core) : Estate := ⟨k.objects, k.ties, k.nextThread⟩

def kin (k : Core) : Kin := k.estate.kin

def gear (k : Core) : Gear := k.estate.gear

theorem parentOf_eq_ties (k : Core) (c : ThreadId) :
    k.parentOf c = (k.ties c).bind fun x => x.2.parent := by
  simp only [parentOf, ties]
  cases k.threads[c]? <;> rfl

theorem recordOf_eq_ties (k : Core) (p c : ThreadId) :
    k.recordOf p c = (k.ties p).bind fun x => x.2.children[c]? := by
  simp only [recordOf, ties]
  cases k.threads[p]? <;> rfl

theorem ties_mapThread {f : Thread → Thread} (hid : ∀ th, (f th).id = th.id)
    (hf : ∀ th, (f th).family = th.family) : (k.mapThread t f).ties = k.ties :=
  funext fun u => map_getElem?_mapThread (g := fun th => (th.id, th.family))
    (fun th => by rw [hid, hf]) u

theorem ties_congr (h : k'.threads = k.threads) : k'.ties = k.ties := by
  funext t
  simp only [ties, h]

theorem Quiet.estate (h : Quiet k k') : k'.estate = k.estate := by
  rw [Core.estate, ties_congr h.threads, h.objects, h.nextThread]
  rfl

/-! ## Steps that leave a view alone -/

/-- If the step succeeds, what `f` sees is as before. -/
def Keeps (f : Core → β) (x : CoreM α) : Prop := ∀ k a k', x k = .ok a k' → f k' = f k

section

variable {γ : Type} {f : Core → γ}

theorem keeps_pure (a : α) : Keeps f (pure a) := by
  intro k _ k' h
  obtain ⟨-, rfl⟩ := pure_eq_ok.mp h
  rfl

theorem keeps_get : Keeps f get := by
  intro k _ k' h
  cases h
  rfl

theorem keeps_throw (e : Halt) : Keeps f (throw e : CoreM α) := by
  intro k _ k' h
  cases h

theorem keeps_modify {g : Core → Core} (hg : ∀ k, f (g k) = f k) : Keeps f (modify g) := by
  intro k _ k' h
  rw [modify_eq_ok] at h
  exact h ▸ hg k

theorem keeps_ask (question : Core → Except Halt α) : Keeps f (ask question) := by
  intro k _ k' h
  obtain ⟨-, rfl⟩ := ask_eq_ok_iff.mp h
  rfl

theorem keeps_demand (p : Prop) [Decidable p] (e : Halt) : Keeps f (demand p e : CoreM Unit) := by
  intro k _ k' h
  obtain ⟨-, rfl⟩ := demand_eq_ok.mp h
  rfl

theorem Keeps.bind {x : CoreM α} {g : α → CoreM β} (hx : Keeps f x) (hg : ∀ a, Keeps f (g a)) :
    Keeps f (x >>= g) := by
  intro k _ k' h
  obtain ⟨a, m, hm, h⟩ := bind_eq_ok.mp h
  exact (hg a m _ k' h).trans (hx k a m hm)

/-- What a step leaves alone is known from its parts. -/
theorem partwise_keeps (f : Core → γ) : Partwise fun _ => Keeps f where
  bind := .bind
  pure := keeps_pure
  get := keeps_get
  ask := keeps_ask
  throw := keeps_throw

theorem keeps_forM {g : β → CoreM Unit} (hg : ∀ b, Keeps f (g b)) (bs : List β) :
    Keeps f (bs.forM g) :=
  (partwise_keeps f).forM hg bs

theorem Keeps.of_quiet (hf : ∀ k k', Quiet k k' → f k' = f k) {x : CoreM α}
    (h : ∀ k a k', x k = .ok a k' → Quiet k k') : Keeps f x :=
  fun k a k' hx => hf k k' (h k a k' hx)

/-- A view that notes and machine flags do not reach. -/
theorem discreet_of_quiet (hf : ∀ k k', Quiet k k' → f k' = f k) : Discreet fun _ => Keeps f where
  toPartwise := partwise_keeps f
  say _ := .of_quiet hf fun _ _ _ => quiet_say
  masked hb k a k' h := by
    obtain ⟨m, m', hq, h, hq'⟩ := masked_eq_ok h
    exact (hf _ _ hq').trans ((hb _ _ _ h).trans (hf _ _ hq))

end

theorem Keeps.kin {x : CoreM α} (hx : Keeps estate x) : Keeps kin x :=
  fun k a k' h => congrArg Estate.kin (hx k a k' h)

theorem Keeps.gear {x : CoreM α} (hx : Keeps estate x) : Keeps gear x :=
  fun k a k' h => congrArg Estate.gear (hx k a k' h)

/-! ## New objects -/

theorem newLock_eq_ok (h : newLock k = .ok l k') : l = k.objects.lastId + 1 ∧
    k' = { k with objects := { k.objects with
      lastId := k.objects.lastId + 1
      locks := k.objects.locks.insert l ⟨none, .empty⟩ } } := by
  unfold newLock at h
  simp only [bind_eq_ok, freshObject_eq_ok, modify_eq_ok, pure_eq_ok] at h
  obtain ⟨_, _, ⟨-, rfl, rfl⟩, _, _, rfl, rfl, rfl⟩ := h
  exact ⟨rfl, rfl⟩

theorem newCondition_eq_ok (h : newCondition k = .ok c k') : c = k.objects.lastId + 1 ∧
    k' = { k with objects := { k.objects with
      lastId := k.objects.lastId + 1
      conditions := k.objects.conditions.insert c ⟨none, .empty⟩ } } := by
  unfold newCondition at h
  simp only [bind_eq_ok, freshObject_eq_ok, modify_eq_ok, pure_eq_ok] at h
  obtain ⟨_, _, ⟨-, rfl, rfl⟩, _, _, rfl, rfl, rfl⟩ := h
  exact ⟨rfl, rfl⟩

theorem newSemaphore_eq_ok {value : Nat} (h : newSemaphore value k = .ok l k') :
    l = k.objects.lastId + 1 ∧
    k' = { k with objects := { k.objects with
      lastId := k.objects.lastId + 1
      semaphores := k.objects.semaphores.insert l ⟨value, .empty⟩ } } := by
  unfold newSemaphore at h
  simp only [bind_eq_ok, freshObject_eq_ok, modify_eq_ok, pure_eq_ok] at h
  obtain ⟨_, _, ⟨-, rfl, rfl⟩, _, _, rfl, rfl, rfl⟩ := h
  exact ⟨rfl, rfl⟩

/-! ## Scheduling -/

theorem discreet_estate : Discreet fun _ => Keeps estate :=
  discreet_of_quiet fun _ _ => Quiet.estate

theorem keeps_onMachine (step : MachineM α) : Keeps estate (onMachine step) := by
  intro k a k' h
  obtain ⟨m, -, rfl⟩ := onMachine_eq_ok.mp h
  rfl

/-- A view that sees no more than the estate. -/
structure OfEstate {γ : Type} (f : Core → γ) : Prop where
  congr : ∀ k k', k'.estate = k.estate → f k' = f k

namespace OfEstate

variable {γ : Type} {f : Core → γ} (hf : OfEstate f)

include hf

theorem keeps {x : CoreM α} (hx : Keeps Core.estate x) : Keeps f x :=
  fun k a k' h => hf.congr k k' (hx k a k' h)

theorem discreet : Discreet fun _ => Keeps f :=
  discreet_of_quiet fun k k' hq => hf.congr k k' hq.estate

end OfEstate

theorem keeps_record (e : Event) : Keeps estate (record e) := keeps_modify fun _ => rfl

theorem keeps_say (n : Notice) : Keeps estate (say n) := discreet_estate.say n

theorem keeps_outsideHandler (attempt : Attempt) : Keeps estate (outsideHandler attempt) :=
  discreet_estate.outsideHandler attempt

theorem keeps_changeThread (t : ThreadId) {f : Thread → Thread} (hid : ∀ th, (f th).id = th.id)
    (hf : ∀ th, (f th).family = th.family) : Keeps estate (changeThread t f) := by
  intro k _ k' h
  obtain ⟨-, rfl⟩ := changeThread_eq_ok.mp h
  exact congrArg (fun ties => (⟨k.objects, ties, k.nextThread⟩ : Estate)) (ties_mapThread hid hf)

theorem keeps_enqueueReady (t : ThreadId) : Keeps estate (enqueueReady t) :=
  (keeps_ask _).bind fun _ => keeps_modify fun _ => rfl

theorem ties_erase (h : k'.threads = k.threads.erase s) :
    k'.ties = Function.update k.ties s none := by
  funext t
  simp only [ties, h, Std.ExtTreeMap.getElem?_erase, compare_eq_iff_eq, Function.update_apply]
  by_cases hst : s = t
  · simp [hst]
  · simp [hst, Ne.symm hst]

theorem keeps_resume (s t : ThreadId) (running resumed : Context) :
    Keeps estate (resume s t running resumed) := by
  refine (keeps_record _).bind fun _ => (keeps_onMachine _).bind fun _ =>
    .bind (keeps_changeThread t (fun _ => rfl) fun _ => rfl) fun _ => ?_
  split
  · exact keeps_record _
  · exact keeps_pure _

/-- A switch does away with the thread that it leaves if that one has exited. -/
theorem switchTo_estate (h : switchTo s t k = .ok u k') :
    ∃ th, k.threads[s]? = some th ∧ k'.estate =
      if th.state = .dying then { k.estate with ties := Function.update k.ties s none }
      else k.estate := by
  unfold switchTo at h
  rw [modify_bind_eq_ok, bind_eq_ok] at h
  obtain ⟨_, m, hm, h⟩ := h
  have hq := quiet_say hm
  simp only [ask_bind_eq_ok, thread_eq_ok_iff] at h
  obtain ⟨th, hth, h⟩ := h
  refine ⟨th, hq.threads ▸ hth, ?_⟩
  split at h
  · rename_i hd
    simp only [modify_bind_eq_ok, ask_bind_eq_ok] at h
    obtain ⟨resumed, -, h⟩ := h
    rw [if_pos hd, keeps_resume s t th.context resumed.context _ _ _ h]
    have hthreads : m.threads.erase s = k.threads.erase s := congrArg (·.erase s) hq.threads
    rw [estate, ties_erase (k := k) hthreads]
    exact congrArg₂ (fun o n => (⟨o, _, n⟩ : Estate)) hq.objects hq.nextThread
  · rename_i hd
    simp only [ask_bind_eq_ok] at h
    obtain ⟨resumed, -, h⟩ := h
    rw [if_neg hd, keeps_resume s t th.context resumed.context _ _ _ h, hq.estate]
    rfl

/-- The end of a turn does away with the thread if it dies and another one runs. -/
theorem endTurn_estate (h : endTurn σ k = .ok u k') :
    k'.estate = if σ = .dying ∧ k.current ≠ k'.current then
      { k.estate with ties := Function.update k.ties k.current none } else k.estate := by
  obtain ⟨m, t, hq, -, -, ha⟩ := endTurn_alike h
  have hcurrent : k'.current = t := congrArg Seating.current ha.seating
  unfold endTurn at h
  simp only [get_bind_eq_ok, demand_bind_eq_ok, ask_bind_eq_ok, thread_eq_ok_iff] at h
  obtain ⟨-, -, -, -, h⟩ := h
  rw [bind_eq_ok] at h
  obtain ⟨_, m, hm, h⟩ := h
  have hq := quiet_reclaim hm
  rw [changeThread_bind_eq_ok, ← hq.current] at h
  obtain ⟨⟨th, hth⟩, h⟩ := h
  obtain ⟨t', tth, src, n, -, -, hsrc, -, hqn, hrest⟩ := dispatch_eq_ok h
  have hsrc' : src = { th with state := σ } := by
    have := getElem?_mapThread m m.current m.current fun th => { th with state := σ }
    rw [if_pos rfl, hth] at this
    exact Option.some.inj (hsrc.symm.trans this)
  have hn : n.estate = k.estate := by
    let m₁ := m.mapThread m.current fun th => { th with state := σ }
    let m₂ : Core := { m₁ with ready := m₁.ready.remove t' }
    have h₁ : m₁.ties = m.ties := ties_mapThread (fun _ => rfl) fun _ => rfl
    have h₂ : (m₂.mapThread t' fun th => { th with state := .running }).ties = m₂.ties :=
      ties_mapThread (fun _ => rfl) fun _ => rfl
    rw [hqn.estate, ← hq.estate]
    exact congrArg (fun ties => (⟨m.objects, ties, m.nextThread⟩ : Estate)) (h₂.trans h₁)
  split at hrest
  · rename_i he
    have hsame : k.current = k'.current := by
      rw [hrest, hqn.current, ← hq.current]
      rfl
    rw [if_neg (fun hd => hd.2 hsame), hrest, hn]
  · rename_i hne
    obtain ⟨src', hsrc'', he⟩ := switchTo_estate hrest
    have hstate : src'.state = σ := by
      rw [hqn.threads, getElem?_mapThread, if_neg hne] at hsrc''
      rw [Option.some.inj (hsrc''.symm.trans hsrc), hsrc']
    have hne' : k.current ≠ k'.current := by
      obtain ⟨_, -, hs⟩ := switchTo_eq_ok hrest
      have : k'.current = t' := congrArg Seating.current hs.seating
      rw [this, ← hq.current]
      exact hne
    have hties : n.ties = k.ties := congrArg Estate.ties hn
    have hcur : ({ m with threads := m.threads } : Core).current = k.current := hq.current
    rw [he, hstate, hn, hties]
    exact if_congr (by simp [hne']) (by rw [← hcur]; rfl) rfl

theorem keeps_endTurn (hσ : σ ≠ .dying) : Keeps estate (endTurn σ) := by
  intro k _ k' h
  rw [endTurn_estate h, if_neg (fun hd => hσ hd.1)]

theorem keeps_block : Keeps estate block := discreet_estate.closes.block (keeps_endTurn (by decide))

theorem keeps_unblock (t : ThreadId) : Keeps estate (unblock t) :=
  discreet_estate.unblock t (keeps_changeThread t (fun _ => rfl) fun _ => rfl)
    (keeps_enqueueReady t)

theorem keeps_yieldNow : Keeps estate yieldNow :=
  discreet_estate.closes.yieldNow keeps_enqueueReady (keeps_endTurn (by decide))
    (keeps_endTurn (by decide))

theorem keeps_preempt : Keeps estate preempt :=
  discreet_estate.closes.preempt (keeps_modify fun _ => rfl) keeps_yieldNow

theorem keeps_refreshPriority (t : ThreadId) : Keeps estate (refreshPriority t) :=
  discreet_estate.refreshPriority t fun _ => keeps_changeThread t (fun _ => rfl) fun _ => rfl

theorem keeps_setPriority (p : Priority) : Keeps estate (setPriority p) :=
  discreet_estate.closes.setPriority p (fun t => keeps_changeThread t (fun _ => rfl) fun _ => rfl)
    keeps_refreshPriority keeps_preempt

theorem keeps_sleepUntil (tick : Nat) : Keeps estate (sleepUntil tick) :=
  discreet_estate.closes.sleepUntil tick (fun t => keeps_changeThread t (fun _ => rfl) fun _ => rfl)
    (fun _ => keeps_modify fun _ => rfl) (keeps_endTurn (by decide))

theorem keeps_sleepFor (ticks : Nat) : Keeps estate (sleepFor ticks) :=
  keeps_get.bind fun _ => keeps_sleepUntil _

theorem keeps_wakeDue (now n : Nat) : Keeps estate (wakeDue now n) :=
  discreet_estate.wakeDue now n (fun _ => keeps_modify fun _ => rfl)
    (fun t => keeps_changeThread t (fun _ => rfl) fun _ => rfl) keeps_unblock

theorem keeps_wakeSleepers (now : Nat) : Keeps estate (wakeSleepers now) :=
  discreet_estate.closes.wakeSleepers now (keeps_wakeDue now) keeps_preempt

/-! ## Handlers -/

theorem keeps_enterHandler : Keeps estate enterHandler :=
  discreet_estate.enterHandler (keeps_onMachine _) (keeps_onMachine _)

theorem keeps_leaveHandler (was : Bool) : Keeps estate (leaveHandler was) :=
  discreet_estate.leaveHandler was (keeps_onMachine _) (keeps_modify fun _ => rfl)
    (keeps_endTurn (by decide)) keeps_yieldNow (keeps_onMachine _)

theorem keeps_yieldOnReturn : Keeps estate yieldOnReturn :=
  discreet_estate.yieldOnReturn (keeps_modify fun _ => rfl)

theorem keeps_countSlice : Keeps estate countSlice :=
  discreet_estate.countSlice (fun _ => keeps_modify fun _ => rfl) (keeps_modify fun _ => rfl)

theorem keeps_timerInterrupt : Keeps estate timerInterrupt :=
  discreet_estate.timerInterrupt keeps_enterHandler
    (.of_quiet (fun _ _ => Quiet.estate) fun _ _ _ => quiet_countTick) keeps_countSlice
    keeps_wakeSleepers keeps_leaveHandler

theorem keeps_ticks (n : Nat) : Keeps estate (ticks n) :=
  discreet_estate.ticks n (keeps_onMachine _) keeps_timerInterrupt

/-! ## Locks -/

theorem keeps_addDonor (t d : ThreadId) : Keeps estate (addDonor t d) :=
  discreet_estate.addDonor t d fun _ => keeps_changeThread t (fun _ => rfl) fun _ => rfl

theorem keeps_donateAlong (d : ThreadId) (links : Nat) (waiter : ThreadId) :
    Keeps estate (donateAlong d links waiter) :=
  discreet_estate.donateAlong d links waiter keeps_refreshPriority

theorem keeps_donate (d : ThreadId) : Keeps estate (donate d) :=
  keeps_get.bind fun _ => keeps_donateAlong _ _ _

theorem keeps_checkHeld (use : ConditionUse) (c l : ObjectId) : Keeps estate (checkHeld use c l) :=
  discreet_estate.checkHeld use c l

/-- A view that sees no more than the estate and nothing of the states of locks and condition
variables. -/
structure LockBlind {γ : Type} (f : Core → γ) : Prop extends OfEstate f where
  changeLock : ∀ l g, Keeps f (changeLock l g)
  changeCondition : ∀ c g, Keeps f (changeCondition c g)

namespace LockBlind

variable {γ : Type} {f : Core → γ} (hf : LockBlind f)

include hf

theorem waitForLock (t : ThreadId) (l : ObjectId) (holder : ThreadId) :
    Keeps f (waitForLock t l holder) :=
  hf.discreet.waitForLock t l holder (fun _ => hf.changeLock l _)
    (hf.keeps (keeps_changeThread t (fun _ => rfl) fun _ => rfl)) (hf.keeps (keeps_addDonor _ _))
    fun t => hf.keeps (keeps_refreshPriority t)

theorem acquire (l : ObjectId) : Keeps f (acquire l) :=
  hf.discreet.closes.acquire l (fun _ => hf.changeLock l _) (hf.waitForLock · l)
    (hf.keeps (keeps_endTurn (by decide)))

theorem tryAcquire (l : ObjectId) : Keeps f (tryAcquire l) :=
  hf.discreet.tryAcquire l fun _ => hf.changeLock l _

theorem passOn (l : ObjectId) (holder : ThreadId) : Keeps f (passOn l holder) :=
  hf.discreet.passOn l holder (hf.changeLock l _)
    (fun _ => hf.keeps (keeps_changeThread _ (fun _ => rfl) fun _ => rfl))
    (fun t => hf.keeps (keeps_refreshPriority t)) (fun _ => hf.changeLock l _)
    (fun _ => hf.keeps (keeps_changeThread _ (fun _ => rfl) fun _ => rfl))
    (fun _ _ => hf.keeps (keeps_addDonor _ _)) fun t => hf.keeps (keeps_unblock t)

theorem release (l : ObjectId) : Keeps f (release l) :=
  hf.discreet.closes.release l (hf.passOn l) (hf.keeps keeps_preempt)

theorem await (c l : ObjectId) : Keeps f (await c l) :=
  hf.discreet.closes.await c l (hf.changeCondition c _) (fun _ => hf.changeCondition c _)
    (hf.passOn l) (hf.keeps (keeps_endTurn (by decide)))

theorem signalOne (c l : ObjectId) : Keeps f (signalOne c l) :=
  hf.discreet.signalOne c l (fun _ => hf.changeCondition c _) (hf.waitForLock · l)

theorem signal (c l : ObjectId) : Keeps f (signal c l) := hf.discreet.signal c l (hf.signalOne c l)

theorem broadcast (c l : ObjectId) : Keeps f (broadcast c l) :=
  hf.discreet.broadcast c l (hf.signalOne c l)

end LockBlind

theorem lockBlind_kin : LockBlind kin :=
  ⟨⟨fun _ _ h => congrArg Estate.kin h⟩,
    fun _ _ => (keeps_ask _).bind fun _ => keeps_modify fun _ => rfl,
    fun _ _ => (keeps_ask _).bind fun _ => keeps_modify fun _ => rfl⟩

theorem keeps_destroyLock (l : ObjectId) : Keeps kin (destroyLock l) :=
  (partwise_keeps kin).destroyLock l (keeps_modify fun _ => rfl)

theorem keeps_destroyCondition (c : ObjectId) : Keeps kin (destroyCondition c) :=
  (partwise_keeps kin).destroyCondition c (keeps_modify fun _ => rfl)

/-! ## Semaphores and families -/

/-- A view that sees no more than the estate and nothing of the states of semaphores. -/
structure SemaphoreBlind {γ : Type} (f : Core → γ) : Prop extends OfEstate f where
  changeSemaphore : ∀ s g, Keeps f (changeSemaphore s g)

namespace SemaphoreBlind

variable {γ : Type} {f : Core → γ} (hf : SemaphoreBlind f)

include hf

theorem down (s : ObjectId) : Keeps f (down s) :=
  hf.discreet.closes.down s (hf.changeSemaphore s _) (fun _ => hf.changeSemaphore s _)
    (hf.keeps (keeps_endTurn (by decide)))

theorem tryDown (s : ObjectId) : Keeps f (tryDown s) :=
  hf.discreet.tryDown s (hf.changeSemaphore s _)

theorem wakeOne (s : ObjectId) : Keeps f (wakeOne s) :=
  hf.discreet.wakeOne s (fun _ => hf.changeSemaphore s _) (fun _ => hf.changeSemaphore s _)
    fun t => hf.keeps (keeps_unblock t)

theorem up (s : ObjectId) : Keeps f (up s) :=
  hf.discreet.closes.up s (hf.wakeOne s) (hf.keeps keeps_preempt)

theorem awaitFork (child : ThreadId) : Keeps f (awaitFork child) :=
  hf.discreet.closes.awaitFork child hf.down

end SemaphoreBlind

theorem semaphoreBlind_gear : SemaphoreBlind gear :=
  ⟨⟨fun _ _ h => congrArg Estate.gear h⟩,
    fun _ _ => (keeps_ask _).bind fun _ => keeps_modify fun _ => rfl⟩

theorem keeps_newSemaphore (value : Nat) : Keeps gear (newSemaphore value) := by
  have hfresh : Keeps gear freshObject :=
    (partwise_keeps gear).freshObject fun _ => keeps_modify fun _ => rfl
  exact hfresh.bind fun _ => .bind (keeps_modify fun _ => rfl) fun _ => keeps_pure _

theorem keeps_dropSemaphore (s : ObjectId) : Keeps gear (dropSemaphore s) :=
  keeps_modify fun _ => rfl

theorem keeps_destroySemaphore (s : ObjectId) : Keeps gear (destroySemaphore s) :=
  (partwise_keeps gear).destroySemaphore s (keeps_dropSemaphore s)

theorem keeps_changeFamily (t : ThreadId) (f : Family → Family) :
    Keeps gear (changeFamily t f) := by
  intro k _ k' h
  obtain ⟨-, rfl⟩ := changeFamily_eq_ok.mp h
  rfl

theorem keeps_dropRecord (entry : ChildRecord) : Keeps gear (dropRecord entry) :=
  (partwise_keeps gear).dropRecord entry keeps_dropSemaphore

theorem keeps_setExitStatus (status : Int32) : Keeps gear (setExitStatus status) :=
  (partwise_keeps gear).setExitStatus status keeps_changeFamily

theorem keeps_adopt (parent child : ThreadId) : Keeps gear (adopt parent child) :=
  (partwise_keeps gear).adopt parent child (keeps_newSemaphore 0) keeps_changeFamily

theorem keeps_reportFork : Keeps gear reportFork :=
  semaphoreBlind_gear.discreet.closes.reportFork keeps_changeFamily semaphoreBlind_gear.up

theorem keeps_collect (parent child : ThreadId) : Keeps gear (collect parent child) :=
  (partwise_keeps gear).collect parent child keeps_changeFamily keeps_dropRecord

theorem keeps_tryCollect (child : ThreadId) : Keeps gear (tryCollect child) :=
  (partwise_keeps gear).tryCollect child (keeps_collect · child)

theorem keeps_awaitExit (child : ThreadId) : Keeps gear (awaitExit child) :=
  semaphoreBlind_gear.discreet.awaitExit child (keeps_collect · child) semaphoreBlind_gear.down

theorem keeps_orphan (entries : List (ThreadId × ChildRecord)) : Keeps gear (orphan entries) :=
  (partwise_keeps gear).orphan entries keeps_changeFamily keeps_dropRecord

theorem keeps_reportExit (t : ThreadId) (status : Int32) (parent : ThreadId) :
    Keeps gear (reportExit t status parent) :=
  semaphoreBlind_gear.discreet.reportExit t status parent keeps_changeFamily
    semaphoreBlind_gear.wakeOne

theorem keeps_leaveFamily (t : ThreadId) : Keeps gear (leaveFamily t) :=
  (partwise_keeps gear).leaveFamily t (fun _ _ => (keeps_record _).gear) keeps_changeFamily
    keeps_orphan (keeps_reportExit t)

theorem keeps_endTurn_dying : Keeps gear (endTurn .dying) := by
  intro k _ k' h
  have := congrArg Estate.gear (endTurn_estate h)
  rw [gear, this]
  split <;> rfl

theorem keeps_exit : Keeps gear exit :=
  semaphoreBlind_gear.discreet.closes.exit keeps_leaveFamily keeps_endTurn_dying

theorem keeps_register (name : String) (priority : Priority) (entry : Option String)
    (task : Option Task) : Keeps gear (register name priority entry task) :=
  (partwise_keeps gear).register name priority entry task
    (Keeps.gear (.of_quiet (fun _ _ => Quiet.estate) fun _ _ _ => quiet_takeStack)) fun _ _ _ =>
    keeps_modify fun _ => rfl

theorem keeps_spawn (name : String) (priority : Priority) (task : Option Task) :
    Keeps gear (spawn name priority task) :=
  semaphoreBlind_gear.discreet.closes.spawn name priority task
    (keeps_register · priority · task) keeps_adopt
    (fun t => (keeps_unblock t).gear) keeps_preempt.gear

theorem keeps_overwrite (t : ThreadId) (stack : Except Halt Page) : Keeps estate (do
    let stack ← ask fun _ => stack
    changeThread t fun th => { th with stack := stack }) :=
  (keeps_ask _).bind fun _ => keeps_changeThread t (fun _ => rfl) fun _ => rfl

end Core

/-! ## Calls -/

namespace Session

open ThreadCore.Core (Keeps)

variable {α β γ : Type} {s s' : Session} {a : Answer} {c : Call} {d : Deed} {f : Core → γ}

/-- What `f` sees of the core and the semaphores of the session are as before. -/
def Same (f : Core → γ) (s s' : Session) : Prop :=
  f s'.core = f s.core ∧ s'.semaphores = s.semaphores

theorem Same.refl (f : Core → γ) (s : Session) : Same f s s := ⟨rfl, rfl⟩

/-- Whether a call is about locks or condition variables. -/
def usesGear : Call → Bool
  | .newLock | .acquire _ | .tryAcquire _ | .release _ | .destroyLock _ | .newCondition
  | .await _ _ | .signal _ _ | .broadcast _ _ | .destroyCondition _ => true
  | _ => false

/-- Whether a call is about semaphores or families. -/
def usesKin : Call → Bool
  | .create _ _ | .spawn _ _ _ | .exit | .newSemaphore _ | .down _ | .tryDown _ | .up _
  | .destroySemaphore _ | .setExitStatus _ | .reportFork | .awaitFork _ | .awaitExit _
  | .tryCollect _ => true
  | _ => false

/-- The calls of scheduling leave the estate alone. -/
theorem execute_estate (hg : usesGear c = false) (hk : usesKin c = false)
    (h : execute c s = .ok a s') : Same Core.estate s s' := by
  by_cases hq : isQuiet c = true
  · have hushed := execute_quiet hq h
    exact ⟨hushed.core.estate, hushed.semaphores⟩
  obtain ⟨-, rfl⟩ | ⟨α, e, r, k, hp, hx, -, rfl⟩ := execute_ok h
  · exact .refl _ _
  cases hp with
  | yield => exact ⟨Core.keeps_yieldNow _ _ _ hx, rfl⟩
  | block => exact ⟨Core.keeps_block _ _ _ hx, rfl⟩
  | unblock t => exact ⟨Core.keeps_unblock t _ _ _ hx, rfl⟩
  | setPriority p => exact ⟨Core.keeps_setPriority p _ _ _ hx, rfl⟩
  | overwrite _ _ _ => exact ⟨Core.keeps_overwrite _ _ _ _ _ hx, rfl⟩
  | sleepUntil tick => exact ⟨Core.keeps_sleepUntil tick _ _ _ hx, rfl⟩
  | sleepFor ticks => exact ⟨Core.keeps_sleepFor ticks _ _ _ hx, rfl⟩
  | wakeSleepers now => exact ⟨Core.keeps_wakeSleepers now _ _ _ hx, rfl⟩
  | timer => exact ⟨Core.keeps_timerInterrupt _ _ _ hx, rfl⟩
  | tick n => exact ⟨Core.keeps_ticks n _ _ _ hx, rfl⟩
  | yieldOnReturn => exact ⟨Core.keeps_yieldOnReturn _ _ _ hx, rfl⟩
  | setHandler _ => exact ⟨Core.keeps_onMachine _ _ _ _ hx, rfl⟩
  | newLock | acquire _ | tryAcquire _ | release _ | destroyLock _ | newCondition | await _ _
  | signal _ _ | broadcast _ _ | destroyCondition _ => cases hg
  | create _ _ | spawn _ _ _ | exit | newSemaphore _ | down _ | tryDown _ | up _
  | destroySemaphore _ | setExitStatus _ | reportFork | awaitFork _ | awaitExit _ | tryCollect _ =>
    cases hk
  | ask ha => exact absurd ha.isQuiet hq
  | _ => exact absurd rfl hq

/-- A new lock or condition variable takes a number and leaves the semaphores and families alone. -/
def Grown (k k' : Core) : Prop :=
  ∃ n, k.objects.lastId ≤ n ∧ k'.kin = { k.kin with lastId := n }

/-- The calls that are not about semaphores or families leave these alone, up to the count of
numbers. -/
theorem execute_kin (hk : usesKin c = false) (h : execute c s = .ok a s') :
    Grown s.core s'.core ∧ s'.semaphores = s.semaphores := by
  have hsame : ∀ {k : Core}, k.kin = s.core.kin → Grown s.core k := fun h => ⟨_, le_rfl, h⟩
  by_cases hg : usesGear c = true
  swap
  · obtain ⟨hestate, hp⟩ := execute_estate (Bool.not_eq_true _ ▸ hg) hk h
    exact ⟨hsame (congrArg Estate.kin hestate), hp⟩
  obtain ⟨-, rfl⟩ | ⟨α, e, r, k, hp, hx, -, rfl⟩ := execute_ok h
  · exact ⟨hsame rfl, rfl⟩
  cases hp with
  | newLock =>
    obtain ⟨-, rfl⟩ := Core.newLock_eq_ok hx
    exact ⟨⟨_, Nat.le_succ _, rfl⟩, rfl⟩
  | newCondition =>
    obtain ⟨-, rfl⟩ := Core.newCondition_eq_ok hx
    exact ⟨⟨_, Nat.le_succ _, rfl⟩, rfl⟩
  | acquire _ => exact ⟨hsame (Core.lockBlind_kin.acquire _ _ _ _ hx), rfl⟩
  | tryAcquire _ => exact ⟨hsame (Core.lockBlind_kin.tryAcquire _ _ _ _ hx), rfl⟩
  | release _ => exact ⟨hsame (Core.lockBlind_kin.release _ _ _ _ hx), rfl⟩
  | destroyLock _ => exact ⟨hsame (Core.keeps_destroyLock _ _ _ _ hx), rfl⟩
  | await _ _ => exact ⟨hsame (Core.lockBlind_kin.await _ _ _ _ _ hx), rfl⟩
  | signal _ _ => exact ⟨hsame (Core.lockBlind_kin.signal _ _ _ _ _ hx), rfl⟩
  | broadcast _ _ => exact ⟨hsame (Core.lockBlind_kin.broadcast _ _ _ _ _ hx), rfl⟩
  | destroyCondition _ => exact ⟨hsame (Core.keeps_destroyCondition _ _ _ _ hx), rfl⟩
  | ask ha => cases ha <;> cases hg
  | _ => cases hg

/-- The calls that are not about locks or condition variables leave these alone. -/
theorem execute_gear (hg : usesGear c = false) (h : execute c s = .ok a s') :
    s'.core.gear = s.core.gear := by
  by_cases hk : usesKin c = true
  swap
  · exact congrArg Estate.gear (execute_estate hg (Bool.not_eq_true _ ▸ hk) h).1
  obtain hsame | ⟨α, e, r, hp, hx⟩ := execute_core h
  · rw [hsame]
  cases hp with
  | create _ _ | spawn _ _ _ => exact Core.keeps_spawn _ _ _ _ _ _ hx
  | exit => exact Core.keeps_exit _ _ _ hx
  | newSemaphore value => exact Core.keeps_newSemaphore value _ _ _ hx
  | down _ => exact Core.semaphoreBlind_gear.down _ _ _ _ hx
  | tryDown _ => exact Core.semaphoreBlind_gear.tryDown _ _ _ _ hx
  | up _ => exact Core.semaphoreBlind_gear.up _ _ _ _ hx
  | destroySemaphore _ => exact Core.keeps_destroySemaphore _ _ _ _ hx
  | setExitStatus status => exact Core.keeps_setExitStatus status _ _ _ hx
  | reportFork => exact Core.keeps_reportFork _ _ _ hx
  | awaitFork child => exact Core.semaphoreBlind_gear.awaitFork child _ _ _ hx
  | awaitExit child => exact Core.keeps_awaitExit child _ _ _ hx
  | tryCollect child => exact Core.keeps_tryCollect child _ _ _ hx
  | ask ha => cases ha <;> cases hk
  | _ => cases hk

theorem enterHandler_estate {was : Bool} (h : onCore Core.enterHandler s = .ok was s') :
    Same Core.estate s s' := by
  obtain ⟨k, hk, rfl⟩ := onCore_eq_ok.mp h
  exact ⟨Core.keeps_enterHandler _ _ _ hk, rfl⟩

theorem leaveHandler_estate {was : Bool} (h : act (Core.leaveHandler was) s = .ok a s') :
    Same Core.estate s s' := by
  obtain ⟨_, k, hk, -, rfl⟩ := report_ok.mp h
  exact ⟨Core.keeps_leaveHandler was _ _ _ hk, rfl⟩

end Session

end ThreadCore
