import ThreadCore.Proofs.Successions
import ThreadCore.Proofs.Watches

/-!
# The lock that a thread waits for

A thread that begins to wait for a lock notes which one, and the note is deleted when the lock is
handed to it. The other operations leave these notes alone, but for the one of a thread that dies
(`Core.Eases`). This is so whatever a run calls, and however it unblocks.
-/

namespace ThreadCore

namespace Core

variable {α : Type} {k k' m : Core} {t v holder : ThreadId} {s l c i : ObjectId} {u : Unit}
  {r : Option ThreadId} {σ : ThreadState}

/-! ## The lock that a thread waits for -/

/-- The lock that each thread waits for. -/
def aims (k : Core) : ThreadId → Option ObjectId := k.waits.waitsFor

/-- Nobody waits for a lock who did not do so before. -/
def Eases (k k' : Core) : Prop := ∀ t l, k'.aims t = some l → k.aims t = some l

theorem Eases.of_eq (h : k'.aims = k.aims) : Eases k k' := fun t _ ht => congrFun h t ▸ ht

theorem Eases.trans (h : Eases k m) (h' : Eases m k') : Eases k k' :=
  fun t l ht => h t l (h' t l ht)

theorem Quiet.aims (h : Quiet k k') : k'.aims = k.aims := congrArg Waits.waitsFor h.waits

theorem aims_of_quiet {x : CoreM α} (h : ∀ k a k', x k = .ok a k' → Quiet k k') : Keeps aims x :=
  .of_quiet (fun _ _ => Quiet.aims) h

theorem discreet_aims : Discreet fun _ => Keeps aims := discreet_of_quiet fun _ _ => Quiet.aims

theorem aims_mapThread {f : Thread → Thread} (hf : ∀ th, (f th).waitsFor = th.waitsFor)
    (t : ThreadId) : (k.mapThread t f).aims = k.aims :=
  funext fun v => bind_getElem?_mapThread hf v

theorem aims_changeThread (t : ThreadId) {f : Thread → Thread}
    (hf : ∀ th, (f th).waitsFor = th.waitsFor) : Keeps aims (changeThread t f) := by
  intro k _ k' h
  obtain ⟨-, rfl⟩ := changeThread_eq_ok.mp h
  exact aims_mapThread hf t

theorem aims_changeFamily (t : ThreadId) (f : Family → Family) : Keeps aims (changeFamily t f) :=
  aims_changeThread t fun _ => rfl

theorem aims_changeSemaphore (s : ObjectId) (f : Semaphore → Semaphore) :
    Keeps aims (changeSemaphore s f) :=
  (keeps_ask _).bind fun _ => keeps_modify fun _ => rfl

theorem aims_dropSemaphore (s : ObjectId) : Keeps aims (dropSemaphore s) :=
  keeps_modify fun _ => rfl

/-! ### Scheduling -/

theorem aims_endTurn (hσ : σ ≠ .dying) : Keeps aims (endTurn σ) :=
  fun _ _ _ h => congrArg Waits.waitsFor (endTurn_waits hσ h)

theorem left_eases (d : Prop) [Decidable d] : Eases k (k.left t v d) := by
  intro x l hx
  unfold left at hx
  split at hx
  · simp only [aims, waits, Std.ExtTreeMap.getElem?_erase] at hx
    split at hx
    · cases hx
    · exact hx
  · exact hx

theorem turned_eases : Eases k (k.turned σ t) := by
  intro x l hx
  have hx := left_eases _ x l hx
  rw [aims_mapThread (f := fun th => { th with state := .running }) fun _ => rfl,
    aims_mapThread (f := fun th => { th with state := σ }) fun _ => rfl] at hx
  exact hx

/-- Whoever dies waits for nothing any more. -/
theorem endTurn_eases (h : endTurn σ k = .ok u k') : Eases k k' := by
  obtain ⟨m, w, hq, -, -, ha⟩ := endTurn_alike h
  have hlast : k'.aims = (m.turned σ w).aims := congrArg Waits.waitsFor ha.waits
  exact ((Eases.of_eq hq.aims).trans turned_eases).trans (.of_eq hlast)

theorem aims_yieldNow : Keeps aims yieldNow :=
  fun _ _ _ h => congrArg Waits.waitsFor (yieldNow_waits h)

theorem aims_preempt : Keeps aims preempt :=
  fun _ _ _ h => congrArg Waits.waitsFor (preempt_waits h)

theorem aims_unblock (t : ThreadId) : Keeps aims (unblock t) :=
  fun _ _ _ h => congrArg Waits.waitsFor (unblock_views h).2

theorem aims_block : Keeps aims block := discreet_aims.closes.block (aims_endTurn (by decide))

theorem aims_refreshPriority (t : ThreadId) : Keeps aims (refreshPriority t) :=
  discreet_aims.refreshPriority t fun _ => aims_changeThread t fun _ => rfl

theorem aims_setPriority (p : Priority) : Keeps aims (setPriority p) :=
  discreet_aims.closes.setPriority p
    (fun t => aims_changeThread t fun _ => rfl) aims_refreshPriority aims_preempt

theorem aims_sleepUntil (tick : Nat) : Keeps aims (sleepUntil tick) :=
  discreet_aims.closes.sleepUntil tick (fun t => aims_changeThread t fun _ => rfl)
    (fun _ => keeps_modify fun _ => rfl) (aims_endTurn (by decide))

theorem aims_wakeDue (now n : Nat) : Keeps aims (wakeDue now n) :=
  discreet_aims.wakeDue now n (fun _ => keeps_modify fun _ => rfl)
    (fun t => aims_changeThread t fun _ => rfl) aims_unblock

theorem aims_wakeSleepers (now : Nat) : Keeps aims (wakeSleepers now) :=
  discreet_aims.closes.wakeSleepers now (aims_wakeDue now) aims_preempt

/-! ### Handlers -/

theorem aims_setHandler (on : Bool) : Keeps aims (onMachine (Machine.setHandler on)) := by
  intro k _ k' h
  obtain ⟨-, rfl⟩ := setHandler_eq_ok.mp h
  rfl

theorem aims_unmask (was : Bool) : Keeps aims (onMachine (Machine.unmask was)) :=
  aims_of_quiet fun _ _ _ => quiet_unmask

theorem aims_enterHandler : Keeps aims enterHandler :=
  discreet_aims.enterHandler (aims_of_quiet fun _ _ _ => quiet_mask) (aims_setHandler true)

theorem aims_leaveHandler (was : Bool) : Keeps aims (leaveHandler was) :=
  discreet_aims.leaveHandler was (aims_setHandler false) (keeps_modify fun _ => rfl)
    (aims_endTurn (by decide)) aims_yieldNow (aims_unmask was)

theorem aims_countSlice : Keeps aims countSlice :=
  discreet_aims.countSlice (fun _ => keeps_modify fun _ => rfl) (keeps_modify fun _ => rfl)

theorem aims_timerInterrupt : Keeps aims timerInterrupt :=
  discreet_aims.timerInterrupt aims_enterHandler
    (aims_of_quiet fun _ _ _ => quiet_countTick) aims_countSlice aims_wakeSleepers aims_leaveHandler

theorem aims_ticks (n : Nat) : Keeps aims (ticks n) :=
  discreet_aims.ticks n (aims_of_quiet fun _ _ _ => quiet_advance) aims_timerInterrupt

theorem aims_yieldOnReturn : Keeps aims yieldOnReturn :=
  discreet_aims.yieldOnReturn (keeps_modify fun _ => rfl)

/-! ### Locks -/

theorem aims_donateAlong (d : ThreadId) (links : Nat) (waiter : ThreadId) :
    Keeps aims (donateAlong d links waiter) :=
  discreet_aims.donateAlong d links waiter aims_refreshPriority

theorem waitForLock_aims (h : waitForLock t l holder k = .ok u k') :
    k'.aims = Function.update k.aims t (some l) := by
  obtain ⟨m, hw, -, -, hd⟩ := waitForLock_eq_ok h
  exact (aims_donateAlong _ _ _ _ _ _ hd).trans (congrArg Waits.waitsFor hw)

/-- A lock that is passed on goes to nobody if nobody waits for it. Whoever gets it waits no
longer. -/
theorem passOn_aims (h : passOn l holder k = .ok r k') :
    ∃ o, k.objects.locks[l]? = some o ∧
      match r with
      | none => o.waiters.entries = [] ∧ k'.aims = k.aims
      | some next => k'.aims = Function.update k.aims next none := by
  obtain ⟨o, m, ho, -, -, hw, ⟨rfl, hnone, rfl⟩ | ⟨next, m₁, m₂, _, rfl, -, hb, hu, hq⟩⟩ :=
    passOn_cases h
  · exact ⟨o, ho, hnone, (congrArg Waits.waitsFor hw :)⟩
  · refine ⟨o, ho, ?_⟩
    have hlast : k'.aims = m₁.aims := hq.aims.trans (aims_unblock _ _ _ _ hu)
    exact hlast.trans (congrArg Waits.waitsFor hb.waits)

/-! ### Semaphores and families -/

theorem aims_down (s : ObjectId) : Keeps aims (down s) :=
  discreet_aims.closes.down s (aims_changeSemaphore s _) (fun _ => aims_changeSemaphore s _)
    (aims_endTurn (by decide))

theorem aims_tryDown (s : ObjectId) : Keeps aims (tryDown s) :=
  discreet_aims.tryDown s (aims_changeSemaphore s _)

theorem aims_wakeOne (s : ObjectId) : Keeps aims (wakeOne s) :=
  discreet_aims.wakeOne s (fun _ => aims_changeSemaphore s _)
    (fun _ => aims_changeSemaphore s _) aims_unblock

theorem aims_up (s : ObjectId) : Keeps aims (up s) :=
  discreet_aims.closes.up s (aims_wakeOne s) aims_preempt

theorem aims_freshObject : Keeps aims freshObject :=
  discreet_aims.freshObject fun _ => keeps_modify fun _ => rfl

theorem aims_newSemaphore (value : Nat) : Keeps aims (newSemaphore value) :=
  aims_freshObject.bind fun _ => .bind (keeps_modify fun _ => rfl) fun _ => keeps_pure _

theorem aims_destroySemaphore (s : ObjectId) : Keeps aims (destroySemaphore s) :=
  discreet_aims.destroySemaphore s (aims_dropSemaphore s)

theorem aims_dropRecord (entry : ChildRecord) : Keeps aims (dropRecord entry) :=
  discreet_aims.dropRecord entry aims_dropSemaphore

theorem aims_adopt (parent child : ThreadId) : Keeps aims (adopt parent child) :=
  discreet_aims.adopt parent child (aims_newSemaphore 0) aims_changeFamily

theorem aims_setExitStatus (status : Int32) : Keeps aims (setExitStatus status) :=
  discreet_aims.setExitStatus status aims_changeFamily

theorem aims_reportFork : Keeps aims reportFork :=
  discreet_aims.closes.reportFork aims_changeFamily aims_up

theorem aims_collect (parent child : ThreadId) : Keeps aims (collect parent child) :=
  discreet_aims.collect parent child aims_changeFamily aims_dropRecord

theorem aims_awaitFork (child : ThreadId) : Keeps aims (awaitFork child) :=
  discreet_aims.closes.awaitFork child aims_down

theorem aims_awaitExit (child : ThreadId) : Keeps aims (awaitExit child) :=
  discreet_aims.awaitExit child (aims_collect · child) aims_down

theorem aims_orphan (entries : List (ThreadId × ChildRecord)) : Keeps aims (orphan entries) :=
  discreet_aims.orphan entries aims_changeFamily aims_dropRecord

theorem aims_reportExit (t : ThreadId) (status : Int32) (parent : ThreadId) :
    Keeps aims (reportExit t status parent) :=
  discreet_aims.reportExit t status parent aims_changeFamily aims_wakeOne

theorem aims_leaveFamily (t : ThreadId) : Keeps aims (leaveFamily t) :=
  discreet_aims.leaveFamily t (fun _ _ => keeps_modify fun _ => rfl) aims_changeFamily aims_orphan
    (aims_reportExit t)

theorem exit_eases (hid : ∀ th, k.running = .ok th → th.id = k.current) (h : exit k = .ok u k') :
    Eases k k' := by
  obtain ⟨m₁, m₂, m₃, -, -, h₁, hq, he, hq'⟩ := exit_eq_ok hid h
  have hfirst : Eases k m₂ := .of_eq (hq.aims.trans (aims_leaveFamily _ _ _ _ h₁))
  exact (hfirst.trans (endTurn_eases he)).trans (.of_eq hq'.aims)

/-- A new thread waits for nothing. -/
theorem spawn_eases {name : String} {priority : Priority} {task : Option Task}
    {a : Except Refusal ThreadId} (h : spawn name priority task k = .ok a k') : Eases k k' := by
  unfold spawn checkPriority at h
  simp only [demand_bind_eq_ok, ask_bind_eq_ok] at h
  obtain ⟨-, th, -, h⟩ := h
  rw [bind_eq_ok] at h
  obtain ⟨r, m, hm, h⟩ := h
  rcases register_eq_ok hm with ⟨refusal, rfl, hq⟩ | ⟨n, page, hq, rfl, rfl⟩
  · simp only [bind_eq_ok, pure_eq_ok] at h
    obtain ⟨_, m', hm', -, rfl⟩ := h
    exact .of_eq ((quiet_say hm').aims.trans hq.aims)
  · simp only [bind_eq_ok, pure_eq_ok] at h
    obtain ⟨_, m₁, h₁, _, m₂, h₂, _, m₃, h₃, _, m₄, h₄, -, rfl⟩ := h
    have hrest := ((aims_preempt _ _ _ h₄).trans (aims_unblock _ _ _ _ h₃)).trans
      ((quiet_say h₂).aims.trans (aims_adopt _ _ _ _ _ h₁))
    refine Eases.trans (m := n) (.of_eq hq.aims) (Eases.trans ?_ (.of_eq hrest))
    intro t l ht
    simp only [aims, waits, getElem?_enlist] at ht
    split at ht
    · cases ht
    · exact ht

end Core

namespace Session

variable {s s' : Session} {c : Call} {a : Answer}

/-- A call that is not about locks or condition variables gives nobody a lock to wait for. -/
theorem execute_eases (hk : s.core.Steered .running) (hg : usesGear c = false)
    (h : execute c s = .ok a s') : Core.Eases s.core s'.core := by
  obtain hquiet | ⟨hq, α, e, r, hp, hx⟩ := execute_step h
  · exact .of_eq hquiet.aims
  cases hp with
  | create _ _ | spawn _ _ _ => exact Core.spawn_eases hx
  | exit =>
    refine Core.exit_eases (fun th hr => ?_) hx
    obtain ⟨hth, -, -⟩ := Core.running_eq_ok.mp hr
    exact (hk.number _ _ hth).1
  | yield => exact .of_eq (Core.aims_yieldNow _ _ _ hx)
  | block => exact .of_eq (Core.aims_block _ _ _ hx)
  | unblock t => exact .of_eq (Core.aims_unblock t _ _ _ hx)
  | setPriority p => exact .of_eq (Core.aims_setPriority p _ _ _ hx)
  | overwrite _ _ _ =>
    exact .of_eq (((Core.keeps_ask _).bind fun page =>
      Core.aims_changeThread _ (f := fun th => { th with stack := page }) fun _ => rfl) _ _ _ hx)
  | sleepUntil tick => exact .of_eq (Core.aims_sleepUntil tick _ _ _ hx)
  | sleepFor ticks => exact .of_eq ((Core.keeps_get.bind fun _ => Core.aims_sleepUntil _) _ _ _ hx)
  | wakeSleepers now => exact .of_eq (Core.aims_wakeSleepers now _ _ _ hx)
  | timer => exact .of_eq (Core.aims_timerInterrupt _ _ _ hx)
  | tick n => exact .of_eq (Core.aims_ticks n _ _ _ hx)
  | yieldOnReturn => exact .of_eq (Core.aims_yieldOnReturn _ _ _ hx)
  | setHandler on => exact .of_eq (Core.aims_setHandler on _ _ _ hx)
  | newSemaphore value => exact .of_eq (Core.aims_newSemaphore value _ _ _ hx)
  | down _ => exact .of_eq (Core.aims_down _ _ _ _ hx)
  | tryDown _ => exact .of_eq (Core.aims_tryDown _ _ _ _ hx)
  | up _ => exact .of_eq (Core.aims_up _ _ _ _ hx)
  | destroySemaphore _ => exact .of_eq (Core.aims_destroySemaphore _ _ _ _ hx)
  | setExitStatus status => exact .of_eq (Core.aims_setExitStatus status _ _ _ hx)
  | reportFork => exact .of_eq (Core.aims_reportFork _ _ _ hx)
  | awaitFork child => exact .of_eq (Core.aims_awaitFork child _ _ _ hx)
  | awaitExit child => exact .of_eq (Core.aims_awaitExit child _ _ _ hx)
  | tryCollect child =>
    exact .of_eq (((Core.keeps_ask _).bind fun _ => Core.aims_collect _ _) _ _ _ hx)
  | newLock | acquire _ | tryAcquire _ | release _ | destroyLock _ | newCondition | await _ _
  | signal _ _ | broadcast _ _ | destroyCondition _ => cases hg
  | ask ha => cases hq.symm.trans ha.isQuiet
  | _ => cases hq

end Session

end ThreadCore
