import ThreadCore.Proofs.Frames

/-!
# The backdrop

Much of the work of the core is done on its threads, queues and objects alone. A view of the core
that does not reach these, nor the interrupt flag and the console text, is the same after it
(`Core.Aloof`).

The steps are those that end no turn and leave the counts and the machine alone otherwise.
-/

namespace ThreadCore.Core

/-- A view that does not reach threads, queues and objects, the flags of the machine and what is
said. -/
structure Aloof {γ : Type} (f : Core → γ) : Prop where
  threads : ∀ (k : Core) ths, f { k with threads := ths } = f k
  ready : ∀ (k : Core) q, f { k with ready := q } = f k
  sleepers : ∀ (k : Core) q, f { k with sleepers := q } = f k
  objects : ∀ (k : Core) o, f { k with objects := o } = f k
  flags : ∀ (k : Core) w, f { k with machine := { k.machine with flags := w } } = f k
  output : ∀ (k : Core) ts, f { k with journal := { k.journal with output := ts } } = f k

namespace Aloof

variable {α γ : Type} {f : Core → γ} (hf : Aloof f)

include hf

/-! ## Notes, flags and entries -/

theorem write (text : String) : Keeps f (write text) := keeps_modify fun k => hf.output k _

theorem writeLine (x : Severity) (text : String) : Keeps f (writeLine x text) := by
  refine keeps_get.bind fun k => ?_
  split
  · exact hf.write _
  · exact keeps_pure _

theorem say (n : Notice) : Keeps f (say n) := hf.writeLine _ _

theorem setFlag (on : Bool) : Keeps f (onMachine (modify (·.withInterrupts on))) := by
  intro k _ k' h
  obtain ⟨w, hw, rfl⟩ := onMachine_eq_ok.mp h
  rw [modify_eq_ok] at hw
  subst hw
  exact hf.flags k _

theorem mask : Keeps f (onMachine Machine.mask) := by
  intro k _ k' h
  obtain ⟨w, hw, rfl⟩ := onMachine_eq_ok.mp h
  rw [Machine.mask, get_bind_eq_ok, modify_bind_eq_ok, pure_eq_ok] at hw
  obtain ⟨-, rfl⟩ := hw
  exact hf.flags k _

theorem unmask (was : Bool) : Keeps f (onMachine (Machine.unmask was)) := by
  cases was with
  | true => exact hf.setFlag true
  | false =>
    intro k _ k' h
    obtain ⟨w, hw, rfl⟩ := onMachine_eq_ok.mp h
    obtain ⟨-, rfl⟩ := pure_eq_ok.mp hw
    rfl

theorem masked {body : CoreM α} (hb : Keeps f body) : Keeps f (masked body) :=
  hf.mask.bind fun _ => hb.bind fun _ => (hf.unmask _).bind fun _ => keeps_pure _

theorem discreet : Discreet fun _ => Keeps f where
  toPartwise := partwise_keeps f
  say := hf.say
  masked := hf.masked

theorem changeThread (t : ThreadId) (g : Thread → Thread) : Keeps f (changeThread t g) :=
  (keeps_ask _).bind fun _ => keeps_modify fun k => hf.threads k _

theorem changeFamily (t : ThreadId) (g : Family → Family) : Keeps f (changeFamily t g) :=
  hf.changeThread t _

theorem changeSemaphore (s : ObjectId) (g : Semaphore → Semaphore) :
    Keeps f (changeSemaphore s g) :=
  (keeps_ask _).bind fun _ => keeps_modify fun k => hf.objects k _

theorem changeLock (l : ObjectId) (g : Lock → Lock) : Keeps f (changeLock l g) :=
  (keeps_ask _).bind fun _ => keeps_modify fun k => hf.objects k _

theorem changeCondition (c : ObjectId) (g : Condition → Condition) :
    Keeps f (changeCondition c g) :=
  (keeps_ask _).bind fun _ => keeps_modify fun k => hf.objects k _

/-! ## Objects that come and go -/

theorem freshObject : Keeps f freshObject :=
  hf.discreet.freshObject fun _ => keeps_modify fun k => hf.objects k _

theorem newSemaphore (value : Nat) : Keeps f (newSemaphore value) :=
  hf.freshObject.bind fun _ => .bind (keeps_modify fun k => hf.objects k _) fun _ => keeps_pure _

theorem newLock : Keeps f newLock :=
  hf.freshObject.bind fun _ => .bind (keeps_modify fun k => hf.objects k _) fun _ => keeps_pure _

theorem newCondition : Keeps f newCondition :=
  hf.freshObject.bind fun _ => .bind (keeps_modify fun k => hf.objects k _) fun _ => keeps_pure _

theorem dropSemaphore (s : ObjectId) : Keeps f (dropSemaphore s) :=
  keeps_modify fun k => hf.objects k _

theorem destroySemaphore (s : ObjectId) : Keeps f (destroySemaphore s) :=
  hf.discreet.destroySemaphore s (hf.dropSemaphore s)

theorem destroyLock (l : ObjectId) : Keeps f (destroyLock l) :=
  hf.discreet.destroyLock l (keeps_modify fun k => hf.objects k _)

theorem destroyCondition (c : ObjectId) : Keeps f (destroyCondition c) :=
  hf.discreet.destroyCondition c (keeps_modify fun k => hf.objects k _)

/-! ## Waking and waiting -/

theorem enqueueReady (t : ThreadId) : Keeps f (enqueueReady t) :=
  (keeps_ask _).bind fun _ => keeps_modify fun k => hf.ready k _

theorem unblock (t : ThreadId) : Keeps f (unblock t) :=
  hf.discreet.unblock t (hf.changeThread t _) (hf.enqueueReady t)

theorem wakeDue (now n : Nat) : Keeps f (wakeDue now n) :=
  hf.discreet.wakeDue now n (fun _ => keeps_modify fun k => hf.sleepers k _)
    (fun t => hf.changeThread t _) hf.unblock

theorem wakeOne (s : ObjectId) : Keeps f (wakeOne s) :=
  hf.discreet.wakeOne s (fun _ => hf.changeSemaphore s _)
    (fun _ => hf.changeSemaphore s _) hf.unblock

theorem tryDown (s : ObjectId) : Keeps f (tryDown s) :=
  hf.discreet.tryDown s (hf.changeSemaphore s _)

/-! ## Locks and condition variables -/

theorem refreshPriority (t : ThreadId) : Keeps f (refreshPriority t) :=
  hf.discreet.refreshPriority t fun _ => hf.changeThread t _

theorem addDonor (t donor : ThreadId) : Keeps f (addDonor t donor) :=
  hf.discreet.addDonor t donor fun _ => hf.changeThread t _

theorem waitForLock (t : ThreadId) (l : ObjectId) (holder : ThreadId) :
    Keeps f (waitForLock t l holder) :=
  hf.discreet.waitForLock t l holder (fun _ => hf.changeLock l _) (hf.changeThread t _)
    (hf.addDonor _ _) hf.refreshPriority

theorem tryAcquire (l : ObjectId) : Keeps f (tryAcquire l) :=
  hf.discreet.tryAcquire l fun _ => hf.changeLock l _

theorem passOn (l : ObjectId) (holder : ThreadId) : Keeps f (passOn l holder) :=
  hf.discreet.passOn l holder (hf.changeLock l _) (fun _ => hf.changeThread _ _) hf.refreshPriority
    (fun _ => hf.changeLock l _) (fun _ => hf.changeThread _ _) hf.addDonor hf.unblock

theorem signalOne (c l : ObjectId) : Keeps f (signalOne c l) :=
  hf.discreet.signalOne c l (fun _ => hf.changeCondition c _) (hf.waitForLock · l)

theorem signal (c l : ObjectId) : Keeps f (signal c l) := hf.discreet.signal c l (hf.signalOne c l)

theorem broadcast (c l : ObjectId) : Keeps f (broadcast c l) :=
  hf.discreet.broadcast c l (hf.signalOne c l)

/-! ## Families -/

theorem setExitStatus (status : Int32) : Keeps f (setExitStatus status) :=
  hf.discreet.setExitStatus status hf.changeFamily

theorem adopt (parent child : ThreadId) : Keeps f (adopt parent child) :=
  hf.discreet.adopt parent child (hf.newSemaphore 0) hf.changeFamily

theorem dropRecord (entry : ChildRecord) : Keeps f (dropRecord entry) :=
  hf.discreet.dropRecord entry hf.dropSemaphore

theorem collect (parent child : ThreadId) : Keeps f (collect parent child) :=
  hf.discreet.collect parent child hf.changeFamily hf.dropRecord

theorem tryCollect (child : ThreadId) : Keeps f (tryCollect child) :=
  hf.discreet.tryCollect child (hf.collect · child)

theorem orphan (entries : List (ThreadId × ChildRecord)) : Keeps f (orphan entries) :=
  hf.discreet.orphan entries hf.changeFamily hf.dropRecord

theorem reportExit (t : ThreadId) (status : Int32) (parent : ThreadId) :
    Keeps f (reportExit t status parent) :=
  hf.discreet.reportExit t status parent hf.changeFamily hf.wakeOne

end Aloof

end ThreadCore.Core
