import ThreadCore.Core.Condition
import ThreadCore.Core.Lifetime
import ThreadCore.Core.Interrupt
import ThreadCore.Proofs.Turns

/-!
# The parts of an operation

Many properties of steps pass from the parts of a step to the whole, and every look at the state and
every halt has them (`Core.Partwise`). Most of them do not depend on what is said, nor on where
interrupts are masked (`Core.Discreet`). So the parts of each operation of the core are written down
once, here; what an operation does to a view of the core, to a queue or to the flags then follows
from what its parts do.

An operation that ends a turn does this last, so what is true of the operation can be of another
kind than what is true of its other parts (`Core.Closes`).
-/

namespace ThreadCore.Core

variable {α β : Type} {P Q : ∀ α : Type, CoreM α → Prop}

/-- A property that a step has if its parts have it. -/
structure Partwise (P : ∀ α : Type, CoreM α → Prop) : Prop where
  bind : ∀ {α β : Type} {x : CoreM α} {g : α → CoreM β}, P α x → (∀ a, P β (g a)) → P β (x >>= g)
  pure : ∀ {α : Type} (a : α), P α (pure a)
  get : P Core get
  ask : ∀ {α : Type} (question : Core → Except Halt α), P α (ask question)
  throw : ∀ {α : Type} (e : Halt), P α (throw e)

/-- Besides, notes and masked sections are of no account. -/
structure Discreet (P : ∀ α : Type, CoreM α → Prop) : Prop extends Partwise P where
  say : ∀ n : Notice, P Unit (say n)
  masked : ∀ {α : Type} {body : CoreM α}, P α body → P α (masked body)

namespace Partwise

variable (h : Partwise P)

include h

protected theorem demand (p : Prop) [Decidable p] (e : Halt) : P Unit (demand p e) := by
  unfold ThreadCore.demand
  split
  · exact h.pure _
  · exact h.throw _

protected theorem increment (n : Nat) : P Nat (increment n) := by
  unfold Core.increment
  split
  · exact h.pure _
  · exact h.throw _

protected theorem outsideHandler (attempt : Attempt) : P Unit (outsideHandler attempt) :=
  h.bind h.get fun _ => h.demand _ _

protected theorem forM {g : β → CoreM Unit} (hg : ∀ b, P Unit (g b)) (bs : List β) :
    P Unit (bs.forM g) := by
  induction bs with
  | nil => exact h.pure _
  | cons b bs ih => exact h.bind (hg b) fun _ => ih

protected theorem checkHeld (use : ConditionUse) (c l : ObjectId) : P Unit (checkHeld use c l) :=
  h.bind (h.ask _) fun _ => h.demand _ _

/-- A note about a task, if it has a label. -/
protected theorem note {label? : Option String} {event : String → Event} {rest : CoreM α}
    (hnote : ∀ label, P Unit (record (event label))) (hrest : P α rest) : P α (match label? with
      | some label => record (event label) >>= fun _ => rest
      | none => rest) := by
  cases label? with
  | some label => exact h.bind (hnote label) fun _ => hrest
  | none => exact hrest

/-! ## Objects -/

protected theorem freshObject (hcount : ∀ id, P Unit (modify fun k =>
    { k with objects := { k.objects with lastId := id } })) : P ObjectId freshObject :=
  h.bind h.get fun _ => h.bind (h.increment _) fun _ => h.bind (hcount _) fun _ => h.pure _

protected theorem destroySemaphore (s : ObjectId) (hdrop : P Unit (dropSemaphore s)) :
    P _ (destroySemaphore s) := by
  refine h.bind (h.ask _) fun sema => ?_
  split
  · exact h.bind hdrop fun _ => h.pure _
  · exact h.pure _

protected theorem destroyLock (l : ObjectId) (hdrop : P Unit (modify fun k =>
    { k with objects := { k.objects with locks := k.objects.locks.erase l } })) :
    P _ (destroyLock l) := by
  refine h.bind (h.ask _) fun lk => ?_
  split
  · exact h.pure _
  · exact h.bind hdrop fun _ => h.pure _

protected theorem destroyCondition (c : ObjectId) (hdrop : P Unit (modify fun k =>
    { k with objects := { k.objects with conditions := k.objects.conditions.erase c } })) :
    P _ (destroyCondition c) := by
  refine h.bind (h.ask _) fun cond => ?_
  split
  · exact h.bind hdrop fun _ => h.pure _
  · exact h.pure _

/-! ## Priorities and donations -/

protected theorem refreshPriority (t : ThreadId)
    (hset : ∀ p, P Unit (changeThread t fun th => { th with priority := p })) :
    P Priority (refreshPriority t) :=
  h.bind (h.ask _) fun _ => h.bind (hset _) fun _ => h.pure _

protected theorem addDonor (t donor : ThreadId)
    (hset : ∀ q, P Unit (changeThread t fun th => { th with donors := q })) :
    P Unit (addDonor t donor) :=
  h.bind (h.ask _) fun _ => hset _

/-! ## Families -/

protected theorem adopt (parent child : ThreadId) (hnew : P ObjectId (newSemaphore 0))
    (hfamily : ∀ t f, P Unit (changeFamily t f)) : P Unit (adopt parent child) :=
  h.bind hnew fun _ => h.bind hnew fun _ => h.bind (hfamily _ _) fun _ => hfamily _ _

protected theorem setExitStatus (status : Int32) (hfamily : ∀ t f, P Unit (changeFamily t f)) :
    P Unit (setExitStatus status) :=
  h.bind (h.ask _) fun _ => hfamily _ _

protected theorem dropRecord (entry : ChildRecord) (hdrop : ∀ s, P Unit (dropSemaphore s)) :
    P Unit (dropRecord entry) :=
  h.bind (hdrop _) fun _ => hdrop _

protected theorem collect (parent child : ThreadId) (hfamily : ∀ t f, P Unit (changeFamily t f))
    (hdrop : ∀ entry, P Unit (dropRecord entry)) : P _ (collect parent child) := by
  refine h.bind (h.ask _) fun r => ?_
  split
  · exact h.pure _
  split
  · exact h.pure _
  · exact h.bind (hfamily _ _) fun _ => h.bind (hdrop _) fun _ => h.pure _

protected theorem tryCollect (child : ThreadId) (hcollect : ∀ parent, P _ (collect parent child)) :
    P _ (tryCollect child) :=
  h.bind (h.ask _) fun _ => hcollect _

protected theorem orphan (entries : List (ThreadId × ChildRecord))
    (hfamily : ∀ t f, P Unit (changeFamily t f)) (hdrop : ∀ entry, P Unit (dropRecord entry)) :
    P Unit (orphan entries) := by
  induction entries with
  | nil => exact h.pure _
  | cons entry rest ih =>
    refine h.bind h.get fun k => ?_
    split
    · exact h.bind (hfamily _ _) fun _ => h.bind (hdrop _) fun _ => ih
    · exact h.bind (hdrop _) fun _ => ih

/-- The last part tells the parent, if there is one. -/
protected theorem leaveFamily (t : ThreadId)
    (hnote : ∀ label status, P Unit (record (.taskExited label status)))
    (hfamily : ∀ t f, P Unit (changeFamily t f)) (horphan : ∀ entries, P Unit (orphan entries))
    (hreport : ∀ status parent, P Unit (reportExit t status parent)) : P Unit (leaveFamily t) := by
  refine h.bind (h.ask _) fun th => h.note (hnote · _) ?_
  refine h.bind (hfamily _ _) fun _ => h.bind (horphan _) fun _ => ?_
  split
  · exact h.pure _
  · exact hreport _ _

/-! ## Births -/

protected theorem register (name : String) (priority : Priority) (entry : Option String)
    (task : Option Task) (htake : P _ takeStack)
    (henlist : ∀ next t th, P Unit (modify fun k =>
      { k with nextThread := next, threads := k.threads.insert t th })) :
    P _ (register name priority entry task) := by
  refine h.bind htake fun page => ?_
  split
  · exact h.pure _
  · exact h.bind h.get fun _ => h.bind (h.increment _) fun _ =>
      h.bind (henlist _ _ _) fun _ => h.pure _

/-! ## The timer -/

protected theorem countTick (hcount : ∀ usage : Core → Usage, P Unit (modify fun k =>
    { k with usage := usage k })) : P Unit countTick := by
  refine h.bind h.get fun k => ?_
  split
  · exact h.bind (h.increment _) fun _ => hcount fun k => _
  · refine h.bind (h.ask _) fun th => ?_
    split
    · exact h.bind (h.increment _) fun _ => hcount fun k => _
    · exact h.bind (h.increment _) fun _ => hcount fun k => _

protected theorem countSlice (hcount : ∀ n, P Unit (modify fun k => { k with slice := n }))
    (hask : P Unit (modify fun k => { k with yieldPending := true })) : P Unit countSlice := by
  refine h.bind h.get fun _ => h.bind (h.increment _) fun _ => h.bind (hcount _) fun _ =>
    h.bind h.get fun _ => ?_
  split
  · exact hask
  · exact h.pure _

protected theorem advance (n : Nat) (hmove : P _ (onMachine Machine.advance)) :
    P Nat (advance n) := by
  induction n with
  | zero => exact h.bind h.get fun _ => h.pure _
  | succ n ih => exact h.bind hmove fun _ => ih

protected theorem yieldOnReturn (hask : P Unit (modify fun k => { k with yieldPending := true })) :
    P Unit yieldOnReturn :=
  h.bind h.get fun _ => h.bind (h.demand _ _) fun _ => hask

end Partwise

namespace Discreet

variable (h : Discreet P)

include h

/-! ## Waking and waiting -/

protected theorem unblock (t : ThreadId)
    (hready : P Unit (changeThread t fun th => { th with state := .ready }))
    (hqueue : P Unit (enqueueReady t)) : P Unit (unblock t) :=
  h.bind h.get fun _ => h.bind (h.demand _ _) fun _ => h.masked <| h.bind (h.ask _) fun _ =>
    h.bind (h.demand _ _) fun _ => h.bind hready fun _ => hqueue

protected theorem wakeDue (now n : Nat)
    (hleave : ∀ t, P Unit (modify fun k => { k with sleepers := k.sleepers.remove t }))
    (hforget : ∀ t, P Unit (changeThread t fun th => { th with wakeAt := none }))
    (hunblock : ∀ t, P Unit (unblock t)) : P Nat (wakeDue now n) := by
  induction n with
  | zero => exact h.pure _
  | succ n ih =>
    refine h.bind (h.ask _) fun next => ?_
    split
    · exact h.pure _
    refine h.bind (h.ask _) fun th => ?_
    split
    · exact h.pure _
    · exact h.bind (hleave _) fun _ => h.bind (hforget _) fun _ => h.bind (hunblock _) fun _ =>
        h.bind (h.say _) fun _ => h.bind ih fun _ => h.pure _

protected theorem wakeOne (s : ObjectId)
    (hleave : ∀ t,
      P Unit (changeSemaphore s fun sema => { sema with waiters := sema.waiters.remove t }))
    (hcount : ∀ n, P Unit (changeSemaphore s fun sema => { sema with value := n }))
    (hunblock : ∀ t, P Unit (unblock t)) : P _ (wakeOne s) := by
  refine h.bind (h.ask _) fun sema => h.bind (h.ask _) fun next => ?_
  split
  · exact h.bind (hleave _) fun _ => h.bind (hunblock _) fun _ => h.pure _
  · exact h.bind (h.increment _) fun _ => h.bind (hcount _) fun _ => h.pure _

protected theorem tryDown (s : ObjectId)
    (htake : P Unit (changeSemaphore s fun sema => { sema with value := sema.value - 1 })) :
    P _ (tryDown s) := by
  refine h.masked <| h.bind (h.ask _) fun sema => ?_
  split
  · exact h.bind htake fun _ => h.pure _
  · exact h.pure _

/-! ## Locks and condition variables -/

protected theorem donateAlong (donor : ThreadId) (links : Nat) (waiter : ThreadId)
    (hrefresh : ∀ t, P _ (refreshPriority t)) : P Unit (donateAlong donor links waiter) := by
  induction links generalizing waiter with
  | zero =>
    unfold Core.donateAlong
    refine h.bind (h.ask _) fun th => ?_
    split
    · exact h.pure _
    refine h.bind (h.ask _) fun lk => ?_
    split
    · exact h.throw _
    · exact h.bind (h.demand _ _) fun _ => h.throw _
  | succ links ih =>
    unfold Core.donateAlong
    refine h.bind (h.ask _) fun th => ?_
    split
    · exact h.pure _
    refine h.bind (h.ask _) fun lk => ?_
    split
    · exact h.throw _
    · exact h.bind (h.demand _ _) fun _ => h.bind (hrefresh _) fun _ =>
        h.bind (h.say _) fun _ => ih _

protected theorem waitForLock (t : ThreadId) (l : ObjectId) (holder : ThreadId)
    (hjoin : ∀ q, P Unit (changeLock l fun lk => { lk with waiters := q }))
    (haim : P Unit (changeThread t fun th => { th with waitsFor := some l }))
    (hdonor : P Unit (addDonor holder t)) (hrefresh : ∀ t, P _ (refreshPriority t)) :
    P Unit (waitForLock t l holder) :=
  h.bind (h.ask _) fun _ => h.bind (hjoin _) fun _ => h.bind haim fun _ => h.bind hdonor fun _ =>
    h.bind h.get fun _ => h.donateAlong _ _ _ hrefresh

protected theorem tryAcquire (l : ObjectId)
    (htake : ∀ t, P Unit (changeLock l fun lk => { lk with holder := some t })) :
    P _ (tryAcquire l) := by
  refine h.bind (h.ask _) fun th => h.masked <| h.bind (h.ask _) fun lk => ?_
  split
  · exact h.bind (htake _) fun _ => h.pure _
  · exact h.pure _

protected theorem passOn (l : ObjectId) (holder : ThreadId)
    (hfree : P Unit (changeLock l fun lk => { lk with holder := none }))
    (hdonors : ∀ q : Queue, P Unit (changeThread holder fun th =>
      { th with donors := th.donors.keep fun donor => donor ∉ q }))
    (hrefresh : ∀ t, P _ (refreshPriority t))
    (hgive : ∀ next, P Unit (changeLock l fun lk =>
      { lk with holder := some next, waiters := lk.waiters.remove next }))
    (haim : ∀ next, P Unit (changeThread next fun th => { th with waitsFor := none }))
    (hdonor : ∀ next donor, P Unit (addDonor next donor)) (hunblock : ∀ t, P Unit (unblock t)) :
    P _ (passOn l holder) := by
  refine h.bind (h.ask _) fun lk => h.bind (h.demand _ _) fun _ => h.bind hfree fun _ =>
    h.bind (hdonors _) fun _ => h.bind (hrefresh _) fun _ => h.bind (h.ask _) fun next => ?_
  split
  · exact h.pure _
  · exact h.bind (hgive _) fun _ => h.bind (haim _) fun _ => h.bind (h.forM (hdonor _) _) fun _ =>
      h.bind (hrefresh _) fun _ => h.bind (hunblock _) fun _ => h.bind (h.say _) fun _ => h.pure _

protected theorem signalOne (c l : ObjectId)
    (hleave : ∀ t,
      P Unit (changeCondition c fun cond => { cond with waiters := cond.waiters.remove t }))
    (hwait : ∀ t holder, P Unit (waitForLock t l holder)) : P _ (signalOne c l) := by
  refine h.bind (h.ask _) fun cond => h.bind (h.ask _) fun next => ?_
  split
  · exact h.pure _
  · exact h.bind (hleave _) fun _ => h.bind h.get fun _ => h.bind (hwait _ _) fun _ =>
      h.bind (h.say _) fun _ => h.pure _

protected theorem signalMany (c l : ObjectId) (n : Nat) (hsignal : P _ (signalOne c l)) :
    P Nat (signalMany c l n) := by
  induction n with
  | zero => exact h.pure _
  | succ n ih =>
    refine h.bind hsignal fun next => ?_
    split
    · exact h.pure _
    · exact h.bind ih fun _ => h.pure _

protected theorem signal (c l : ObjectId) (hsignal : P _ (signalOne c l)) : P Bool (signal c l) :=
  h.bind (h.checkHeld _ _ _) fun _ => h.bind (h.masked hsignal) fun _ => h.pure _

protected theorem broadcast (c l : ObjectId) (hsignal : P _ (signalOne c l)) :
    P Nat (broadcast c l) :=
  h.bind (h.checkHeld _ _ _) fun _ => h.masked <|
    h.bind (h.ask _) fun _ => h.signalMany _ _ _ hsignal

/-! ## Exits -/

protected theorem reportExit (t : ThreadId) (status : Int32) (parent : ThreadId)
    (hfamily : ∀ t f, P Unit (changeFamily t f)) (hwake : ∀ s, P _ (wakeOne s)) :
    P Unit (reportExit t status parent) := by
  refine h.bind h.get fun k => ?_
  split
  · exact h.pure _
  split
  · exact h.pure _
  refine h.bind (hfamily _ _) fun _ => ?_
  split
  · exact h.bind (hwake _) fun _ => h.bind (hwake _) fun _ => h.say _
  · exact h.bind (hwake _) fun _ => h.say _

/-- The second look is taken only if the first found the child at work. -/
protected theorem awaitExit (child : ThreadId) (hcollect : ∀ parent, P _ (collect parent child))
    (hdown : ∀ s, P Unit (down s)) : P _ (awaitExit child) := by
  refine h.bind (h.ask _) fun th => h.bind (hcollect _) fun first => ?_
  split
  · exact h.pure _
  · exact h.pure _
  refine h.bind (h.ask _) fun r => ?_
  split
  · exact h.pure _
  refine h.bind (hdown _) fun _ => h.bind h.get fun _ => ?_
  split
  · exact h.pure _
  refine h.bind (hcollect _) fun second => ?_
  split
  · exact h.pure _
  · exact h.pure _
  · exact h.throw _

/-! ## Handlers -/

protected theorem enterHandler (hmask : P _ (onMachine Machine.mask))
    (hflag : P Unit (onMachine (Machine.setHandler true))) : P Bool enterHandler :=
  h.bind hmask fun _ => h.bind hflag fun _ => h.pure _

protected theorem leaveHandler (was : Bool) (hflag : P Unit (onMachine (Machine.setHandler false)))
    (hreset : P Unit (modify fun k => { k with yieldPending := false }))
    (hend : P Unit (endTurn .blocked)) (hyield : P Unit yieldNow)
    (hunmask : P Unit (onMachine (Machine.unmask was))) : P Unit (leaveHandler was) := by
  refine h.bind hflag fun _ => h.bind h.get fun _ => h.bind hreset fun _ => h.bind h.get fun k => ?_
  split
  · exact h.bind hend fun _ => hunmask
  · split
    · exact h.bind hyield fun _ => hunmask
    · exact hunmask

protected theorem timerInterrupt (henter : P Bool enterHandler) (htick : P Unit countTick)
    (hslice : P Unit countSlice) (hwake : ∀ now, P Nat (wakeSleepers now))
    (hleave : ∀ was, P Unit (leaveHandler was)) : P Unit timerInterrupt :=
  h.bind henter fun _ => h.bind
    (h.bind h.get fun _ => h.bind htick fun _ => h.bind hslice fun _ =>
      h.bind (hwake _) fun _ => h.pure _)
    fun _ => h.bind (hleave _) fun _ => h.pure _

protected theorem ticks (n : Nat) (hmove : P _ (onMachine Machine.advance))
    (hinterrupt : P Unit timerInterrupt) : P Unit (ticks n) := by
  induction n with
  | zero => exact h.pure _
  | succ n ih => exact h.bind (h.bind hmove fun _ => hinterrupt) fun _ => ih

/-! ## The end of a turn -/

protected theorem reclaim (n : Nat)
    (hleave : ∀ ths, P Unit (modify fun k => { k with dead := ths }))
    (hnote : ∀ frame, P Unit (record (.freed frame)))
    (hfree : P Unit (onMachine Machine.freePage)) :
    P Unit (reclaim n) := by
  induction n with
  | zero => exact h.pure _
  | succ n ih =>
    refine h.bind h.get fun k => ?_
    split
    · exact h.pure _
    · exact h.bind (hleave _) fun _ => h.bind (h.say _) fun _ => h.bind (hnote _) fun _ =>
        h.bind hfree fun _ => ih

protected theorem takeNext
    (hleave : ∀ t, P Unit (modify fun k => { k with ready := k.ready.remove t })) :
    P ThreadId takeNext := by
  refine h.bind (h.ask _) fun next => ?_
  split
  · exact h.bind (hleave _) fun _ => h.pure _
  · exact h.bind h.get fun _ => h.pure _

protected theorem resume (source target : ThreadId) (running resumed : Context)
    (hnote : ∀ e, P Unit (record e)) (hswitch : P _ (onMachine (Machine.switch running resumed)))
    (hload : ∀ context, P Unit (changeThread target fun th => { th with context := context })) :
    P Unit (resume source target running resumed) := by
  refine h.bind (hnote _) fun _ => h.bind hswitch fun _ => h.bind (hload _) fun _ => ?_
  split
  · exact hnote _
  · exact h.pure _

protected theorem switchTo (source target : ThreadId)
    (hcurrent : P Unit (modify fun k => { k with current := target }))
    (hbury : ∀ th, P Unit (modify fun k =>
      { k with threads := k.threads.erase source, dead := k.dead ++ [th] }))
    (hresume : ∀ running resumed, P Unit (resume source target running resumed)) :
    P Unit (switchTo source target) := by
  have hload : ∀ running : Context, P Unit (ask (thread target) >>= fun resumed =>
      resume source target running resumed.context) :=
    fun _ => h.bind (h.ask _) fun _ => hresume _ _
  refine h.bind hcurrent fun _ => h.bind (h.say _) fun _ => h.bind (h.ask _) fun leaving => ?_
  split
  · exact h.bind (hbury _) fun _ => hload _
  · exact hload _

protected theorem dispatch (htake : P ThreadId takeNext)
    (hstate : ∀ t, P Unit (changeThread t fun th => { th with state := .running }))
    (hnote : ∀ label, P Unit (record (.activated label)))
    (hslice : P Unit (modify fun k => { k with slice := 0 }))
    (hswitch : ∀ source target, P Unit (switchTo source target)) : P Unit dispatch := by
  refine h.bind h.get fun k => h.bind htake fun target => h.bind h.get fun _ =>
    h.bind (h.demand _ _) fun _ => h.bind (h.ask _) fun _ => h.bind (h.demand _ _) fun _ =>
    h.bind (h.ask _) fun th => h.bind (h.demand _ _) fun _ => h.bind (hstate _) fun _ => ?_
  have hrest : P Unit (do
      modify fun k => { k with slice := 0 }
      if k.current ≠ target then switchTo k.current target) := by
    refine h.bind hslice fun _ => ?_
    split
    · exact hswitch _ _
    · exact h.pure _
  exact h.note hnote hrest

protected theorem endTurn (σ : ThreadState) (hreclaim : ∀ n, P Unit (reclaim n))
    (hstate : ∀ t, P Unit (changeThread t fun th => { th with state := σ }))
    (hdispatch : P Unit dispatch) :
    P Unit (endTurn σ) :=
  h.bind h.get fun _ => h.bind (h.demand _ _) fun _ => h.bind h.get fun _ =>
    h.bind (h.ask _) fun _ => h.bind (h.demand _ _) fun _ => h.bind h.get fun _ =>
    h.bind (hreclaim _) fun _ => h.bind (hstate _) fun _ => hdispatch

end Discreet

/-! ## Operations that may end a turn -/

/-- Steps of the second kind may follow on steps of the first kind, and these are of the second
kind, too. -/
structure Closes (P Q : ∀ α : Type, CoreM α → Prop) : Prop where
  within : Discreet P
  of : ∀ {α : Type} {x : CoreM α}, P α x → Q α x
  bind : ∀ {α β : Type} {x : CoreM α} {g : α → CoreM β}, P α x → (∀ a, Q β (g a)) → Q β (x >>= g)
  bind_pure : ∀ {α β : Type} {x : CoreM α}, Q α x → ∀ f : α → β, Q β (x >>= fun a => pure (f a))
  masked : ∀ {α : Type} {body : CoreM α}, Q α body → Q α (masked body)

theorem Discreet.closes (h : Discreet P) : Closes P P where
  within := h
  of := id
  bind := h.bind
  bind_pure hx _ := h.bind hx fun _ => h.pure _
  masked := h.masked

namespace Closes

variable (h : Closes P Q)

include h

protected theorem pure (a : α) : Q α (pure a) := h.of (h.within.pure a)

protected theorem get_bind {g : Core → CoreM β} (hg : ∀ k, Q β (g k)) : Q β (get >>= g) :=
  h.bind h.within.get hg

protected theorem ask_bind {question : Core → Except Halt α} {g : α → CoreM β}
    (hg : ∀ a, Q β (g a)) : Q β (ask question >>= g) :=
  h.bind (h.within.ask _) hg

protected theorem demand_bind {p : Prop} [Decidable p] {e : Halt} {g : Unit → CoreM β}
    (hg : ∀ u, Q β (g u)) : Q β (demand p e >>= g) :=
  h.bind (h.within.demand _ _) hg

protected theorem outsideHandler_bind {attempt : Attempt} {g : Unit → CoreM β}
    (hg : ∀ u, Q β (g u)) : Q β (outsideHandler attempt >>= g) :=
  h.bind (h.within.outsideHandler _) hg

protected theorem say_bind {n : Notice} {g : Unit → CoreM β} (hg : ∀ u, Q β (g u)) :
    Q β (say n >>= g) :=
  h.bind (h.within.say _) hg

protected theorem block (hend : Q Unit (endTurn .blocked)) : Q Unit block :=
  h.outsideHandler_bind fun _ => h.get_bind fun _ => h.demand_bind fun _ => hend

protected theorem yieldNow (hqueue : ∀ t, P Unit (enqueueReady t))
    (hblock : Q Unit (endTurn .blocked)) (hready : Q Unit (endTurn .ready)) : Q Unit yieldNow := by
  refine h.outsideHandler_bind fun _ => h.ask_bind fun th => h.masked <| h.get_bind fun k => ?_
  split
  · exact hblock
  · exact h.bind (hqueue _) fun _ => hready

protected theorem preempt (hask : P Unit (modify fun k => { k with yieldPending := true }))
    (hyield : Q Unit yieldNow) : Q Unit preempt := by
  refine h.ask_bind fun outranked => ?_
  split
  · refine h.get_bind fun k => ?_
    split
    · exact h.of hask
    · exact hyield
  · exact h.pure _

protected theorem setPriority (p : Priority)
    (hbase : ∀ t, P Unit (changeThread t fun th => { th with base := p }))
    (hrefresh : ∀ t, P _ (refreshPriority t)) (hpreempt : Q Unit preempt) :
    Q Unit (setPriority p) :=
  h.demand_bind fun _ => h.ask_bind fun _ => h.bind
    (h.within.masked <|
      h.within.bind (hbase _) fun _ => h.within.bind (hrefresh _) fun _ => h.within.pure _)
    fun _ => hpreempt

protected theorem sleepUntil (tick : Nat)
    (hset : ∀ t, P Unit (changeThread t fun th => { th with wakeAt := some tick }))
    (hjoin : ∀ q, P Unit (modify fun k => { k with sleepers := q }))
    (hend : Q Unit (endTurn .blocked)) :
    Q Unit (sleepUntil tick) := by
  refine h.outsideHandler_bind fun _ => h.ask_bind fun th => h.get_bind fun k => ?_
  split
  · exact h.pure _
  · exact h.masked <| h.bind (hset _) fun _ => h.ask_bind fun _ => h.bind (hjoin _) fun _ =>
      h.say_bind fun _ => hend

protected theorem wakeSleepers (now : Nat) (hwake : ∀ n, P Nat (wakeDue now n))
    (hpreempt : Q Unit preempt) : Q Nat (wakeSleepers now) := by
  refine h.bind (h.within.masked <| h.within.bind h.within.get fun _ => hwake _) fun woken => ?_
  split
  · exact h.bind_pure hpreempt _
  · exact h.pure _

protected theorem down (s : ObjectId)
    (htake : P Unit (changeSemaphore s fun sema => { sema with value := sema.value - 1 }))
    (hjoin : ∀ q, P Unit (changeSemaphore s fun sema => { sema with waiters := q }))
    (hend : Q Unit (endTurn .blocked)) : Q Unit (down s) := by
  refine h.ask_bind fun th => h.masked <| h.ask_bind fun sema => ?_
  split
  · exact h.of htake
  · exact h.outsideHandler_bind fun _ => h.ask_bind fun _ => h.bind (hjoin _) fun _ =>
      h.say_bind fun _ => hend

protected theorem up (s : ObjectId) (hwake : P _ (wakeOne s)) (hpreempt : Q Unit preempt) :
    Q Unit (up s) := by
  refine h.bind (h.within.masked hwake) fun woken => ?_
  split
  · exact hpreempt
  · exact h.pure _

protected theorem acquire (l : ObjectId)
    (htake : ∀ t, P Unit (changeLock l fun lk => { lk with holder := some t }))
    (hwait : ∀ t holder, P Unit (waitForLock t l holder)) (hend : Q Unit (endTurn .blocked)) :
    Q Unit (acquire l) := by
  refine h.outsideHandler_bind fun _ => h.ask_bind fun th => h.masked <| h.ask_bind fun lk => ?_
  split
  · exact h.of (htake _)
  · exact h.demand_bind fun _ => h.bind (hwait _ _) fun _ => h.say_bind fun _ => hend

protected theorem release (l : ObjectId) (hpass : ∀ t, P _ (passOn l t))
    (hpreempt : Q Unit preempt) : Q Unit (release l) :=
  h.ask_bind fun _ => h.bind (h.within.masked (hpass _)) fun _ => hpreempt

protected theorem await (c l : ObjectId)
    (hbind : P Unit (changeCondition c fun cond => { cond with lock := some l }))
    (hjoin : ∀ q, P Unit (changeCondition c fun cond => { cond with waiters := q }))
    (hpass : ∀ t, P _ (passOn l t)) (hend : Q Unit (endTurn .blocked)) : Q Unit (await c l) := by
  refine h.outsideHandler_bind fun _ => h.bind (h.within.checkHeld _ _ _) fun _ =>
    h.ask_bind fun th => h.masked <| h.ask_bind fun cond => ?_
  have hwait : Q Unit (do
      let waiters ← ask fun k => do (← k.condition c).waiters.push th.id
      changeCondition c fun cond => { cond with waiters := waiters }
      let _ ← passOn l th.id
      say (.waits th.id (.condition c))
      endTurn .blocked) :=
    h.ask_bind fun _ => h.bind (hjoin _) fun _ => h.bind (hpass _) fun _ => h.say_bind fun _ => hend
  split
  · exact h.demand_bind fun _ => hwait
  · exact h.bind hbind fun _ => hwait

protected theorem reportFork (hfamily : ∀ t f, P Unit (changeFamily t f))
    (hup : ∀ s, Q Unit (up s)) : Q _ reportFork := by
  refine h.ask_bind fun th => h.ask_bind fun _ => ?_
  split
  · exact h.pure _
  refine h.ask_bind fun r => ?_
  split
  · exact h.pure _
  split
  · exact h.pure _
  · exact h.bind (hfamily _ _) fun _ => h.bind_pure (hup _) _

protected theorem awaitFork (child : ThreadId) (hdown : ∀ s, Q Unit (down s)) :
    Q _ (awaitFork child) := by
  refine h.ask_bind fun th => h.ask_bind fun r => ?_
  split
  · exact h.pure _
  · exact h.bind_pure (hdown _) _

protected theorem spawn (name : String) (priority : Priority) (task : Option Task)
    (hregister : ∀ name entry, P _ (register name priority entry task))
    (hadopt : ∀ parent child, P Unit (adopt parent child)) (hunblock : ∀ t, P Unit (unblock t))
    (hpreempt : Q Unit preempt) : Q _ (spawn name priority task) := by
  refine h.demand_bind fun _ => h.ask_bind fun creator => h.bind (hregister _ _) fun r => ?_
  split
  · exact h.say_bind fun _ => h.pure _
  · exact h.bind (hadopt _ _) fun _ => h.say_bind fun _ => h.bind (hunblock _) fun _ =>
      h.bind_pure hpreempt _

protected theorem exit (hleave : ∀ t, P Unit (leaveFamily t)) (hend : Q Unit (endTurn .dying)) :
    Q Unit exit := by
  refine h.outsideHandler_bind fun _ => h.ask_bind fun th => h.get_bind fun _ =>
    h.demand_bind fun _ => h.get_bind fun k => ?_
  have hrest : Q Unit (do
      leaveFamily th.id
      say (.exits th.id (← ask (thread th.id)).name)
      Core.masked (endTurn .dying)) :=
    h.bind (hleave _) fun _ => h.ask_bind fun _ => h.say_bind fun _ => h.masked hend
  split
  · exact h.bind (h.within.throw _) fun _ => hrest
  · exact hrest

end Closes

end ThreadCore.Core
