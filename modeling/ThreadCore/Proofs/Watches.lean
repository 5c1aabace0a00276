import ThreadCore.Proofs.Backdrop
import ThreadCore.Proofs.Steadiness

/-!
# Inside a handler

Nothing in a handler takes the processor from the thread that was interrupted. Most steps there
leave alone who should run (`Keeps vigil`). A step that wakes threads or changes priorities ends
with `preempt`, which asks for a yield if a ready thread outranks the interrupted one (`Settles`).
So a thread that outranks it without such a request did so before, or was made ready by hand
(`Watches`).

A signal makes nobody ready, but it computes the priority of the running thread again. That may
lower it only if it was out of date (`Core.UpToDate`).
-/

namespace ThreadCore

/-- Whose turn it is, and what is to become of it at the return from a handler. -/
structure Duty where
  current : ThreadId
  idle : ThreadId
  handler : Bool
  pending : Bool

/-- What decides who should run. -/
structure Vigil extends Duty where
  ready : List ThreadId
  priority : ThreadId → Priority

namespace Waits

variable {w : Waits} {t u : ThreadId} {l : ObjectId} {p : Priority}

/-- More donors, or more urgent ones, make no lower priority due. -/
theorem due_mono {v w : Waits} {t : ThreadId} (hb : v.base t = w.base t)
    (hd : ∀ d ∈ w.donors t, d ∈ v.donors t ∧ w.priority d ≤ v.priority d) : w.due t ≤ v.due t :=
  due_le (hb ▸ base_le_due v t) fun d hm => (hd d hm).2.trans (priority_le_due (hd d hm).1)

theorem due_le_due_enqueue : w.due u ≤ (w.enqueue t l u).due u :=
  due_mono rfl fun d hd => ⟨by simp [enqueue, setDonors, hd], le_refl _⟩

theorem due_le_due_setPriority (hp : w.priority u ≤ p) : w.due t ≤ (w.setPriority u p).due t := by
  refine due_mono rfl fun d hd => ⟨hd, ?_⟩
  simp only [setPriority, Function.update_apply]
  split
  · subst d
    exact hp
  · exact le_refl _

end Waits

namespace Core

variable {α β : Type} {k k' m : Core} {a : α} {t : ThreadId} {s l c : ObjectId} {u : Unit}
  {excused : ThreadId → Prop}

def duty (k : Core) : Duty := ⟨k.current, k.idle, k.machine.inHandler, k.yieldPending⟩

def vigil (k : Core) : Vigil := ⟨k.duty, k.ready.entries, k.priorityOf⟩

theorem vigil_eq_iff : k'.vigil = k.vigil ↔ Calm k k' := by
  constructor
  · intro h
    exact ⟨congrArg (·.current) h, congrArg (·.idle) h, congrArg Vigil.ready h,
      congrFun (congrArg Vigil.priority h), congrArg (·.handler) h, congrArg (·.pending) h⟩
  · intro h
    simp only [vigil, duty, h.current, h.idle, h.ready, h.handler, h.pending, funext h.priority]

/-! ## Steps that leave alone who should run -/

theorem Quiet.vigil (h : Quiet k k') : k'.vigil = k.vigil := vigil_eq_iff.mpr h.alike.calm

theorem Quiet.duty (h : Quiet k k') : k'.duty = k.duty := congrArg Vigil.toDuty h.vigil

theorem discreet_vigil : Discreet fun _ => Keeps vigil := discreet_of_quiet fun _ _ => Quiet.vigil

theorem vigil_increment (n : Nat) : Keeps vigil (increment n) := discreet_vigil.increment n

theorem vigil_changeFamily (t : ThreadId) (f : Family → Family) :
    Keeps vigil (changeFamily t f) := by
  intro k _ k' h
  obtain ⟨-, rfl⟩ := changeFamily_eq_ok.mp h
  exact vigil_eq_iff.mpr (calm_mapFamily k t f)

theorem vigil_changeSemaphore (s : ObjectId) (f : Semaphore → Semaphore) :
    Keeps vigil (changeSemaphore s f) :=
  (keeps_ask _).bind fun _ => keeps_modify fun _ => rfl

theorem vigil_changeLock (l : ObjectId) (f : Lock → Lock) : Keeps vigil (changeLock l f) :=
  (keeps_ask _).bind fun _ => keeps_modify fun _ => rfl

theorem vigil_freshObject : Keeps vigil freshObject :=
  discreet_vigil.freshObject fun _ => keeps_modify fun _ => rfl

theorem vigil_newSemaphore (value : Nat) : Keeps vigil (newSemaphore value) :=
  vigil_freshObject.bind fun _ => .bind (keeps_modify fun _ => rfl) fun _ => keeps_pure _

theorem vigil_newLock : Keeps vigil newLock :=
  vigil_freshObject.bind fun _ => .bind (keeps_modify fun _ => rfl) fun _ => keeps_pure _

theorem vigil_newCondition : Keeps vigil newCondition :=
  vigil_freshObject.bind fun _ => .bind (keeps_modify fun _ => rfl) fun _ => keeps_pure _

theorem vigil_destroySemaphore (s : ObjectId) : Keeps vigil (destroySemaphore s) :=
  discreet_vigil.destroySemaphore s (keeps_modify fun _ => rfl)

theorem vigil_destroyLock (l : ObjectId) : Keeps vigil (destroyLock l) :=
  discreet_vigil.destroyLock l (keeps_modify fun _ => rfl)

theorem vigil_destroyCondition (c : ObjectId) : Keeps vigil (destroyCondition c) :=
  discreet_vigil.destroyCondition c (keeps_modify fun _ => rfl)

theorem vigil_tryDown (s : ObjectId) : Keeps vigil (tryDown s) :=
  discreet_vigil.tryDown s (vigil_changeSemaphore s _)

theorem vigil_tryAcquire (l : ObjectId) : Keeps vigil (tryAcquire l) :=
  discreet_vigil.tryAcquire l fun _ => vigil_changeLock l _

theorem vigil_setExitStatus (status : Int32) : Keeps vigil (setExitStatus status) :=
  discreet_vigil.setExitStatus status vigil_changeFamily

theorem vigil_collect (parent child : ThreadId) : Keeps vigil (collect parent child) :=
  fun _ _ _ h => vigil_eq_iff.mpr (collect_calm h)

theorem vigil_tryCollect (child : ThreadId) : Keeps vigil (tryCollect child) :=
  discreet_vigil.tryCollect child (vigil_collect · child)

theorem vigil_overwrite (t : ThreadId) (stack : Except Halt Page) : Keeps vigil (do
    let stack ← ask fun _ => stack
    changeThread t fun th => { th with stack := stack }) := by
  refine (keeps_ask _).bind fun page => ?_
  intro k _ k' h
  obtain ⟨-, rfl⟩ := changeThread_eq_ok.mp h
  have hwaits : (k.mapThread t fun th => { th with stack := page }).waits = k.waits :=
    waits_mapThread (fun _ => rfl) (fun _ => rfl) (fun _ => rfl) fun _ => rfl
  refine vigil_eq_iff.mpr ⟨rfl, rfl, rfl, fun v => ?_, rfl, rfl⟩
  rw [priorityOf_eq, priorityOf_eq, hwaits]

/-! ## Steps that leave the turn alone -/

/-- Only a dispatch, a request to yield and the entry of a handler concern the turn. -/
theorem aloof_duty : Aloof duty :=
  ⟨fun _ _ => rfl, fun _ _ => rfl, fun _ _ => rfl, fun _ _ => rfl, fun _ _ => rfl, fun _ _ => rfl⟩

/-! ## Watching -/

/-- The turn goes on, and a yield that was asked for is not forgotten. -/
structure Stays (k k' : Core) : Prop where
  current : k'.current = k.current
  idle : k'.idle = k.idle
  handler : k'.machine.inHandler = k.machine.inHandler
  pending : k.yieldPending = true → k'.yieldPending = true

/-- The order is settled, or a thread that outranks the current one did so before or is excused. -/
structure Heeds (excused : ThreadId → Prop) (k k' : Core) : Prop extends Stays k k' where
  watched : k'.Settled ∨ ∀ t ∈ k'.ready.entries, k'.priorityOf k.current < k'.priorityOf t →
    (t ∈ k.ready.entries ∧ k.priorityOf k.current < k.priorityOf t) ∨ excused t

/-- The order is settled, however it was before. -/
structure Rests (k k' : Core) : Prop extends Stays k k' where
  settled : k'.Settled

theorem stays_of_duty (h : k'.duty = k.duty) : Stays k k' :=
  ⟨congrArg (·.current) h, congrArg (·.idle) h, congrArg (·.handler) h,
    fun hp => (congrArg Duty.pending h).trans hp⟩

theorem Stays.trans (h : Stays k m) (h' : Stays m k') : Stays k k' :=
  ⟨h'.current.trans h.current, h'.idle.trans h.idle, h'.handler.trans h.handler,
    fun hp => h'.pending (h.pending hp)⟩

theorem Stays.rests (h : Stays k m) (h' : Rests m k') : Rests k k' :=
  ⟨h.trans h'.toStays, h'.settled⟩

theorem Rests.heeds (h : Rests k k') : Heeds excused k k' := ⟨h.toStays, .inl h.settled⟩

theorem Calm.heeds (h : Calm k k') : Heeds excused k k' := by
  refine ⟨⟨h.current, h.idle, h.handler, fun hp => h.pending.trans hp⟩,
    .inr fun t ht hlt => .inl ?_⟩
  rw [h.priority, h.priority] at hlt
  exact ⟨h.ready ▸ ht, hlt⟩

theorem Heeds.mono {excused' : ThreadId → Prop} (h : Heeds excused k k')
    (hw : ∀ t, excused t → excused' t) : Heeds excused' k k' :=
  ⟨h.toStays, h.watched.imp_right fun h t ht hlt => (h t ht hlt).imp_right (hw t)⟩

/-- Within a handler, one step after the other. -/
theorem Heeds.trans (hh : k.machine.inHandler = true) (h : Heeds excused k m)
    (h' : Heeds excused m k') : Heeds excused k k' := by
  refine ⟨h.toStays.trans h'.toStays, ?_⟩
  have hh' : k'.machine.inHandler = true := h'.handler.trans (h.handler.trans hh)
  rcases h'.watched with hset | hlater
  · exact .inl hset
  rw [h.current] at hlater
  rcases h.watched with (ho | ⟨-, hp | hi⟩) | hbefore
  · refine .inr fun t ht hlt => .inr ((hlater t ht hlt).resolve_left fun hm => ?_)
    exact absurd hm.2 (not_lt.mpr (h.current ▸ ho.priority_le hm.1))
  · exact .inl (.inr ⟨hh', .inl (h'.pending hp)⟩)
  · exact .inl (.inr ⟨hh', .inr (h'.current.trans (hi.trans h'.idle.symm))⟩)
  · refine .inr fun t ht hlt => ?_
    rcases hlater t ht hlt with ⟨hm, hlt⟩ | hw
    · exact hbefore t hm hlt
    · exact .inr hw

/-- If the step succeeds in a handler, it heeds who outranks the current thread. -/
def Watches (excused : ThreadId → Prop) (x : CoreM α) : Prop :=
  ∀ k a k', k.machine.inHandler = true → x k = .ok a k' → Heeds excused k k'

/-- If the step succeeds in a handler, the order is settled. -/
def Settles (x : CoreM α) : Prop :=
  ∀ k a k', k.machine.inHandler = true → x k = .ok a k' → Rests k k'

theorem Keeps.watches {x : CoreM α} (hx : Keeps vigil x) : Watches excused x :=
  fun k a k' _ h => (vigil_eq_iff.mp (hx k a k' h)).heeds

theorem Settles.watches {x : CoreM α} (hx : Settles x) : Watches excused x :=
  fun k a k' hh h => (hx k a k' hh h).heeds

theorem Watches.of_quiet {x : CoreM α} (h : ∀ k a k', x k = .ok a k' → Quiet k k') :
    Watches excused x :=
  (Keeps.of_quiet (fun _ _ => Quiet.vigil) h).watches

theorem watches_pure (a : α) : Watches excused (pure a) := (keeps_pure a).watches

theorem Watches.bind {x : CoreM α} {g : α → CoreM β} (hx : Watches excused x)
    (hg : ∀ a, Watches excused (g a)) : Watches excused (x >>= g) := by
  intro k b k' hh h
  obtain ⟨a, m, hm, h⟩ := bind_eq_ok.mp h
  have hfirst := hx k a m hh hm
  exact hfirst.trans hh (hg a m b k' (hfirst.handler.trans hh) h)

theorem Watches.masked {body : CoreM α} (hb : Watches excused body) :
    Watches excused (masked body) := by
  intro k a k' hh h
  obtain ⟨m, m', hq, h, hq'⟩ := masked_eq_ok h
  have hfirst : Heeds excused k m := hq.alike.calm.heeds
  have hbody := hb m a m' (hq.handler.trans hh) h
  exact (hfirst.trans hh hbody).trans hh hq'.alike.calm.heeds

theorem discreet_watches : Discreet fun _ => Watches excused where
  bind := .bind
  pure := watches_pure
  get := keeps_get.watches
  ask question := (keeps_ask question).watches
  throw e := (keeps_throw e).watches
  say n := (discreet_vigil.say n).watches
  masked := .masked

/-- What comes before the end does not matter as long as the turn goes on. -/
theorem Keeps.settles {x : CoreM α} {g : α → CoreM β} (hx : Keeps Core.duty x)
    (hg : ∀ a, Settles (g a)) : Settles (x >>= g) := by
  intro k b k' hh h
  obtain ⟨a, m, hm, h⟩ := bind_eq_ok.mp h
  have hfirst := stays_of_duty (hx k a m hm)
  have hrest := hg a m b k' (hfirst.handler.trans hh) h
  exact hfirst.rests hrest

theorem Settles.bind_pure {x : CoreM α} (hx : Settles x) (f : α → β) :
    Settles (x >>= fun a => pure (f a)) := by
  intro k b k' hh h
  obtain ⟨a, m, hm, h⟩ := bind_eq_ok.mp h
  obtain ⟨-, rfl⟩ := pure_eq_ok.mp h
  exact hx k a m hh hm

/-- What is out of place in a handler does not succeed there. -/
theorem watches_outside (attempt : Attempt) (g : Unit → CoreM α) :
    Watches excused (outsideHandler attempt >>= g) := by
  intro k a k' hh h
  rw [outsideHandler_bind_eq_ok, hh] at h
  exact absurd h.1 (by decide)

/-! ## Operations in a handler -/

theorem settles_preempt : Settles preempt := by
  intro k _ k' hh h
  unfold preempt at h
  rw [ask_bind_eq_ok] at h
  obtain ⟨b, hb, h⟩ := h
  cases b with
  | true =>
    rw [if_pos rfl, get_bind_eq_ok, if_pos hh, modify_eq_ok] at h
    subst h
    exact ⟨⟨rfl, rfl, rfl, fun _ => rfl⟩, .inr ⟨hh, .inl rfl⟩⟩
  | false =>
    obtain ⟨-, rfl⟩ := pure_eq_ok.mp h
    exact ⟨⟨rfl, rfl, rfl, id⟩, .inl ((outranked_eq_ok hb).1 rfl)⟩

theorem watches_yieldOnReturn : Watches excused yieldOnReturn := by
  intro k _ k' hh h
  unfold yieldOnReturn at h
  rw [get_bind_eq_ok, demand_bind_eq_ok, modify_eq_ok] at h
  obtain ⟨-, rfl⟩ := h
  exact ⟨⟨rfl, rfl, rfl, fun _ => rfl⟩, .inl (.inr ⟨hh, .inl rfl⟩)⟩

theorem settles_setPriority (p : Priority) : Settles (setPriority p) :=
  (keeps_demand _ _).settles fun _ => (keeps_ask _).settles fun _ =>
    (aloof_duty.masked <| (aloof_duty.changeThread _ _).bind fun _ =>
      (aloof_duty.refreshPriority _).bind fun _ => keeps_pure _).settles fun _ => settles_preempt

theorem settles_release (l : ObjectId) : Settles (release l) :=
  (keeps_ask _).settles fun _ =>
    (aloof_duty.masked (aloof_duty.passOn _ _)).settles fun _ => settles_preempt

theorem watches_spawn (name : String) (priority : Priority) (task : Option Task) :
    Watches excused (spawn name priority task) := by
  have hcreate : ∀ creator t, Settles (adopt creator t >>= fun _ =>
      say (.created creator t (Name.clip name) priority) >>= fun _ => unblock t >>= fun _ =>
      preempt >>= fun _ => pure (.ok t : Except Refusal ThreadId)) := fun creator t =>
    (aloof_duty.adopt _ _).settles fun _ => (aloof_duty.say _).settles fun _ =>
      (aloof_duty.unblock _).settles fun _ => settles_preempt.bind_pure _
  refine (keeps_demand _ _).watches.bind fun _ => (keeps_ask _).watches.bind fun creator => ?_
  intro k a k' hh h
  obtain ⟨r, m, hm, h⟩ := bind_eq_ok.mp h
  rcases register_eq_ok hm with ⟨refusal, rfl, hq⟩ | ⟨n, page, hq, rfl, rfl⟩
  · simp only [bind_eq_ok, pure_eq_ok] at h
    obtain ⟨_, m', hm', rfl, rfl⟩ := h
    exact (hq.trans (quiet_say hm')).alike.calm.heeds
  · have hfirst : Stays k (n.enlist (.create n.nextThread (Name.clip (Name.clip name)) priority page
        (some name) task)) := stays_of_duty hq.duty
    have hrest := hcreate _ _ _ _ _ (hfirst.handler.trans hh) h
    exact (hfirst.rests hrest).heeds

theorem watches_up (s : ObjectId) : Watches excused (up s) := by
  have hnone : ∀ k k', masked (wakeOne s) k = .ok none k' → k'.vigil = k.vigil := by
    intro k k' h
    obtain ⟨m, m', hq, h, hq'⟩ := masked_eq_ok h
    refine hq'.vigil.trans (Eq.trans ?_ hq.vigil)
    unfold wakeOne at h
    simp only [ask_bind_eq_ok] at h
    obtain ⟨sema, -, next, -, h⟩ := h
    cases next with
    | some t =>
      simp only [bind_eq_ok, pure_eq_ok] at h
      obtain ⟨_, _, -, _, _, -, hsome, -⟩ := h
      cases hsome
    | none =>
      obtain ⟨v, n, hn, h⟩ := bind_eq_ok.mp h
      exact (((vigil_changeSemaphore _ _).bind fun _ => keeps_pure _) _ _ _ h).trans
        (vigil_increment _ _ _ _ hn)
  intro k a k' hh h
  obtain ⟨r, m, hm, h⟩ := bind_eq_ok.mp h
  cases r with
  | none =>
    obtain ⟨-, rfl⟩ := pure_eq_ok.mp h
    exact (vigil_eq_iff.mp (hnone _ _ hm)).heeds
  | some t =>
    have hfirst := stays_of_duty (aloof_duty.masked (aloof_duty.wakeOne s) _ _ _ hm)
    have hrest := settles_preempt _ _ _ (hfirst.handler.trans hh) h
    exact (hfirst.rests hrest).heeds

theorem vigil_wakeDue_zero {now n : Nat} (h : wakeDue now n k = .ok 0 k') : k'.vigil = k.vigil := by
  cases n with
  | zero =>
    obtain ⟨-, rfl⟩ := pure_eq_ok.mp h
    rfl
  | succ n =>
    unfold wakeDue at h
    rw [ask_bind_eq_ok] at h
    obtain ⟨next, -, h⟩ := h
    cases next with
    | none =>
      obtain ⟨-, rfl⟩ := pure_eq_ok.mp h
      rfl
    | some t =>
      simp only [ask_bind_eq_ok] at h
      obtain ⟨th, -, h⟩ := h
      split at h
      · obtain ⟨-, rfl⟩ := pure_eq_ok.mp h
        rfl
      · simp only [bind_eq_ok, pure_eq_ok] at h
        obtain ⟨_, _, -, _, _, -, _, _, -, _, _, -, _, _, -, hzero, -⟩ := h
        cases hzero

theorem watches_wakeSleepers (now : Nat) : Watches excused (wakeSleepers now) := by
  intro k a k' hh h
  unfold wakeSleepers at h
  obtain ⟨n, m, hm, h⟩ := bind_eq_ok.mp h
  by_cases hn : 0 < n
  · have hfirst :=
      stays_of_duty (aloof_duty.masked (keeps_get.bind fun _ => aloof_duty.wakeDue now _) _ _ _ hm)
    rw [if_pos hn] at h
    have hrest := settles_preempt.bind_pure _ _ _ _ (hfirst.handler.trans hh) h
    exact (hfirst.rests hrest).heeds
  · obtain rfl := Nat.eq_zero_of_not_pos hn
    rw [if_neg hn] at h
    obtain ⟨-, rfl⟩ := pure_eq_ok.mp h
    obtain ⟨m₁, m₂, hq, hm, hq'⟩ := masked_eq_ok hm
    rw [get_bind_eq_ok] at hm
    have hwake : m₂.vigil = m₁.vigil := vigil_wakeDue_zero hm
    exact (vigil_eq_iff.mp (hq'.vigil.trans (hwake.trans hq.vigil))).heeds

theorem watches_down (s : ObjectId) : Watches excused (down s) := by
  refine (keeps_ask _).watches.bind fun th => Watches.masked <|
    (keeps_ask _).watches.bind fun sema => ?_
  split
  · exact (vigil_changeSemaphore _ _).watches
  · exact watches_outside _ _

theorem watches_reportFork : Watches excused reportFork :=
  discreet_watches.closes.reportFork (fun t f => (vigil_changeFamily t f).watches) watches_up

theorem watches_awaitFork (child : ThreadId) : Watches excused (awaitFork child) :=
  discreet_watches.closes.awaitFork child watches_down

theorem watches_awaitExit (child : ThreadId) : Watches excused (awaitExit child) :=
  discreet_watches.awaitExit child (fun parent => (vigil_collect parent child).watches) watches_down

/-- A thread that is unblocked joins the ready threads, and nothing else changes. -/
theorem watches_unblock (t : ThreadId) : Watches (· = t) (unblock t) := by
  intro k _ k' _ h
  refine ⟨stays_of_duty (aloof_duty.unblock t _ _ _ h), .inr ?_⟩
  obtain ⟨-, m, th, hq, -, -, hq'⟩ := unblock_eq_ok h
  have hwaits : (m.mapThread t fun th => { th with state := .ready }).waits = m.waits :=
    waits_mapThread (fun _ => rfl) (fun _ => rfl) (fun _ => rfl) fun _ => rfl
  have hpriority : ∀ v, k'.priorityOf v = k.priorityOf v := fun v => by
    rw [hq'.alike.priorityOf, ← hq.alike.priorityOf, priorityOf_eq, priorityOf_eq m, ← hwaits]
    rfl
  intro v hv hlt
  rw [hpriority, hpriority] at hlt
  rw [hq'.ready] at hv
  rcases List.mem_append.mp hv with hv | hv
  · exact .inl ⟨hq.ready ▸ hv, hlt⟩
  · exact .inr (List.mem_singleton.mp hv)

/-! ## Signals -/

/-- The running thread waits for no lock, and its priority is not above what it has to be. -/
structure UpToDate (k : Core) : Prop where
  waitsFor : k.waits.waitsFor k.current = none
  priority : k.waits.priority k.current ≤ k.waits.due k.current

/-- Only the running thread becomes more urgent. -/
structure Raises (k k' : Core) : Prop extends Stays k k' where
  ready : k'.ready.entries = k.ready.entries
  rises : k.priorityOf k.current ≤ k'.priorityOf k.current
  others : ∀ t, t ≠ k.current → k'.priorityOf t = k.priorityOf t

theorem Calm.raises (h : Calm k k') : Raises k k' :=
  ⟨stays_of_duty (congrArg Vigil.toDuty (vigil_eq_iff.mpr h)), h.ready, (h.priority _).ge,
    fun t _ => h.priority t⟩

theorem Raises.trans (h : Raises k m) (h' : Raises m k') : Raises k k' := by
  have hrises := h'.rises
  have hothers := h'.others
  rw [h.current] at hrises hothers
  exact ⟨h.toStays.trans h'.toStays, h'.ready.trans h.ready, h.rises.trans hrises,
    fun t ht => (hothers t ht).trans (h.others t ht)⟩

theorem Raises.heeds (h : Raises k k') : Heeds excused k k' := by
  refine ⟨h.toStays, .inr fun t ht hlt => .inl ⟨h.ready ▸ ht, ?_⟩⟩
  have hne : t ≠ k.current := by
    rintro rfl
    exact lt_irrefl _ hlt
  rw [h.others t hne] at hlt
  exact h.rises.trans_lt hlt

theorem UpToDate.alike (h : k.UpToDate) (ha : Alike k k') : k'.UpToDate := by
  obtain ⟨hw, hp⟩ := h
  constructor
  · rwa [ha.waits, ha.current]
  · rwa [ha.waits, ha.current]

/-- A thread that begins to wait lines up, and then it donates. -/
theorem waitForLock_eq_ok {holder : ThreadId} (he : waitForLock t l holder k = .ok u k') :
    ∃ m, m.waits = k.waits.enqueue t l holder ∧ m.current = k.current ∧
      m.ready.entries = k.ready.entries ∧ donateAlong t m.threads.size t m = .ok u k' := by
  unfold waitForLock at he
  simp only [ask_bind_eq_ok, except_bind_ok, lock_eq_ok_iff, Queue.push_eq_ok_iff,
    changeLock_bind_eq_ok, changeThread_bind_eq_ok] at he
  obtain ⟨q, ⟨o, ho, -, hq⟩, -, ⟨th, hth⟩, he⟩ := he
  obtain ⟨_, m, hm, hdonate⟩ := bind_eq_ok.mp he
  obtain ⟨hu, hw⟩ := addDonor_eq_ok hm
  refine ⟨m, ?_, hu.current, hu.ready, hdonate⟩
  have hlock : (k.mapLock l fun lk => { lk with waiters := q }).waits =
      k.waits.setWaiters l (k.waits.waiters l ++ [t]) := by
    rw [waits_mapLock ho, hq, waiters_lock ho, ← holder_lock ho]
    simp [Waits.setHolder, Waits.setWaiters]
  rw [hw, waits_waitsFor hth (some l), hlock]
  rfl

/-- The donation of a thread that a signal moves over ends at the running thread. -/
theorem UpToDate.waitForLock (h : k.UpToDate) (hl : k.waits.holder l = some k.current)
    (he : waitForLock t l k.current k = .ok u k') :
    Raises k k' ∧ k'.UpToDate ∧ k'.waits.holder l = some k'.current := by
  have hstays : Stays k k' := stays_of_duty (aloof_duty.waitForLock _ _ _ _ _ _ he)
  obtain ⟨m, hw, hcurrent, hready, he⟩ := waitForLock_eq_ok he
  have hwaits : m.waits.waitsFor t = some l := by
    simp [hw, Waits.enqueue, Waits.setDonors, Waits.setWaitsFor]
  rcases donateAlong_cases he with ⟨hnone, -⟩ | ⟨holder, rest, n, -, haw, hne, hu, hwn, he⟩
  · rw [hwaits] at hnone
    cases hnone
  obtain rfl : holder = k.current := by
    obtain ⟨l', hl', hh⟩ := Waits.awaits_iff.mp haw
    obtain rfl := Option.some.inj (hwaits.symm.trans hl')
    rw [hw] at hh
    exact Option.some.inj (hh.symm.trans hl)
  have hfree : n.waits.waitsFor k.current = none := by
    rw [hwn, hw]
    exact (Function.update_of_ne hne ..).trans h.waitsFor
  -- The running thread waits for nobody, so that the chain has one link.
  rcases donateAlong_cases he with ⟨-, rfl⟩ | ⟨_, _, _, -, haw', -⟩
  swap
  · exact absurd haw' (Waits.not_awaits hfree _)
  rw [hw] at hwn
  have hlast : n.waits.priority k.current = (k.waits.enqueue t l k.current).due k.current := by
    rw [hwn]
    exact Function.update_self ..
  have hrises : k.waits.priority k.current ≤ (k.waits.enqueue t l k.current).due k.current :=
    h.priority.trans Waits.due_le_due_enqueue
  refine ⟨⟨hstays, hu.ready.trans hready, ?_, fun v hv => ?_⟩, ⟨?_, ?_⟩, ?_⟩
  · rw [priorityOf_eq, priorityOf_eq, hlast]
    exact hrises
  · rw [priorityOf_eq, priorityOf_eq, hwn]
    exact Function.update_of_ne hv ..
  · rw [hstays.current, hfree]
  · rw [hstays.current, hlast, hwn]
    exact Waits.due_le_due_setPriority hrises
  · rw [hstays.current, hwn]
    exact hl

theorem UpToDate.signalOne (h : k.UpToDate) (hl : k.waits.holder l = some k.current)
    {r : Option ThreadId} (he : signalOne c l k = .ok r k') :
    Raises k k' ∧ k'.UpToDate ∧ k'.waits.holder l = some k'.current := by
  unfold Core.signalOne at he
  simp only [ask_bind_eq_ok] at he
  obtain ⟨o, -, next, -, he⟩ := he
  cases next with
  | none =>
    obtain ⟨-, rfl⟩ := pure_eq_ok.mp he
    exact ⟨(Calm.refl _).raises, h, hl⟩
  | some t =>
    simp only [changeCondition_bind_eq_ok, get_bind_eq_ok] at he
    simp only [bind_eq_ok, pure_eq_ok] at he
    obtain ⟨-, _, m, hm, _, m', hm', -, rfl⟩ := he
    obtain ⟨hr, hu, hl'⟩ := UpToDate.waitForLock (k := k.mapCondition c fun cond =>
      { cond with waiters := cond.waiters.remove t }) ⟨h.waitsFor, h.priority⟩ hl hm
    have ha := (quiet_say hm').alike
    have hremove :
        Calm k (k.mapCondition c fun cond => { cond with waiters := cond.waiters.remove t }) :=
      ⟨rfl, rfl, rfl, fun _ => rfl, rfl, rfl⟩
    have hfirst : Raises k m := hremove.raises.trans hr
    refine ⟨hfirst.trans ha.calm.raises, hu.alike ha, ?_⟩
    rwa [ha.waits, ha.current]

theorem UpToDate.signalMany {n count : Nat} (h : k.UpToDate)
    (hl : k.waits.holder l = some k.current)
    (he : signalMany c l n k = .ok count k') : Raises k k' := by
  induction n generalizing k count with
  | zero =>
    obtain ⟨-, rfl⟩ := pure_eq_ok.mp he
    exact (Calm.refl _).raises
  | succ n ih =>
    unfold Core.signalMany at he
    obtain ⟨r, m, hm, he⟩ := bind_eq_ok.mp he
    obtain ⟨hr, hu, hl'⟩ := h.signalOne hl hm
    cases r with
    | none =>
      obtain ⟨-, rfl⟩ := pure_eq_ok.mp he
      exact hr
    | some t =>
      obtain ⟨_, m', hm', he⟩ := bind_eq_ok.mp he
      obtain ⟨-, rfl⟩ := pure_eq_ok.mp he
      exact hr.trans (ih hu hl' hm')

section

variable (hid : ∀ th, k.running = .ok th → th.id = k.current)

include hid

theorem UpToDate.signal {b : Bool} (h : k.UpToDate) (he : signal c l k = .ok b k') :
    Raises k k' := by
  unfold Core.signal at he
  simp only [bind_eq_ok, pure_eq_ok] at he
  obtain ⟨_, _, hc, r, n, hn, -, rfl⟩ := he
  obtain ⟨rfl, th, hr, hh⟩ := checkHeld_eq_ok hc
  rw [hid th hr] at hh
  obtain ⟨m, m', hq, hn, hq'⟩ := masked_eq_ok hn
  have hfirst := hq.alike
  have hl : m.waits.holder l = some m.current := by rwa [hfirst.waits, hfirst.current]
  obtain ⟨hraise, -, -⟩ := (h.alike hfirst).signalOne hl hn
  exact (hfirst.calm.raises.trans hraise).trans hq'.alike.calm.raises

theorem UpToDate.broadcast {n : Nat} (h : k.UpToDate) (he : broadcast c l k = .ok n k') :
    Raises k k' := by
  unfold Core.broadcast at he
  obtain ⟨_, _, hc, he⟩ := bind_eq_ok.mp he
  obtain ⟨rfl, th, hr, hh⟩ := checkHeld_eq_ok hc
  rw [hid th hr] at hh
  obtain ⟨m, m', hq, he, hq'⟩ := masked_eq_ok he
  have hfirst := hq.alike
  have hl : m.waits.holder l = some m.current := by rwa [hfirst.waits, hfirst.current]
  rw [ask_bind_eq_ok] at he
  obtain ⟨o, -, he⟩ := he
  exact (hfirst.calm.raises.trans ((h.alike hfirst).signalMany hl he)).trans hq'.alike.calm.raises

theorem heeds_signal {b : Bool} (he : Core.signal c l k = .ok b k') :
    Heeds (fun _ => ¬ k.UpToDate) k k' := by
  by_cases h : k.UpToDate
  · exact (h.signal hid he).heeds
  · exact ⟨stays_of_duty (aloof_duty.signal _ _ _ _ _ he), .inr fun _ _ _ => .inr h⟩

theorem heeds_broadcast {n : Nat} (he : Core.broadcast c l k = .ok n k') :
    Heeds (fun _ => ¬ k.UpToDate) k k' := by
  by_cases h : k.UpToDate
  · exact (h.broadcast hid he).heeds
  · exact ⟨stays_of_duty (aloof_duty.broadcast _ _ _ _ _ he), .inr fun _ _ _ => .inr h⟩

end

/-- In order, the running thread is up to date. -/
theorem Sound.upToDate {g : Stage} (hk : k.Sound g) (hg : g.state = .running) : k.UpToDate :=
  ⟨hk.current_waitsFor hg, (hk.waits.balanced _).le⟩

end Core

end ThreadCore
