import ThreadCore.Proofs.Trades

/-!
# What calls need

A step on an object succeeds only if the object exists (`Core.Needs`), so a call halts if one of the
objects that it names was destroyed.
-/

namespace ThreadCore

namespace Core

variable {α β : Type} {h : Handle}

/-- The step succeeds only if the object exists. -/
def Needs (h : Handle) (x : CoreM α) : Prop := ∀ k a k', x k = .ok a k' → k.objects.Has h

theorem Needs.bind {x : CoreM α} {g : α → CoreM β} (hx : Needs h x) : Needs h (x >>= g) := by
  intro k b k' he
  obtain ⟨a, m, hm, -⟩ := bind_eq_ok.mp he
  exact hx _ _ _ hm

/-- A step before that leaves the objects alone does not help. -/
theorem Keeps.needs {x : CoreM α} {g : α → CoreM β} (hx : Keeps estate x)
    (hg : ∀ a, Needs h (g a)) : Needs h (x >>= g) := by
  intro k b k' he
  obtain ⟨a, m, hm, he⟩ := bind_eq_ok.mp he
  have hobjects : m.objects = k.objects := congrArg Estate.objects (hx _ _ _ hm)
  exact hobjects ▸ hg a _ _ _ he

theorem Needs.masked {body : CoreM α} (hb : Needs h body) : Needs h (masked body) :=
  (keeps_onMachine _).needs fun _ => hb.bind

theorem needs_ask {question : Core → Except Halt α}
    (hq : ∀ k a, question k = .ok a → k.objects.Has h) : Needs h (ask question) :=
  fun k a _ he => hq k a (ask_eq_ok_iff.mp he).1

theorem needs_semaphore (s : ObjectId) : Needs (.semaphore s) (ask (semaphore s)) :=
  needs_ask fun _ _ ho => Std.ExtTreeMap.mem_iff_isSome_getElem?.mpr
    (Option.isSome_of_eq_some (semaphore_eq_ok_iff.mp ho))

theorem needs_lock (l : ObjectId) : Needs (.lock l) (ask (lock l)) :=
  needs_ask fun _ _ ho => Std.ExtTreeMap.mem_iff_isSome_getElem?.mpr
    (Option.isSome_of_eq_some (lock_eq_ok_iff.mp ho))

theorem needs_condition (c : ObjectId) : Needs (.condition c) (ask (condition c)) :=
  needs_ask fun _ _ ho => Std.ExtTreeMap.mem_iff_isSome_getElem?.mpr
    (Option.isSome_of_eq_some (condition_eq_ok_iff.mp ho))

theorem needs_down (s : ObjectId) : Needs (.semaphore s) (down s) :=
  (keeps_ask _).needs fun _ => (needs_semaphore s).bind.masked

theorem needs_tryDown (s : ObjectId) : Needs (.semaphore s) (tryDown s) :=
  (needs_semaphore s).bind.masked

theorem needs_up (s : ObjectId) : Needs (.semaphore s) (up s) :=
  ((needs_semaphore s).bind.masked).bind

theorem needs_destroySemaphore (s : ObjectId) : Needs (.semaphore s) (destroySemaphore s) :=
  (needs_semaphore s).bind

theorem needs_acquire (l : ObjectId) : Needs (.lock l) (acquire l) :=
  (keeps_outsideHandler _).needs fun _ => (keeps_ask _).needs fun _ => (needs_lock l).bind.masked

theorem needs_tryAcquire (l : ObjectId) : Needs (.lock l) (tryAcquire l) :=
  (keeps_ask _).needs fun _ => (needs_lock l).bind.masked

theorem needs_passOn (l : ObjectId) (holder : ThreadId) : Needs (.lock l) (passOn l holder) :=
  (needs_lock l).bind

theorem needs_release (l : ObjectId) : Needs (.lock l) (release l) :=
  (keeps_ask _).needs fun _ => (needs_passOn l _).masked.bind

theorem needs_heldByCurrent (l : ObjectId) : Needs (.lock l) (ask (heldByCurrent l)) := by
  refine needs_ask fun k _ ho => ?_
  obtain ⟨o, ho, -⟩ := except_bind_ok.mp ho
  exact needs_lock l k o k (ask_eq_ok_iff.mpr ⟨ho, rfl⟩)

theorem needs_destroyLock (l : ObjectId) : Needs (.lock l) (destroyLock l) := (needs_lock l).bind

theorem needs_checkHeld (use : ConditionUse) (c l : ObjectId) :
    Needs (.lock l) (checkHeld use c l) :=
  (needs_heldByCurrent l).bind

theorem needs_await (c l : ObjectId) :
    Needs (.condition c) (await c l) ∧ Needs (.lock l) (await c l) :=
  ⟨(keeps_outsideHandler _).needs fun _ => (keeps_checkHeld _ _ _).needs fun _ =>
    (keeps_ask _).needs fun _ => (needs_condition c).bind.masked,
    (keeps_outsideHandler _).needs fun _ => (needs_checkHeld _ _ _).bind⟩

theorem needs_signal (c l : ObjectId) :
    Needs (.condition c) (signal c l) ∧ Needs (.lock l) (signal c l) :=
  ⟨(keeps_checkHeld _ _ _).needs fun _ => (needs_condition c).bind.masked.bind,
    (needs_checkHeld _ _ _).bind⟩

theorem needs_broadcast (c l : ObjectId) :
    Needs (.condition c) (broadcast c l) ∧ Needs (.lock l) (broadcast c l) :=
  ⟨(keeps_checkHeld _ _ _).needs fun _ => (needs_condition c).bind.masked,
    (needs_checkHeld _ _ _).bind⟩

theorem needs_destroyCondition (c : ObjectId) : Needs (.condition c) (destroyCondition c) :=
  (needs_condition c).bind

end Core

/-- The slots that the call names. -/
def Call.slots : Call → List Slot
  | .down i | .tryDown i | .up i | .semaphoreValue i | .semaphoreWaiters i | .destroySemaphore i =>
    [.semaphore i]
  | .acquire i | .tryAcquire i | .release i | .heldByCurrent i | .holder i | .lockWaiters i
  | .destroyLock i => [.lock i]
  | .await i j | .signal i j | .broadcast i j => [.condition i, .lock j]
  | .conditionWaiters i | .destroyCondition i => [.condition i]
  | _ => []

namespace Session

open ThreadCore.Core (Needs)

variable {s s' : Session} {a : Answer} {c : Call} {x : Slot} {h : Handle}

/-- A call that names a slot gets its handle. -/
theorem slot_semaphore {i : Nat} {id : ObjectId} (hi : s.semaphores[i]? = some id) :
    s.slot (.semaphore i) = some (.semaphore id) :=
  congrArg (Option.map _) hi

theorem slot_lock {i : Nat} {l : ObjectId} (hi : s.locks[i]? = some l) :
    s.slot (.lock i) = some (.lock l) :=
  congrArg (Option.map _) hi

theorem slot_condition {i : Nat} {v : ObjectId} (hi : s.conditions[i]? = some v) :
    s.slot (.condition i) = some (.condition v) :=
  congrArg (Option.map _) hi

/-- A call that only looks lacks the handle in one of its slots, if it names any. -/
theorem Looks.exists_slot (hl : s.Looks c a) (hx : x ∈ c.slots) :
    ∃ y ∈ c.slots, s.slot y = none := by
  cases hl with
  | misused hl =>
    cases c with
    | down i | tryDown i | up i | semaphoreValue i | semaphoreWaiters i | destroySemaphore i =>
      exact ⟨.semaphore i, List.mem_singleton_self _, congrArg (Option.map _) hl⟩
    | acquire i | tryAcquire i | release i | heldByCurrent i | holder i | lockWaiters i
    | destroyLock i =>
      exact ⟨.lock i, List.mem_singleton_self _, congrArg (Option.map _) hl⟩
    | conditionWaiters i | destroyCondition i =>
      exact ⟨.condition i, List.mem_singleton_self _, congrArg (Option.map _) hl⟩
    | await i j | signal i j | broadcast i j =>
      rcases hl with hi | hj
      · exact ⟨.condition i, List.mem_cons_self, congrArg (Option.map _) hi⟩
      · exact ⟨.lock j, List.mem_cons_of_mem _ (List.mem_singleton_self _),
          congrArg (Option.map _) hj⟩
    | _ => cases hx
  | _ => cases hx

/-- **Calls need their objects.** A call that names slots with handles succeeds only if the objects
are there. -/
theorem execute_needs (hall : ∀ y ∈ c.slots, s.slot y ≠ none) (hx : x ∈ c.slots)
    (hh : s.slot x = some h) (he : execute c s = .ok a s') : s.core.objects.Has h := by
  have hone : ∀ {α : Type} {y : Slot} {g : Handle} {step : CoreM α} {r : α} {k : Core}, x ∈ [y] →
      s.slot y = some g → Needs g step → step s.core = .ok r k → s.core.objects.Has h := by
    intro α y g step r k hx hg hn hk
    obtain rfl := List.mem_singleton.mp hx
    obtain rfl := Option.some.inj (hh.symm.trans hg)
    exact hn _ _ _ hk
  have hboth : ∀ {α : Type} {y z : Slot} {f g : Handle} {step : CoreM α} {r : α} {k : Core},
      x ∈ [y, z] → s.slot y = some f → s.slot z = some g → Needs f step ∧ Needs g step →
      step s.core = .ok r k → s.core.objects.Has h := by
    intro α y z f g step r k hx hf hg hn hk
    rcases List.mem_cons.mp hx with hx | hx
    · exact hone (List.mem_singleton.mpr hx) hf hn.1 hk
    · exact hone hx hg hn.2 hk
  obtain ⟨hl, -⟩ | ⟨α, e, r, k, hp, hk, -, -⟩ := execute_ok he
  · obtain ⟨y, hy, hnone⟩ := hl.exists_slot hx
    exact absurd hnone (hall y hy)
  cases hp with
  | down hi => exact hone hx (slot_semaphore hi) (Core.needs_down _) hk
  | tryDown hi => exact hone hx (slot_semaphore hi) (Core.needs_tryDown _) hk
  | up hi => exact hone hx (slot_semaphore hi) (Core.needs_up _) hk
  | destroySemaphore hi => exact hone hx (slot_semaphore hi) (Core.needs_destroySemaphore _) hk
  | acquire hi => exact hone hx (slot_lock hi) (Core.needs_acquire _) hk
  | tryAcquire hi => exact hone hx (slot_lock hi) (Core.needs_tryAcquire _) hk
  | release hi => exact hone hx (slot_lock hi) (Core.needs_release _) hk
  | destroyLock hi => exact hone hx (slot_lock hi) (Core.needs_destroyLock _) hk
  | await hi hj => exact hboth hx (slot_condition hi) (slot_lock hj) (Core.needs_await _ _) hk
  | signal hi hj => exact hboth hx (slot_condition hi) (slot_lock hj) (Core.needs_signal _ _) hk
  | broadcast hi hj =>
    exact hboth hx (slot_condition hi) (slot_lock hj) (Core.needs_broadcast _ _) hk
  | destroyCondition hi => exact hone hx (slot_condition hi) (Core.needs_destroyCondition _) hk
  | ask ha =>
    cases ha with
    | semaphoreValue hi | semaphoreWaiters hi =>
      exact hone hx (slot_semaphore hi) (Core.needs_semaphore _) hk
    | heldByCurrent hi => exact hone hx (slot_lock hi) (Core.needs_heldByCurrent _) hk
    | holder hi | lockWaiters hi => exact hone hx (slot_lock hi) (Core.needs_lock _) hk
    | conditionWaiters hi => exact hone hx (slot_condition hi) (Core.needs_condition _) hk
    | _ => cases hx
  | _ => cases hx

end Session

end ThreadCore
