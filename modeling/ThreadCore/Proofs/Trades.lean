import ThreadCore.Proofs.Steadiness
import ThreadCore.Proofs.Stock

/-!
# Transitions and objects

A session keeps its handles by slot. What a transition does to the stock of objects depends on the
call: a new object has a new number and gets a new slot, a call that destroys the object of a slot
removes this one only, and the records of children bring their own semaphores and take only these
away (`Session.Trades`).
-/

namespace ThreadCore

/-- A position among the handles of a session. -/
inductive Slot
  | semaphore (i : Nat)
  | lock (i : Nat)
  | condition (i : Nat)
deriving DecidableEq, Repr

/-- The slot whose object was destroyed. -/
def Deed.destroys : Deed → Option Slot
  | .call (.destroySemaphore i) (.done _) => some (.semaphore i)
  | .call (.destroyLock i) (.done _) => some (.lock i)
  | .call (.destroyCondition i) (.done _) => some (.condition i)
  | _ => none

namespace Session

open ThreadCore.Core (Keeps)

variable {s s' : Session} {a : Answer} {c : Call} {d : Deed} {x : Slot} {h : Handle}

/-- The handle in a slot. -/
def slot (s : Session) : Slot → Option Handle
  | .semaphore i => (s.semaphores[i]?).map .semaphore
  | .lock i => (s.locks[i]?).map .lock
  | .condition i => (s.conditions[i]?).map .condition

theorem slot_congr (hs : s'.semaphores = s.semaphores) (hl : s'.locks = s.locks)
    (hc : s'.conditions = s.conditions) : s'.slot = s.slot := by
  funext x
  cases x with
  | semaphore i => exact congrArg (fun ids : Array ObjectId => (ids[i]?).map Handle.semaphore) hs
  | lock i => exact congrArg (fun ids : Array ObjectId => (ids[i]?).map Handle.lock) hl
  | condition i => exact congrArg (fun ids : Array ObjectId => (ids[i]?).map Handle.condition) hc

/-! ## What a transition does to the stock -/

/-- Whether the call makes an object. -/
def makesObject : Call → Bool
  | .newSemaphore _ | .newLock | .newCondition => true
  | _ => false

/-- A call keeps the handles unless it makes an object. -/
theorem execute_slot (hc : makesObject c = false) (he : execute c s = .ok a s') :
    s'.slot = s.slot := by
  obtain ⟨-, rfl⟩ | ⟨α, e, r, k, hp, -, -, rfl⟩ := execute_ok he
  · rfl
  · cases hp <;> first | exact slot_congr rfl rfl rfl | cases hc

/-- What a transition may do to the stock. -/
inductive Trades (s : Session) (d : Deed) (s' : Session) : Prop
  | keep : d.destroys = none → s'.core.stock = s.core.stock → s'.slot = s.slot → Trades s d s'
  | make (x : Slot) (h : Handle) : d.destroys = none → s.slot x = none →
      h.number = s.core.stock.lastId + 1 → s'.core.stock = s.core.stock.add h →
      s'.slot = Function.update s.slot x (some h) → Trades s d s'
  | destroy (x : Slot) (h : Handle) : d.destroys = some x → s.slot x = some h →
      s'.core.stock = s.core.stock.drop h → s'.slot = s.slot → Trades s d s'
  | hire (p c : ThreadId) : d.destroys = none → s.core.stock.pair p c = none →
      s'.core.stock = s.core.stock.hire p c → s'.slot = s.slot → Trades s d s'
  | dismiss (p c : ThreadId) (r : ObjectId × ObjectId) : d.destroys = none →
      s.core.stock.pair p c = some r → s'.core.stock = s.core.stock.dismiss p c r →
      s'.slot = s.slot → Trades s d s'
  | disown (p : ThreadId) : d.destroys = none → s'.core.stock = s.core.stock.disown p →
      s'.slot = s.slot → Trades s d s'

/-- A call that makes an object takes the next slot of its kind for it. -/
theorem execute_makes (hc : makesObject c = true) (he : execute c s = .ok a s') :
    ∃ x h, s.slot x = none ∧ h.number = s.core.stock.lastId + 1 ∧
      s'.core.stock = s.core.stock.add h ∧ s'.slot = Function.update s.slot x (some h) := by
  obtain ⟨hl, -⟩ | ⟨α, e, r, k, hp, hx, -, rfl⟩ := execute_ok he
  · cases hl with
    | misused hl => cases c <;> first | exact hl.elim | cases hc
    | _ => cases hc
  cases hp with
  | newSemaphore value =>
    obtain ⟨hid, hstock⟩ := Core.newSemaphore_stock hx
    refine ⟨.semaphore s.semaphores.size, .semaphore r, ?_, hid, hstock, funext fun x => ?_⟩
    · simp [slot]
    · cases x with
      | semaphore i => by_cases hi : i = s.semaphores.size <;> simp [slot, Array.getElem?_push, hi]
      | lock i => simp [slot]
      | condition i => simp [slot]
  | newLock =>
    obtain ⟨hid, hstock⟩ := Core.newLock_stock hx
    refine ⟨.lock s.locks.size, .lock r, ?_, hid, hstock, funext fun x => ?_⟩
    · simp [slot]
    · cases x with
      | semaphore i => simp [slot]
      | lock i => by_cases hi : i = s.locks.size <;> simp [slot, Array.getElem?_push, hi]
      | condition i => simp [slot]
  | newCondition =>
    obtain ⟨hid, hstock⟩ := Core.newCondition_stock hx
    refine ⟨.condition s.conditions.size, .condition r, ?_, hid, hstock, funext fun x => ?_⟩
    · simp [slot]
    · cases x with
      | semaphore i => simp [slot]
      | lock i => simp [slot]
      | condition i => by_cases hi : i = s.conditions.size <;> simp [slot, Array.getElem?_push, hi]
  | ask ha => cases ha <;> cases hc
  | _ => cases hc

/-- **Calls and the stock.** -/
theorem execute_trades (hs : s.Kindred) (hk : s.core.Steered .running)
    (he : execute c s = .ok a s') : Trades s (.call c a) s' := by
  obtain ⟨hK, office, hd⟩ := hs
  have A := hd.assigned
  by_cases hm : makesObject c = true
  · obtain ⟨x, h, hx, hh, hstock, hslot⟩ := execute_makes hm he
    refine .make x h ?_ hx hh hstock hslot
    cases c <;> first | rfl | cases hm
  rw [Bool.not_eq_true] at hm
  have hslot := execute_slot hm he
  by_cases hu : usesGear c = false ∧ usesKin c = false
  · refine .keep ?_ (congrArg Estate.stock (execute_estate hu.1 hu.2 he).1) hslot
    cases c with
    | destroySemaphore _ => cases hu.2
    | destroyLock _ | destroyCondition _ => cases hu.1
    | _ => rfl
  obtain ⟨hl, rfl⟩ | ⟨α, e, r', k, hp, hx, rfl, rfl⟩ := execute_ok he
  · refine .keep ?_ rfl rfl
    cases hl with
    | misused _ => cases c <;> rfl
    | _ => rfl
  have hspawn : ∀ {name priority task r k}, Core.spawn name priority task s.core = .ok r k →
      Deed.destroys (.call c (e.answer r')) = none →
        Trades s (.call c (e.answer r')) { s with core := k } := by
    intro name priority task r k hx hdeed
    rcases Core.spawn_stock hk.fresh hx with ⟨refusal, -, hstock⟩ | ⟨th, hr, -, hstock⟩
    · exact .keep hdeed hstock rfl
    · refine .hire th.id s.core.nextThread hdeed ?_ hstock rfl
      cases hp : s.core.stock.pair th.id s.core.nextThread with
      | none => rfl
      | some r =>
        obtain ⟨r, hrec, -⟩ := Core.exists_record hp
        obtain ⟨f, e, -, -, hb⟩ := A.bond hrec
        exact absurd (hK.older _ _ _ hb).2 (lt_irrefl _)
  cases hp with
  | acquire _ => exact .keep rfl (Core.lockBlind_stock.acquire _ _ _ _ hx) hslot
  | tryAcquire _ => exact .keep rfl (Core.lockBlind_stock.tryAcquire _ _ _ _ hx) hslot
  | release _ => exact .keep rfl (Core.lockBlind_stock.release _ _ _ _ hx) hslot
  | await _ _ => exact .keep rfl (Core.lockBlind_stock.await _ _ _ _ _ hx) hslot
  | signal _ _ => exact .keep rfl (Core.lockBlind_stock.signal _ _ _ _ _ hx) hslot
  | broadcast _ _ => exact .keep rfl (Core.lockBlind_stock.broadcast _ _ _ _ _ hx) hslot
  | down _ => exact .keep rfl (Core.semaphoreBlind_stock.down _ _ _ _ hx) hslot
  | tryDown _ => exact .keep rfl (Core.semaphoreBlind_stock.tryDown _ _ _ _ hx) hslot
  | up _ => exact .keep rfl (Core.semaphoreBlind_stock.up _ _ _ _ hx) hslot
  | awaitFork child => exact .keep rfl (Core.semaphoreBlind_stock.awaitFork child _ _ _ hx) hslot
  | reportFork => exact .keep rfl (Core.reportFork_stock _ _ _ hx) hslot
  | setExitStatus v => exact .keep rfl (Core.setExitStatus_stock v _ _ _ hx) hslot
  | destroySemaphore hid =>
    rcases Core.destroySemaphore_stock hx with ⟨rfl, rfl⟩ | ⟨rfl, hstock⟩
    · exact .keep rfl rfl hslot
    · exact .destroy _ _ rfl (Option.map_eq_some_iff.mpr ⟨_, hid, rfl⟩) hstock hslot
  | destroyLock hid =>
    rcases Core.destroyLock_stock hx with ⟨rfl, rfl⟩ | ⟨rfl, hstock⟩
    · exact .keep rfl rfl hslot
    · exact .destroy _ _ rfl (Option.map_eq_some_iff.mpr ⟨_, hid, rfl⟩) hstock hslot
  | destroyCondition hid =>
    rcases Core.destroyCondition_stock hx with ⟨rfl, rfl⟩ | ⟨rfl, hstock⟩
    · exact .keep rfl rfl hslot
    · exact .destroy _ _ rfl (Option.map_eq_some_iff.mpr ⟨_, hid, rfl⟩) hstock hslot
  | create _ _ | spawn _ _ _ => exact hspawn hx rfl
  | tryCollect child =>
    rcases Core.tryCollect_stock hx with hstock | ⟨p, r, hr, hstock⟩
    · exact .keep rfl hstock hslot
    · exact .dismiss p child r rfl hr hstock hslot
  | awaitExit child =>
    rcases Core.awaitExit_stock hx with hstock | ⟨p, r, hr, hstock⟩
    · exact .keep rfl hstock hslot
    · exact .dismiss p child r rfl hr hstock hslot
  | exit => exact .disown s.core.current rfl (Core.exit_stock A hx) hslot
  | newSemaphore _ | newLock | newCondition => cases hm
  | ask ha => cases ha <;> exact absurd ⟨rfl, rfl⟩ hu
  | _ => exact absurd ⟨rfl, rfl⟩ hu

/-- **Transitions and the stock.** -/
theorem Leads.trades (hs : s.Kindred) (hk : s.core.Steered .running) (hd : Leads s d s') :
    Trades s d s' := by
  cases hd with
  | call he => exact execute_trades hs hk he
  | enter he =>
    refine .keep rfl (congrArg Estate.stock (enterHandler_estate he).1) ?_
    obtain ⟨k, -, rfl⟩ := onCore_eq_ok.mp he
    exact slot_congr rfl rfl rfl
  | leave he =>
    refine .keep rfl (congrArg Estate.stock (leaveHandler_estate he).1) ?_
    obtain ⟨_, k, -, -, rfl⟩ := report_ok.mp he
    exact slot_congr rfl rfl rfl

/-- A handle stays in its slot. -/
theorem Trades.slot_eq (h : Trades s d s') {g : Handle} (hx : s.slot x = some g) :
    s'.slot x = some g := by
  cases h with
  | make y _ _ hy _ _ hslot =>
    have hne : x ≠ y := by
      rintro rfl
      exact absurd (hx.symm.trans hy) (by simp)
    rw [hslot, Function.update_of_ne hne, hx]
  | keep _ _ hslot | destroy _ _ _ _ _ hslot | hire _ _ _ _ _ hslot | dismiss _ _ _ _ _ _ hslot
  | disown _ _ _ hslot => rw [hslot, hx]

/-- A number that was given is not given to another object. -/
theorem Trades.renews (h : Trades s d s') : s.core.stock.lastId ≤ s'.core.stock.lastId ∧
    ∀ g, s'.core.stock.has g → s.core.stock.has g ∨ s.core.stock.lastId < g.number := by
  cases h with
  | keep _ hstock => exact ⟨(congrArg Stock.lastId hstock).ge, fun g hg => .inl (hstock ▸ hg)⟩
  | make x h _ _ hn hstock =>
    rw [hstock]
    refine ⟨Nat.le_succ _, fun g hg => ?_⟩
    rcases hg with rfl | hg
    · exact .inr (hn ▸ Nat.lt_succ_self _)
    · exact .inl hg
  | destroy x h _ _ hstock =>
    rw [hstock]
    exact ⟨le_rfl, fun g hg => .inl hg.1⟩
  | hire p c _ _ hstock =>
    rw [hstock]
    refine ⟨Nat.le_add_right _ 2, fun g hg => ?_⟩
    rcases hg with rfl | rfl | hg
    · exact .inr (Nat.lt_add_of_pos_right (Nat.succ_pos 1))
    · exact .inr (Nat.lt_succ_self _)
    · exact .inl hg
  | dismiss p c r _ _ hstock =>
    rw [hstock]
    exact ⟨le_rfl, fun g hg => .inl hg.1.1⟩
  | disown p _ hstock =>
    rw [hstock]
    exact ⟨le_rfl, fun g hg => .inl hg.1⟩

end Session

end ThreadCore
