import ThreadCore.Proofs.Aims
import ThreadCore.Proofs.Tenure

/-!
# Who depends on what is destroyed

A thread depends on an object if it waits there, if it holds it, or if it has to get it before it
can go on (`Core.DependsOn`). A semaphore or a condition variable is destroyed only if nobody waits
there. A lock is destroyed only if nobody holds it. Then its queue is empty too, and it is not the
lock that any thread waits for: this holds whatever a run calls, and however it unblocks
(`Core.Moored`).

But a condition variable is bound to a lock while its waiters have given the lock up. Nobody asks
for such waiters when the lock is destroyed, and then they cannot come back (`Entry.Strands`). This
is the only way in which a condition variable with waiters loses its lock
(`Session.logged_bindings`).
-/

namespace ThreadCore

namespace Core

variable {k k' m : Core} {t v holder : ThreadId} {l c i : ObjectId} {u : Unit} {r : Option ThreadId}
  {σ : ThreadState}

/-- A free lock has no waiters, whoever waits for a lock is in its queue, and a condition variable
with waiters is bound to a lock. -/
structure Moored (k : Core) : Prop where
  free : ∀ (l : ObjectId) o, k.objects.locks[l]? = some o → o.holder = none → o.waiters.entries = []
  queued : ∀ t l, k.aims t = some l → ∃ o, k.objects.locks[l]? = some o ∧ t ∈ o.waiters
  bound : ∀ (c : ObjectId) o, k.objects.conditions[c]? = some o → o.waiters.entries ≠ [] →
    o.lock ≠ none

/-- Condition variable `c` has waiters, who gave up lock `l`. -/
def Binds (k : Core) (c l : ObjectId) : Prop :=
  ∃ o, k.objects.conditions[c]? = some o ∧ o.lock = some l ∧ o.waiters.entries ≠ []

theorem Binds.congr (h : k'.objects.conditions = k.objects.conditions) (hb : k'.Binds c l) :
    k.Binds c l := by
  obtain ⟨o, ho, hl⟩ := hb
  exact ⟨o, h ▸ ho, hl⟩

/-- Thread `t` waits for the object, or it holds it, or it has to get it before it can go on. -/
def DependsOn (k : Core) (t : ThreadId) : Handle → Prop
  | .semaphore s => t ∈ k.seating.queue (.semaphore s)
  | .lock l => t ∈ k.seating.queue (.lock l) ∨ k.waits.holder l = some t ∨ k.aims t = some l ∨
      ∃ c, k.Binds c l ∧ t ∈ k.seating.queue (.condition c)
  | .condition c => t ∈ k.seating.queue (.condition c)

/-- The step keeps the moorings, and it binds waiters only to a lock that exists. -/
structure Secures (k k' : Core) : Prop where
  moored : k'.Moored
  binds : ∀ c l, k'.Binds c l → k.Binds c l ∨ l ∈ k'.objects.locks

theorem Secures.of_conditions (h : k'.Moored) (hc : k'.objects.conditions = k.objects.conditions) :
    Secures k k' :=
  ⟨h, fun _ _ hb => .inl (hb.congr hc)⟩

namespace Moored

theorem congr (h : k.Moored) (hg : k'.gear = k.gear) (he : Eases k k') : k'.Moored := by
  constructor
  · rw [gear_locks hg]
    exact h.free
  · intro t l ht
    rw [gear_locks hg]
    exact h.queued t l (he t l ht)
  · rw [gear_conditions hg]
    exact h.bound

theorem quiet (h : k.Moored) (hq : Quiet k k') : k'.Moored := h.congr hq.gear (.of_eq hq.aims)

theorem pause (h : k.Moored) (he : endTurn .blocked k = .ok u k') : k'.Moored :=
  h.congr ((keeps_endTurn (by decide)).gear _ _ _ he) (.of_eq (aims_endTurn (by decide) _ _ _ he))

/-- Lock `l` changes, and maybe who waits for it. -/
theorem setsLock {o : Lock} (h : k.Moored) (hs : SetsLock k k' l o)
    (hfree : o.holder = none → o.waiters.entries = [])
    (hself : ∀ t, k'.aims t = some l → t ∈ o.waiters)
    (hother : ∀ t i, i ≠ l → k'.aims t = some i → k.aims t = some i) : k'.Moored := by
  refine ⟨fun i x hx => ?_, fun t i ht => ?_, fun i x hx => h.bound i x (hs.conditions ▸ hx)⟩
  · rw [hs.locks] at hx
    split at hx
    · cases hx
      exact hfree
    · exact h.free i x hx
  · by_cases hi : i = l
    · subst hi
      exact ⟨o, hs.self, hself t ht⟩
    · rw [hs.locks, if_neg hi]
      exact h.queued t i (hother t i hi ht)

theorem setsCondition {o : Condition} (h : k.Moored) (hs : SetsCondition k k' c o)
    (ha : k'.aims = k.aims) (hb : o.waiters.entries ≠ [] → o.lock ≠ none) : k'.Moored := by
  refine ⟨hs.locks ▸ h.free, ?_, fun i x hx => ?_⟩
  · rw [hs.locks, ha]
    exact h.queued
  · rw [hs.conditions] at hx
    split at hx
    · cases hx
      exact hb
    · exact h.bound i x hx

/-! ## Locks -/

/-- A thread joins the queue of a lock that is held. -/
theorem waitForLock (h : k.Moored) (hl : k.waits.holder l ≠ none)
    (he : Core.waitForLock t l holder k = .ok u k') : k'.Moored := by
  obtain ⟨o, ho, hs⟩ := waitForLock_sets he
  have haims := waitForLock_aims he
  refine h.setsLock hs (fun hn => absurd ((holder_lock ho).trans hn) hl) (fun v hv => ?_)
    fun v i hi hv => ?_
  · by_cases hvt : v = t
    · exact List.mem_append_right _ (List.mem_singleton.mpr hvt)
    · rw [haims, Function.update_of_ne hvt] at hv
      obtain ⟨x, hx, hmem⟩ := h.queued v l hv
      obtain rfl := Option.some.inj (ho.symm.trans hx)
      exact List.mem_append_left _ hmem
  · by_cases hvt : v = t
    · rw [haims, hvt, Function.update_self] at hv
      exact absurd (Option.some.inj hv).symm hi
    · rwa [haims, Function.update_of_ne hvt] at hv

/-- A free lock gets a holder. -/
theorem take {o : Lock} (h : k.Moored) (ho : k.objects.locks[l]? = some o)
    (hs : SetsLock k k' l { o with holder := some t }) (ha : k'.aims = k.aims) : k'.Moored := by
  refine h.setsLock hs (fun hn => absurd hn (Option.some_ne_none _)) (fun v hv => ?_)
    fun v i _ hv => ha ▸ hv
  obtain ⟨x, hx, hmem⟩ := h.queued v l (ha ▸ hv)
  obtain rfl := Option.some.inj (ho.symm.trans hx)
  exact hmem

theorem passOn (h : k.Moored) (he : Core.passOn l holder k = .ok r k') : k'.Moored := by
  obtain ⟨o, ho, -, hs⟩ := passOn_sets he
  obtain ⟨x, hx, haims⟩ := passOn_aims he
  obtain rfl := Option.some.inj (ho.symm.trans hx)
  have hqueued : ∀ v, k.aims v = some l → v ∈ o.waiters := fun v hv => by
    obtain ⟨x, hx, hmem⟩ := h.queued v l hv
    obtain rfl := Option.some.inj (ho.symm.trans hx)
    exact hmem
  cases r with
  | none =>
    obtain ⟨hnone, haims⟩ := haims
    exact h.setsLock hs (fun _ => hnone)
      (fun v hv => hqueued v (haims ▸ hv)) fun v i _ hv => haims ▸ hv
  | some next =>
    have hold : ∀ v i, k'.aims v = some i → v ≠ next ∧ k.aims v = some i := by
      intro v i hv
      by_cases hvn : v = next
      · rw [haims, hvn, Function.update_self] at hv
        cases hv
      · rw [haims, Function.update_of_ne hvn] at hv
        exact ⟨hvn, hv⟩
    refine h.setsLock hs (fun hn => absurd hn (Option.some_ne_none _)) (fun v hv => ?_)
      fun v i _ hv => (hold v i hv).2
    obtain ⟨hne, hv⟩ := hold v l hv
    exact (List.mem_erase_of_ne hne).mpr (hqueued v hv)

theorem acquire (h : k.Moored) (he : Core.acquire l k = .ok u k') : k'.Moored := by
  unfold Core.acquire at he
  simp only [outsideHandler_bind_eq_ok, ask_bind_eq_ok] at he
  obtain ⟨-, th, -, he⟩ := he
  obtain ⟨m, m', hq, he, hq'⟩ := masked_eq_ok he
  refine quiet ?_ hq'
  simp only [ask_bind_eq_ok, lock_eq_ok_iff] at he
  obtain ⟨o, ho, he⟩ := he
  cases hh : o.holder with
  | none =>
    simp only [hh, changeLock_eq_ok] at he
    obtain ⟨-, rfl⟩ := he
    exact (h.quiet hq).take ho (setsLock_mapLock ho fun lk => { lk with holder := some th.id }) rfl
  | some holder =>
    simp only [hh, demand_bind_eq_ok] at he
    simp only [bind_eq_ok] at he
    obtain ⟨-, _, n, hn, _, n', hn', he⟩ := he
    have hheld : m.waits.holder l ≠ none := by
      rw [holder_lock ho, hh]
      simp
    exact (((h.quiet hq).waitForLock hheld hn).quiet (quiet_say hn')).pause he

theorem tryAcquire (h : k.Moored) {a : Except WouldBlock Unit}
    (he : Core.tryAcquire l k = .ok a k') : k'.Moored := by
  unfold Core.tryAcquire at he
  rw [ask_bind_eq_ok] at he
  obtain ⟨th, -, he⟩ := he
  obtain ⟨m, m', hq, he, hq'⟩ := masked_eq_ok he
  refine quiet ?_ hq'
  simp only [ask_bind_eq_ok, lock_eq_ok_iff] at he
  obtain ⟨o, ho, he⟩ := he
  cases hh : o.holder with
  | none =>
    simp only [hh, changeLock_bind_eq_ok, pure_eq_ok] at he
    obtain ⟨-, -, rfl⟩ := he
    exact (h.quiet hq).take ho (setsLock_mapLock ho fun lk => { lk with holder := some th.id }) rfl
  | some holder =>
    simp only [hh, pure_eq_ok] at he
    exact he.2 ▸ h.quiet hq

theorem release (h : k.Moored) (he : Core.release l k = .ok u k') : k'.Moored := by
  unfold Core.release at he
  rw [ask_bind_eq_ok] at he
  obtain ⟨th, -, he⟩ := he
  rw [bind_eq_ok] at he
  obtain ⟨r, n, hn, he⟩ := he
  obtain ⟨m, m', hq, hn, hq'⟩ := masked_eq_ok hn
  exact (((h.quiet hq).passOn hn).quiet hq').congr (keeps_preempt.gear _ _ _ he)
    (.of_eq (aims_preempt _ _ _ he))

/-! ## Condition variables -/

/-- A thread joins the queue of a condition variable that is bound to a lock. -/
theorem sitAndPassOn (h : k.Moored) {o : Condition} (ho : k.objects.conditions[c]? = some o)
    (hb : o.lock ≠ none)
    (he : (do
      let waiters ← ask fun k => do (← k.condition c).waiters.push t
      changeCondition c fun cond => { cond with waiters := waiters }
      let _ ← Core.passOn l t
      say (.waits t (.condition c))
      Core.endTurn .blocked : CoreM Unit) k = .ok u k') : k'.Moored := by
  simp only [ask_bind_eq_ok, except_bind_ok, condition_eq_ok_iff, changeCondition_bind_eq_ok] at he
  obtain ⟨w, -, -, he⟩ := he
  simp only [bind_eq_ok] at he
  obtain ⟨_, m, hm, _, m', hm', he⟩ := he
  have hj :=
    h.setsCondition (setsCondition_mapCondition ho fun cond => { cond with waiters := w }) rfl
    fun _ => hb
  exact ((hj.passOn hm).quiet (quiet_say hm')).pause he

theorem await (h : k.Moored) (he : Core.await c l k = .ok u k') : k'.Moored := by
  unfold Core.await at he
  simp only [outsideHandler_bind_eq_ok, bind_eq_ok (x := checkHeld _ _ _)] at he
  obtain ⟨-, _, _, hc, he⟩ := he
  obtain ⟨rfl, -⟩ := checkHeld_eq_ok hc
  simp only [ask_bind_eq_ok] at he
  obtain ⟨th, hr, he⟩ := he
  obtain ⟨m, m', hq, he, hq'⟩ := masked_eq_ok he
  refine quiet ?_ hq'
  simp only [ask_bind_eq_ok (f := fun x => _), condition_eq_ok_iff] at he
  obtain ⟨o, ho, he⟩ := he
  cases hb : o.lock with
  | some bound =>
    simp only [hb, demand_bind_eq_ok] at he
    exact (h.quiet hq).sitAndPassOn ho (by simp [hb]) he.2
  | none =>
    simp only [hb, changeCondition_bind_eq_ok] at he
    have hs := setsCondition_mapCondition ho fun cond => { cond with lock := some l }
    exact ((h.quiet hq).setsCondition hs rfl fun _ => by simp).sitAndPassOn hs.self (by simp) he.2

/-- A waiter moves over to the queue of a lock that is held. -/
theorem signalOne (h : k.Moored) (hl : k.waits.holder l ≠ none)
    (he : Core.signalOne c l k = .ok r k') :
    k'.Moored ∧ k'.waits.holder l ≠ none ∧ ∀ i j, k'.Binds i j → k.Binds i j := by
  rcases signalOne_sets he with ⟨-, rfl⟩ | ⟨_, o, m, lk, -, ho, hc, hlk, hs⟩
  · exact ⟨h, hl, fun _ _ hb => hb⟩
  refine ⟨?_, ?_, fun i j hb => ?_⟩
  · unfold Core.signalOne at he
    simp only [ask_bind_eq_ok, condition_eq_ok_iff] at he
    obtain ⟨x, hx, next, -, he⟩ := he
    cases next with
    | none => exact (pure_eq_ok.mp he).2 ▸ h
    | some t =>
      simp only [changeCondition_bind_eq_ok, get_bind_eq_ok] at he
      simp only [bind_eq_ok, pure_eq_ok] at he
      obtain ⟨-, _, m, hm, _, m', hm', -, rfl⟩ := he
      have hleft := h.setsCondition
        (setsCondition_mapCondition hx fun cond => { cond with waiters := cond.waiters.remove t })
        rfl fun hne => h.bound c x hx fun hnone => hne (by simp [hnone])
      exact (hleft.waitForLock hl hm).quiet (quiet_say hm')
  · have hkl : k.objects.locks[l]? = some lk := hc.locks ▸ hlk
    rw [holder_lock hs.self]
    rwa [holder_lock hkl] at hl
  · obtain ⟨x, hx, hj, hne⟩ := hb
    rw [hs.conditions, hc.conditions] at hx
    split at hx
    · rename_i hi
      subst hi
      cases hx
      exact ⟨o, ho, hj, fun hnone => hne (by simp [hnone])⟩
    · exact ⟨x, hx, hj, hne⟩

theorem signalMany {n count : Nat} (h : k.Moored) (hl : k.waits.holder l ≠ none)
    (he : Core.signalMany c l n k = .ok count k') :
    k'.Moored ∧ ∀ i j, k'.Binds i j → k.Binds i j := by
  induction n generalizing k count with
  | zero => exact (pure_eq_ok.mp he).2 ▸ ⟨h, fun _ _ hb => hb⟩
  | succ n ih =>
    unfold Core.signalMany at he
    rw [bind_eq_ok] at he
    obtain ⟨r, m, hm, he⟩ := he
    obtain ⟨hmoored, hlm, hb⟩ := h.signalOne hl hm
    cases r with
    | none => exact (pure_eq_ok.mp he).2 ▸ ⟨hmoored, hb⟩
    | some t =>
      simp only [bind_eq_ok, pure_eq_ok] at he
      obtain ⟨_, m', hm', -, rfl⟩ := he
      obtain ⟨hk', hb'⟩ := ih hmoored hlm hm'
      exact ⟨hk', fun i j hbind => hb i j (hb' i j hbind)⟩

end Moored

/-! ## Calls -/

namespace Secures

theorem of_gear (h : k.Moored) (hg : k'.gear = k.gear) (he : Eases k k') : Secures k k' :=
  .of_conditions (h.congr hg he) (gear_conditions hg)

theorem acquire (h : k.Moored) (he : Core.acquire l k = .ok u k') : Secures k k' := by
  obtain ⟨_, _, -, -, ⟨-, hs⟩ | ⟨-, hs⟩⟩ := acquire_sets he <;>
    exact .of_conditions (h.acquire he) hs.conditions

theorem tryAcquire (h : k.Moored) {a : Except WouldBlock Unit}
    (he : Core.tryAcquire l k = .ok a k') : Secures k k' := by
  refine .of_conditions (h.tryAcquire he) ?_
  rcases tryAcquire_sets he with hg | ⟨_, _, -, -, -, hs⟩
  · exact gear_conditions hg
  · exact hs.conditions

theorem release (h : k.Moored) (he : Core.release l k = .ok u k') : Secures k k' := by
  obtain ⟨_, _, _, -, -, -, hs⟩ := release_sets he
  exact .of_conditions (h.release he) hs.conditions

/-- The lock that a waiter gives up exists. -/
theorem await (h : k.Moored) (he : Core.await c l k = .ok u k') : Secures k k' := by
  refine ⟨h.await he, fun i j hb => ?_⟩
  obtain ⟨_, _, m, lk, _, -, -, -, hc, -, -, hs⟩ := await_sets he
  obtain ⟨o, ho, hj, hne⟩ := hb
  rw [hs.conditions, hc.conditions] at ho
  split at ho
  · cases ho
    cases hj
    exact .inr (Std.ExtTreeMap.mem_iff_isSome_getElem?.mpr (by rw [hs.self]; rfl))
  · exact .inl ⟨o, ho, hj, hne⟩

theorem signal {b : Bool} (h : k.Moored) (he : Core.signal c l k = .ok b k') : Secures k k' := by
  unfold Core.signal at he
  simp only [bind_eq_ok, pure_eq_ok] at he
  obtain ⟨_, _, hc, r, n, hn, -, rfl⟩ := he
  obtain ⟨rfl, th, -, hl⟩ := checkHeld_eq_ok hc
  obtain ⟨m, m', hq, hn, hq'⟩ := masked_eq_ok hn
  have hlm : m.waits.holder l ≠ none := by rw [hq.waits, hl]; simp
  obtain ⟨hm', -, hb⟩ := (h.quiet hq).signalOne hlm hn
  exact ⟨hm'.quiet hq', fun i j hbind => .inl <|
    (hb i j (hbind.congr (gear_conditions hq'.gear))).congr (gear_conditions hq.gear)⟩

theorem broadcast {n : Nat} (h : k.Moored) (he : Core.broadcast c l k = .ok n k') :
    Secures k k' := by
  unfold Core.broadcast at he
  rw [bind_eq_ok] at he
  obtain ⟨_, _, hc, he⟩ := he
  obtain ⟨rfl, th, -, hl⟩ := checkHeld_eq_ok hc
  obtain ⟨m, m', hq, he, hq'⟩ := masked_eq_ok he
  rw [ask_bind_eq_ok] at he
  obtain ⟨o, -, he⟩ := he
  have hlm : m.waits.holder l ≠ none := by rw [hq.waits, hl]; simp
  obtain ⟨hm', hb⟩ := (h.quiet hq).signalMany hlm he
  exact ⟨hm'.quiet hq', fun i j hbind => .inl <|
    (hb i j (hbind.congr (gear_conditions hq'.gear))).congr (gear_conditions hq.gear)⟩

/-- A new lock has a number that no lock has yet. -/
theorem newLock (h : k.Moored) (hfresh : ∀ l ∈ k.objects.locks, l ≤ k.objects.lastId)
    (he : Core.newLock k = .ok l k') : Secures k k' := by
  obtain ⟨rfl, rfl⟩ := newLock_eq_ok he
  refine .of_conditions ⟨fun i o ho _ => ?_, fun t i ht => ?_, h.bound⟩ rfl
  · rw [Std.ExtTreeMap.getElem?_insert] at ho
    split at ho
    · cases ho
      rfl
    · exact h.free i o ho ‹_›
  · obtain ⟨o, ho, hmem⟩ := h.queued t i ht
    have hi : i ≤ k.objects.lastId :=
      hfresh i (Std.ExtTreeMap.mem_iff_isSome_getElem?.mpr (by rw [ho]; rfl))
    refine ⟨o, ?_, hmem⟩
    rw [Std.ExtTreeMap.getElem?_insert, if_neg]
    · exact ho
    · rw [compare_eq_iff_eq]
      exact (Nat.lt_succ_of_le hi).ne'

theorem newCondition (h : k.Moored) (he : Core.newCondition k = .ok c k') : Secures k k' := by
  obtain ⟨rfl, rfl⟩ := newCondition_eq_ok he
  refine ⟨⟨h.free, h.queued, fun i o ho hne => ?_⟩, fun i j ⟨o, ho, hj, hne⟩ => ?_⟩ <;>
    rw [Std.ExtTreeMap.getElem?_insert] at ho <;> split at ho
  · cases ho
    exact absurd rfl hne
  · exact h.bound i o ho hne
  · cases ho
    cases hj
  · exact .inl ⟨o, ho, hj, hne⟩

/-- Nobody waits for a lock that is destroyed. -/
theorem destroyLock {a : Except Refusal Unit} (h : k.Moored)
    (he : Core.destroyLock l k = .ok a k') : Secures k k' := by
  unfold Core.destroyLock at he
  simp only [ask_bind_eq_ok, lock_eq_ok_iff] at he
  obtain ⟨o, ho, he⟩ := he
  cases hh : o.holder with
  | some t =>
    simp only [hh] at he
    exact (pure_eq_ok.mp he).2 ▸ .of_conditions h rfl
  | none =>
    simp only [hh, modify_bind_eq_ok, pure_eq_ok] at he
    obtain ⟨-, rfl⟩ := he
    refine .of_conditions ⟨fun i x hx => ?_, fun t i ht => ?_, h.bound⟩ rfl
    · rw [Std.ExtTreeMap.getElem?_erase] at hx
      split at hx
      · cases hx
      · exact h.free i x hx
    · obtain ⟨x, hx, hmem⟩ := h.queued t i ht
      refine ⟨x, ?_, hmem⟩
      rw [Std.ExtTreeMap.getElem?_erase, if_neg]
      · exact hx
      · rw [compare_eq_iff_eq]
        rintro rfl
        obtain rfl := Option.some.inj (ho.symm.trans hx)
        rw [Queue.mem_def, h.free _ _ ho hh] at hmem
        cases hmem

theorem destroyCondition {a : Except Refusal Unit} (h : k.Moored)
    (he : Core.destroyCondition c k = .ok a k') : Secures k k' := by
  unfold Core.destroyCondition at he
  simp only [ask_bind_eq_ok] at he
  obtain ⟨o, -, he⟩ := he
  split at he
  · simp only [modify_bind_eq_ok, pure_eq_ok] at he
    obtain ⟨-, rfl⟩ := he
    have hold : ∀ (i : ObjectId) x, (k.objects.conditions.erase c)[i]? = some x →
        k.objects.conditions[i]? = some x := by
      intro i x hx
      rw [Std.ExtTreeMap.getElem?_erase] at hx
      split at hx
      · cases hx
      · exact hx
    exact ⟨⟨h.free, h.queued, fun i x hx => h.bound i x (hold i x hx)⟩,
      fun i j ⟨x, hx, hb⟩ => .inl ⟨x, hold i x hx, hb⟩⟩
  · exact (pure_eq_ok.mp he).2 ▸ .of_conditions h rfl

end Secures

end Core

namespace Session

open ThreadCore.Core (Secures)

variable {s s' : Session} {c : Call} {a : Answer} {d : Deed}

/-- **Calls.** Every call keeps the moorings. -/
theorem execute_secures (hk : s.core.Steered .running)
    (hfresh : ∀ l ∈ s.core.objects.locks, l ≤ s.core.objects.lastId) (hm : s.core.Moored)
    (h : execute c s = .ok a s') : Secures s.core s'.core := by
  by_cases hg : usesGear c = true
  swap
  · rw [Bool.not_eq_true] at hg
    exact .of_gear hm (execute_gear hg h) (execute_eases hk hg h)
  obtain hsame | ⟨α, e, r, hp, hx⟩ := execute_core h
  · exact .of_conditions (hsame.symm ▸ hm) (by rw [hsame])
  cases hp with
  | newLock => exact .newLock hm hfresh hx
  | newCondition => exact .newCondition hm hx
  | acquire _ => exact .acquire hm hx
  | tryAcquire _ => exact .tryAcquire hm hx
  | release _ => exact .release hm hx
  | destroyLock _ => exact .destroyLock hm hx
  | await _ _ => exact .await hm hx
  | signal _ _ => exact .signal hm hx
  | broadcast _ _ => exact .broadcast hm hx
  | destroyCondition _ => exact .destroyCondition hm hx
  | ask ha => cases ha <;> cases hg
  | _ => cases hg

theorem leads_secures (hk : s.core.Steered .running)
    (hfresh : ∀ l ∈ s.core.objects.locks, l ≤ s.core.objects.lastId) (hm : s.core.Moored)
    (h : Leads s d s') : Secures s.core s'.core := by
  cases h with
  | call h => exact execute_secures hk hfresh hm h
  | enter h =>
    have hg := congrArg Estate.gear (enterHandler_estate h).1
    obtain ⟨k, hx, rfl⟩ := onCore_eq_ok.mp h
    exact .of_gear hm hg (.of_eq (Core.aims_enterHandler _ _ _ hx))
  | leave h =>
    have hg := congrArg Estate.gear (leaveHandler_estate h).1
    obtain ⟨_, k, hx, -, rfl⟩ := report_ok.mp h
    exact .of_gear hm hg (.of_eq (Core.aims_leaveHandler _ _ _ _ hx))

end Session

namespace Core

variable {k k' : Core} {t : ThreadId} {s l c : ObjectId}

/-! ## What is destroyed -/

theorem destroySemaphore_spares (h : destroySemaphore s k = .ok (.ok ()) k') :
    ¬ k.DependsOn t (.semaphore s) ∧ ¬ k'.DependsOn t (.semaphore s) := by
  unfold destroySemaphore dropSemaphore at h
  simp only [ask_bind_eq_ok, semaphore_eq_ok_iff] at h
  obtain ⟨o, ho, h⟩ := h
  split at h
  · rename_i hempty
    simp only [modify_bind_eq_ok, pure_eq_ok] at h
    obtain ⟨-, rfl⟩ := h
    constructor
    · rw [DependsOn, queue_semaphore ho, List.isEmpty_iff.mp hempty]
      exact List.not_mem_nil
    · simp [DependsOn, seating]
  · cases (pure_eq_ok.mp h).1

theorem destroyCondition_spares (h : destroyCondition c k = .ok (.ok ()) k') :
    ¬ k.DependsOn t (.condition c) ∧ ¬ k'.DependsOn t (.condition c) := by
  unfold destroyCondition at h
  simp only [ask_bind_eq_ok, condition_eq_ok_iff] at h
  obtain ⟨o, ho, h⟩ := h
  split at h
  · rename_i hempty
    simp only [modify_bind_eq_ok, pure_eq_ok] at h
    obtain ⟨-, rfl⟩ := h
    constructor
    · rw [DependsOn, queue_condition ho, List.isEmpty_iff.mp hempty]
      exact List.not_mem_nil
    · simp [DependsOn, seating]
  · cases (pure_eq_ok.mp h).1

/-- Whoever depends on a lock that is destroyed waits on a condition variable that is bound to
it. -/
theorem Moored.destroyLock_strands (hk : k.Moored) (h : destroyLock l k = .ok (.ok ()) k')
    (hd : k.DependsOn t (.lock l) ∨ k'.DependsOn t (.lock l)) :
    ∃ c, k.Binds c l ∧ t ∈ k.seating.queue (.condition c) := by
  unfold destroyLock at h
  simp only [ask_bind_eq_ok, lock_eq_ok_iff] at h
  obtain ⟨o, ho, h⟩ := h
  cases hh : o.holder with
  | some v =>
    simp only [hh] at h
    cases (pure_eq_ok.mp h).1
  | none =>
    simp only [hh, modify_bind_eq_ok, pure_eq_ok] at h
    obtain ⟨-, rfl⟩ := h
    have hnone := hk.free l o ho hh
    have haims : k.aims t ≠ some l := fun ht => by
      obtain ⟨x, hx, hmem⟩ := hk.queued t l ht
      obtain rfl := Option.some.inj (ho.symm.trans hx)
      rw [Queue.mem_def, hnone] at hmem
      cases hmem
    rcases hd with (hq | hq | hq | hc) | (hq | hq | hq | hc)
    · rw [queue_lock ho, hnone] at hq
      cases hq
    · rw [holder_lock ho, hh] at hq
      cases hq
    · exact absurd hq haims
    · exact hc
    · simp [seating] at hq
    · simp [waits] at hq
    · exact absurd hq haims
    · exact hc

end Core

/-- The transition destroys lock `l` while condition variable `c` has waiters who gave it up. -/
def Entry.Strands (e : Entry) (l c : ObjectId) : Prop :=
  ∃ x, e.deed.destroys = some x ∧ e.before.slot x = some (.lock l) ∧ e.before.core.Binds c l

namespace Session

variable {s s' : Session} {d : Deed} {x : Slot} {g : Handle} {t : ThreadId} {l c : ObjectId}
  {e : Entry} {log : List Entry} {frames : List Bool} {allowed : List Entry → Session → Call → Prop}

/-- Whoever depends on what is destroyed is stranded. -/
theorem leads_strands (hm : s.core.Moored) (h : Leads s d s') (hd : d.destroys = some x)
    (hx : s.slot x = some g) (ht : s.core.DependsOn t g ∨ s'.core.DependsOn t g) :
    ∃ l c, g = .lock l ∧ s.core.Binds c l ∧ t ∈ s.core.seating.queue (.condition c) := by
  unfold Deed.destroys at hd
  split at hd <;> cases hd <;> obtain ⟨id, hid, rfl⟩ := Option.map_eq_some_iff.mp hx <;> cases h <;>
    rename_i h <;> rcases resolve_eq_ok.mp h with ⟨-, ha, -⟩ | ⟨id', hid', h⟩ <;> try cases ha
  all_goals
    obtain rfl := Option.some.inj (hid.symm.trans hid')
    obtain ⟨r, k, hk, ha, rfl⟩ := report_ok.mp h
    cases r with
    | error => cases ha
    | ok => ?_
  · exact absurd ht (not_or.mpr (Core.destroySemaphore_spares hk))
  · obtain ⟨c, hc⟩ := hm.destroyLock_strands hk ht
    exact ⟨id, c, rfl, hc⟩
  · exact absurd ht (not_or.mpr (Core.destroyCondition_spares hk))

/-! ## Runs -/

theorem Logged.lock_le (h : Logged allowed log frames s) :
    ∀ l ∈ s.core.objects.locks, l ≤ s.core.objects.lastId :=
  fun l hl => h.object_le (h := .lock l) hl

theorem Logged.moored (h : Logged allowed log frames s) : s.core.Moored := by
  refine h.invariant (P := fun _ s => s.core.Moored) (fun setup config k _ hk => ?_)
    fun _ _ _ _ _ hs ih hd _ => (leads_secures hs.steered hs.lock_le ih hd).moored
  have hobjects : k.objects = .empty := (Core.boot_ties rfl rfl hk).1
  have hwaits := (reached_boot hk).1.waits.wired
  refine ⟨fun l o ho => ?_, fun t l ht => ?_, fun c o ho => ?_⟩
  · simp [ofCore, hobjects, Objects.empty] at ho
  · have hmem := (hwaits.waitsFor_iff t l).mp ht
    simp [Core.waits, hobjects, Objects.empty] at hmem
  · simp [ofCore, hobjects, Objects.empty] at ho

/-- The slot of an object that was destroyed is not given to another one. -/
theorem Logged.slot_of_destroys (h : Logged allowed log frames s) :
    ∀ e ∈ log, ∀ x g, e.deed.destroys = some x → e.before.slot x = some g → s.slot x = some g := by
  refine h.invariant (P := fun log s => ∀ e ∈ log, ∀ x g, e.deed.destroys = some x →
    e.before.slot x = some g → s.slot x = some g)
    (fun _ _ _ _ _ _ he => absurd he List.not_mem_nil) ?_
  intro log frames s d s' hs ih hd _ e he x g hdx hx
  have htrades := hd.trades hs.kindred hs.steered
  rcases List.mem_cons.mp he with rfl | he
  · exact htrades.slot_eq hx
  · exact htrades.slot_eq (ih e he x g hdx hx)

/-- A lock that goes away was destroyed by its slot. -/
theorem Logged.destroys_lock (h : Logged allowed log frames s) (hd : Leads s d s')
    (hl : l ∈ s.core.objects.locks) (hl' : l ∉ s'.core.objects.locks) :
    ∃ x, d.destroys = some x ∧ s.slot x = some (.lock l) := by
  obtain ⟨o, ho, -⟩ := (h.tenured.has_iff (.lock l)).mp hl
  cases o with
  | slot x =>
    refine ⟨x, ?_, ho⟩
    by_contra hne
    exact hl' (h.stays hd ho hl hne).2
  | fork p c =>
    obtain ⟨_, -, he⟩ := Option.map_eq_some_iff.mp ho
    cases he
  | exit p c =>
    obtain ⟨_, -, he⟩ := Option.map_eq_some_iff.mp ho
    cases he

/-- Waiters whose lock does not exist any more were stranded when it was destroyed. -/
theorem Logged.stranded (h : Logged allowed log frames s) (hb : s.core.Binds c l)
    (hl : l ∉ s.core.objects.locks) : ∃ e ∈ log, e.Strands l c := by
  refine h.invariant (P := fun log s => s.core.Binds c l → l ∉ s.core.objects.locks →
    ∃ e ∈ log, e.Strands l c) (fun _ _ k _ hk hb => ?_) ?_ hb hl
  · have hobjects : k.objects = .empty := (Core.boot_ties rfl rfl hk).1
    obtain ⟨o, ho, -⟩ := hb
    simp [ofCore, hobjects, Objects.empty] at ho
  intro log frames s d s' hs ih hd _ hb hl
  have hold := ((leads_secures hs.steered hs.lock_le hs.moored hd).binds c l hb).resolve_right hl
  by_cases hmem : l ∈ s.core.objects.locks
  · obtain ⟨x, hdx, hx⟩ := hs.destroys_lock hd hmem hl
    exact ⟨_, List.mem_cons_self, x, hdx, hx, hold⟩
  · obtain ⟨e, he, hstrands⟩ := ih hold hmem
    exact ⟨e, List.mem_cons_of_mem _ he, hstrands⟩

/-- **What a destroyed object leaves behind.** Whatever a run calls, and however it unblocks: nobody
depends on an object that is destroyed, apart from those who wait on a condition variable and gave
up the lock that is destroyed. And every condition variable with waiters is bound to a lock, which
exists unless the waiters were stranded in this way. -/
theorem logged_bindings (h : Logged allowed log frames s) :
    (∀ e ∈ log, ∀ x g t, e.deed.destroys = some x → e.before.slot x = some g →
      e.before.core.DependsOn t g ∨ e.after.core.DependsOn t g →
        ∃ l c, g = .lock l ∧ e.Strands l c ∧ t ∈ e.before.core.seating.queue (.condition c)) ∧
    ∀ (c : ObjectId) o, s.core.objects.conditions[c]? = some o → o.waiters.entries ≠ [] →
      ∃ l, o.lock = some l ∧ (l ∈ s.core.objects.locks ↔ ¬ ∃ e ∈ log, e.Strands l c) := by
  refine ⟨fun e he x g t hd hx ht => ?_, fun c o ho hne => ?_⟩
  · obtain ⟨later, earlier, rfl⟩ := List.append_of_mem he
    obtain ⟨_, _, hbefore, hleads, -⟩ := h.of_append
    obtain ⟨l, c, rfl, hb, hmem⟩ := leads_strands hbefore.moored hleads hd hx ht
    exact ⟨l, c, rfl, ⟨x, hd, hx, hb⟩, hmem⟩
  · obtain ⟨l, hl⟩ := Option.ne_none_iff_exists'.mp (h.moored.bound c o ho hne)
    refine ⟨l, hl, fun hmem => ?_, fun hnot => ?_⟩
    · rintro ⟨e, he, x, hdx, hx, -⟩
      have hslot := h.slot_of_destroys e he x _ hdx hx
      exact (h.tenured.has_slot_iff hslot).mp hmem ⟨e, he, hdx⟩
    · by_contra hmem
      exact hnot (h.stranded ⟨o, ho, hl, hne⟩ hmem)

/-- Another lock and a semaphore are destroyed while a thread waits on a condition variable: its
lock stays. -/
theorem logged_bindings_apart : ∃ log s, Logged (fun _ => Considerate) log [] s ∧
    Destroyed log (.lock 1) ∧ Destroyed log (.semaphore 0) ∧
    s.core.seating.queue (.condition 4) = [3] ∧ s.core.Binds 4 1 ∧ 1 ∈ s.core.objects.locks ∧
    ¬ ∃ e ∈ log, e.Strands 1 4 := by
  have hrun : (replayFrom (fun _ => isPlain) ⟨none, none, none, false, none⟩
      [.newLock, .newLock, .newSemaphore 0, .newCondition, .create "waits" 40, .acquire 0,
        .await 0 0, .destroyLock 1, .destroySemaphore 0]).any (fun r =>
        Destroyed r.1 (.lock 1) ∧ Destroyed r.1 (.semaphore 0) ∧
        (r.2.core.objects.conditions[(4 : ObjectId)]?).any (fun o =>
          o.waiters.entries = [3] ∧ o.lock = some 1) = true ∧
        1 ∈ r.2.core.objects.locks) = true := by
    decide +kernel
  obtain ⟨⟨log, s⟩, hs, hrun⟩ := (Option.any_eq_true _ _).mp hrun
  obtain ⟨hlock, hsemaphore, hwaits, hmem⟩ := of_decide_eq_true hrun
  obtain ⟨o, ho, hwaits⟩ := (Option.any_eq_true _ _).mp hwaits
  obtain ⟨hqueue, hbound⟩ := of_decide_eq_true hwaits
  have hne : o.waiters.entries ≠ [] := by simp [hqueue]
  obtain ⟨l, hl, hiff⟩ := (logged_bindings (logged_plain hs)).2 4 o ho hne
  obtain rfl := Option.some.inj (hbound.symm.trans hl)
  exact ⟨log, s, logged_plain hs, hlock, hsemaphore, (Core.queue_condition ho).trans hqueue,
    ⟨o, ho, hbound, hne⟩, hmem, hiff.mp hmem⟩

/-- The lock that a waiter gave up is free, so it is destroyed. The waiter is bound to a lock that
does not exist any more. -/
theorem destroyed_lock_strands : ∃ log before after, Logged (fun _ => Considerate) log [] before ∧
    before.locks[0]? = some 1 ∧ execute (.destroyLock 0) before = .ok (.done .nothing) after ∧
    3 ∈ after.core.threads ∧ after.core.DependsOn 3 (.lock 1) ∧ after.core.Binds 2 1 ∧
    1 ∉ after.core.objects.locks := by
  have hrun : (replayFrom (fun _ => isPlain) ⟨none, none, none, false, none⟩
      [.newLock, .newCondition, .create "waits" 40, .acquire 0, .await 0 0]).any (fun r =>
        decide (r.2.locks[0]? = some 1) &&
          succeeds (fun a s' => a = .done .nothing ∧ 3 ∈ s'.core.threads ∧
            (s'.core.objects.conditions[(2 : ObjectId)]?).any (fun o =>
              o.waiters.entries = [3] ∧ o.lock = some 1) = true ∧
            1 ∉ s'.core.objects.locks) (execute (.destroyLock 0) r.2)) = true := by
    decide +kernel
  obtain ⟨⟨log, s⟩, hs, hrun⟩ := (Option.any_eq_true _ _).mp hrun
  obtain ⟨hhandle, hrun⟩ := Bool.and_eq_true_iff.mp hrun
  obtain ⟨a, s', he, hrun⟩ := exists_of_succeeds hrun
  obtain ⟨rfl, hlive, hwaits, hgone⟩ := of_decide_eq_true hrun
  obtain ⟨o, ho, hwaits⟩ := (Option.any_eq_true _ _).mp hwaits
  obtain ⟨hqueue, hbound⟩ := of_decide_eq_true hwaits
  have hb : s'.core.Binds 2 1 := ⟨o, ho, hbound, by simp [hqueue]⟩
  refine ⟨log, s, s', logged_plain hs, of_decide_eq_true hhandle, he, hlive, ?_, hb, hgone⟩
  refine .inr (.inr (.inr ⟨2, hb, ?_⟩))
  rw [Core.queue_condition ho, hqueue]
  exact List.mem_cons_self

end Session

end ThreadCore
