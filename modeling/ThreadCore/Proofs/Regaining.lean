import ThreadCore.Proofs.Frames

/-!
# The way back from a wait

A thread that waits on a condition variable has given up a lock and wants it back. Until its wait is
over it is in the queue of the condition variable, which is bound to the lock, or in the queue of
the lock, or it holds the lock again (`Core.Returning`). No call of another thread leads it off this
way, as long as signals and broadcasts name the lock that the condition variable is bound to
(`Faithful`): so it goes on as the holder of the lock it gave up (`logged_regains`).

A signal checks that the caller holds the lock it names, but not that this is the lock the condition
variable is bound to. With another lock the waiter is sent to the wrong queue
(`unfaithful_strays`).
-/

namespace ThreadCore

/-- The lock after it was taken from its holder and given to another thread, if there is one. -/
def Lock.passedTo (o : Lock) : Option ThreadId → Lock
  | none => { o with holder := none }
  | some t => ⟨some t, o.waiters.remove t⟩

namespace Core

variable {k k' m : Core} {g : Stage} {t v : ThreadId} {l c i : ObjectId} {u : Unit}

/-! ## Changes of a lock and of a condition variable -/

/-- Lock `l` is `o`, and the other locks and the condition variables are as before. -/
structure SetsLock (k k' : Core) (l : ObjectId) (o : Lock) : Prop where
  locks : ∀ i : ObjectId, k'.objects.locks[i]? = if i = l then some o else k.objects.locks[i]?
  conditions : k'.objects.conditions = k.objects.conditions

/-- Condition variable `c` is `o`, and the others and the locks are as before. -/
structure SetsCondition (k k' : Core) (c : ObjectId) (o : Condition) : Prop where
  conditions : ∀ i : ObjectId, k'.objects.conditions[i]? =
    if i = c then some o else k.objects.conditions[i]?
  locks : k'.objects.locks = k.objects.locks

theorem gear_locks (h : k'.gear = k.gear) : k'.objects.locks = k.objects.locks :=
  congrArg Gear.locks h

theorem gear_conditions (h : k'.gear = k.gear) : k'.objects.conditions = k.objects.conditions :=
  congrArg Gear.conditions h

theorem Quiet.gear (h : Quiet k k') : k'.gear = k.gear := congrArg Estate.gear h.estate

theorem SetsLock.gear_right {o : Lock} (h : SetsLock k m l o) (hg : k'.gear = m.gear) :
    SetsLock k k' l o :=
  ⟨fun i => by rw [gear_locks hg, h.locks], (gear_conditions hg).trans h.conditions⟩

theorem SetsLock.gear_left {o : Lock} (h : SetsLock m k' l o) (hg : m.gear = k.gear) :
    SetsLock k k' l o :=
  ⟨fun i => by rw [h.locks, gear_locks hg], h.conditions.trans (gear_conditions hg)⟩

theorem SetsLock.trans {o o' : Lock} (h : SetsLock k m l o) (h' : SetsLock m k' l o') :
    SetsLock k k' l o' := by
  refine ⟨fun i => ?_, h'.conditions.trans h.conditions⟩
  rw [h'.locks, h.locks]
  split <;> rfl

theorem SetsLock.self {o : Lock} (h : SetsLock k k' l o) : k'.objects.locks[l]? = some o := by
  rw [h.locks, if_pos rfl]

theorem SetsCondition.gear_left {o : Condition} (h : SetsCondition m k' c o)
    (hg : m.gear = k.gear) : SetsCondition k k' c o :=
  ⟨fun i => by rw [h.conditions, gear_conditions hg], h.locks.trans (gear_locks hg)⟩

theorem SetsCondition.trans {o o' : Condition} (h : SetsCondition k m c o)
    (h' : SetsCondition m k' c o') : SetsCondition k k' c o' := by
  refine ⟨fun i => ?_, h'.locks.trans h.locks⟩
  rw [h'.conditions, h.conditions]
  split <;> rfl

theorem SetsCondition.self {o : Condition} (h : SetsCondition k k' c o) :
    k'.objects.conditions[c]? = some o := by
  rw [h.conditions, if_pos rfl]

theorem setsLock_mapLock {o : Lock} (ho : k.objects.locks[l]? = some o) (f : Lock → Lock) :
    SetsLock k (k.mapLock l f) l (f o) :=
  ⟨fun i => by rw [getElem?_mapLock, ho]; rfl, rfl⟩

theorem setsCondition_mapCondition {o : Condition} (ho : k.objects.conditions[c]? = some o)
    (f : Condition → Condition) : SetsCondition k (k.mapCondition c f) c (f o) :=
  ⟨fun i => by rw [getElem?_mapCondition, ho]; rfl, rfl⟩

/-! ## What the lock operations do to the lock -/

theorem waitForLock_sets {holder : ThreadId} (h : waitForLock t l holder k = .ok u k') :
    ∃ o, k.objects.locks[l]? = some o ∧
      SetsLock k k' l { o with waiters := ⟨o.waiters.entries ++ [t]⟩ } := by
  unfold waitForLock at h
  simp only [ask_bind_eq_ok, except_bind_ok, lock_eq_ok_iff, Queue.push_eq_ok_iff,
    changeLock_bind_eq_ok, changeThread_bind_eq_ok] at h
  obtain ⟨⟨q⟩, ⟨o, ho, -, rfl⟩, -, -, h⟩ := h
  have hg := Keeps.gear ((keeps_addDonor holder t).bind fun _ => keeps_donate t) _ _ _ h
  exact ⟨o, ho, (setsLock_mapLock ho fun lk =>
    { lk with waiters := ⟨o.waiters.entries ++ [t]⟩ }).gear_right hg⟩

theorem acquire_sets (h : acquire l k = .ok u k') :
    ∃ th o, k.running = .ok th ∧ k.objects.locks[l]? = some o ∧
      ((o.holder = none ∧ SetsLock k k' l { o with holder := some th.id }) ∨
        (o.holder ≠ none ∧
          SetsLock k k' l { o with waiters := ⟨o.waiters.entries ++ [th.id]⟩ })) := by
  unfold acquire at h
  simp only [outsideHandler_bind_eq_ok, ask_bind_eq_ok] at h
  obtain ⟨-, th, hr, h⟩ := h
  obtain ⟨m, m', hq, h, hq'⟩ := masked_eq_ok h
  simp only [ask_bind_eq_ok, lock_eq_ok_iff] at h
  obtain ⟨o, ho, h⟩ := h
  refine ⟨th, o, hr, by rwa [← hq.objects], ?_⟩
  cases hh : o.holder with
  | none =>
    simp only [hh, changeLock_eq_ok] at h
    obtain ⟨-, rfl⟩ := h
    have hs := setsLock_mapLock ho fun lk => { lk with holder := some th.id }
    exact .inl ⟨rfl, (hs.gear_left hq.gear).gear_right hq'.gear⟩
  | some holder =>
    simp only [hh, demand_bind_eq_ok] at h
    simp only [bind_eq_ok] at h
    obtain ⟨-, _, n, hn, _, n', hn', h⟩ := h
    obtain ⟨o', ho', hs⟩ := waitForLock_sets hn
    obtain rfl : o = o' := Option.some.inj (ho.symm.trans ho')
    rw [← hh]
    refine .inr ⟨by simp [hh], (hs.gear_left hq.gear).gear_right ?_⟩
    rw [hq'.gear, (keeps_endTurn (by decide)).gear _ _ _ h, (keeps_say _).gear _ _ _ hn']

theorem tryAcquire_sets {a : Except WouldBlock Unit} (h : tryAcquire l k = .ok a k') :
    k'.gear = k.gear ∨ ∃ th o, k.running = .ok th ∧ k.objects.locks[l]? = some o ∧
      o.holder = none ∧ SetsLock k k' l { o with holder := some th.id } := by
  unfold tryAcquire at h
  rw [ask_bind_eq_ok] at h
  obtain ⟨th, hr, h⟩ := h
  obtain ⟨m, m', hq, h, hq'⟩ := masked_eq_ok h
  simp only [ask_bind_eq_ok, lock_eq_ok_iff] at h
  obtain ⟨o, ho, h⟩ := h
  cases hh : o.holder with
  | none =>
    simp only [hh, changeLock_bind_eq_ok, pure_eq_ok] at h
    obtain ⟨-, -, rfl⟩ := h
    have hs := setsLock_mapLock ho fun lk => { lk with holder := some th.id }
    exact .inr ⟨th, o, hr, by rwa [← hq.objects], hh, (hs.gear_left hq.gear).gear_right hq'.gear⟩
  | some holder =>
    simp only [hh, pure_eq_ok] at h
    obtain ⟨-, rfl⟩ := h
    exact .inl (hq'.gear.trans hq.gear)

theorem passOn_sets {r : Option ThreadId} (h : passOn l t k = .ok r k') :
    ∃ o, k.objects.locks[l]? = some o ∧ o.holder = some t ∧ SetsLock k k' l (o.passedTo r) := by
  unfold passOn at h
  simp only [ask_bind_eq_ok, lock_eq_ok_iff, demand_bind_eq_ok, changeLock_bind_eq_ok,
    changeThread_bind_eq_ok] at h
  obtain ⟨o, ho, hh, -, -, h⟩ := h
  rw [bind_eq_ok] at h
  obtain ⟨p, m, hm, h⟩ := h
  refine ⟨o, ho, hh, ?_⟩
  have hg := (keeps_refreshPriority t).gear _ _ _ hm
  have hs : SetsLock k m l { o with holder := none } :=
    (setsLock_mapLock ho fun lk => { lk with holder := none }).gear_right hg
  rw [ask_bind_eq_ok] at h
  obtain ⟨next, -, h⟩ := h
  cases next with
  | none =>
    simp only [pure_eq_ok] at h
    obtain ⟨rfl, rfl⟩ := h
    exact hs
  | some next =>
    simp only [changeLock_bind_eq_ok, changeThread_bind_eq_ok] at h
    simp only [bind_eq_ok, pure_eq_ok] at h
    obtain ⟨-, -, _, m₁, h₁, _, m₂, h₂, _, m₃, h₃, _, m₄, h₄, rfl, rfl⟩ := h
    refine (hs.trans (setsLock_mapLock hs.self fun lk =>
      { lk with holder := some next, waiters := lk.waiters.remove next })).gear_right ?_
    rw [(keeps_say _).gear _ _ _ h₄, (keeps_unblock _).gear _ _ _ h₃,
      (keeps_refreshPriority _).gear _ _ _ h₂,
      keeps_forM (fun _ => (keeps_addDonor _ _).gear) _ _ _ _ h₁]
    rfl

theorem release_sets (h : release l k = .ok u k') :
    ∃ th o r, k.running = .ok th ∧ k.objects.locks[l]? = some o ∧ o.holder = some th.id ∧
      SetsLock k k' l (o.passedTo r) := by
  unfold release at h
  rw [ask_bind_eq_ok] at h
  obtain ⟨th, hr, h⟩ := h
  rw [bind_eq_ok] at h
  obtain ⟨r, n, hn, h⟩ := h
  obtain ⟨m, m', hq, hn, hq'⟩ := masked_eq_ok hn
  obtain ⟨o, ho, hh, hs⟩ := passOn_sets hn
  refine ⟨th, o, r, hr, by rwa [← hq.objects], hh, (hs.gear_left hq.gear).gear_right ?_⟩
  rw [keeps_preempt.gear _ _ _ h, hq'.gear]

/-- The second part of a wait: the thread joins the queue of the condition variable, passes the lock
on and ends its turn. -/
theorem sitAndPassOn_sets {o : Condition} (ho : k.objects.conditions[c]? = some o)
    (h : (do
      let waiters ← ask fun k => do (← k.condition c).waiters.push t
      changeCondition c fun cond => { cond with waiters := waiters }
      let _ ← passOn l t
      say (.waits t (.condition c))
      endTurn .blocked : CoreM Unit) k = .ok u k') :
    ∃ m lk r, SetsCondition k m c { o with waiters := ⟨o.waiters.entries ++ [t]⟩ } ∧
      m.objects.locks[l]? = some lk ∧ lk.holder = some t ∧ SetsLock m k' l (lk.passedTo r) := by
  simp only [ask_bind_eq_ok, except_bind_ok, condition_eq_ok_iff, Queue.push_eq_ok_iff,
    changeCondition_bind_eq_ok] at h
  obtain ⟨⟨w⟩, ⟨o', ho', -, rfl⟩, -, h⟩ := h
  obtain rfl := Option.some.inj (ho.symm.trans ho')
  simp only [bind_eq_ok] at h
  obtain ⟨r, m, hm, _, m', hm', h⟩ := h
  obtain ⟨lk, hlk, hh, hs⟩ := passOn_sets hm
  refine ⟨_, lk, r, setsCondition_mapCondition ho fun cond =>
    { cond with waiters := ⟨o.waiters.entries ++ [t]⟩ }, hlk, hh, hs.gear_right ?_⟩
  rw [(keeps_endTurn (by decide)).gear _ _ _ h, (keeps_say _).gear _ _ _ hm']

/-- The two changes of a wait: the thread joins the queue of the condition variable, which is bound
to the lock from then on, and passes the lock on. -/
theorem await_sets (h : await c l k = .ok u k') :
    ∃ th o m lk r, k.running = .ok th ∧ k.objects.conditions[c]? = some o ∧
      (∀ b, o.lock = some b → b = l) ∧
      SetsCondition k m c ⟨some l, ⟨o.waiters.entries ++ [th.id]⟩⟩ ∧
      m.objects.locks[l]? = some lk ∧ lk.holder = some th.id ∧ SetsLock m k' l (lk.passedTo r) := by
  unfold await at h
  simp only [outsideHandler_bind_eq_ok, bind_eq_ok (x := checkHeld _ _ _)] at h
  obtain ⟨-, _, _, hc, h⟩ := h
  obtain ⟨rfl, -⟩ := checkHeld_eq_ok hc
  rw [ask_bind_eq_ok] at h
  obtain ⟨th, hr, h⟩ := h
  obtain ⟨m, m', hq, h, hq'⟩ := masked_eq_ok h
  simp only [ask_bind_eq_ok (f := fun x => _), condition_eq_ok_iff] at h
  obtain ⟨o, ho, h⟩ := h
  have ho' : k.objects.conditions[c]? = some o := by rwa [← hq.objects]
  cases hb : o.lock with
  | some bound =>
    simp only [hb, demand_bind_eq_ok] at h
    obtain ⟨rfl, h⟩ := h
    obtain ⟨n, lk, r, hc', hlk, hh, hs⟩ := sitAndPassOn_sets ho h
    rw [hb] at hc'
    exact ⟨th, o, n, lk, r, hr, ho', fun b hb' => Option.some.inj (hb'.symm.trans hb),
      hc'.gear_left hq.gear, hlk, hh, hs.gear_right hq'.gear⟩
  | none =>
    simp only [hb, changeCondition_bind_eq_ok] at h
    obtain ⟨-, h⟩ := h
    have hl := setsCondition_mapCondition ho fun cond => { cond with lock := some l }
    obtain ⟨n, lk, r, hc', hlk, hh, hs⟩ := sitAndPassOn_sets hl.self h
    exact ⟨th, o, n, lk, r, hr, ho', (by simp [hb]), (hl.trans hc').gear_left hq.gear, hlk, hh,
      hs.gear_right hq'.gear⟩

/-- A signal takes a waiter from the condition variable and puts it in the queue of the lock. -/
theorem signalOne_sets {r : Option ThreadId} (h : signalOne c l k = .ok r k') :
    (r = none ∧ k' = k) ∨ ∃ t o m lk, r = some t ∧ k.objects.conditions[c]? = some o ∧
      SetsCondition k m c { o with waiters := o.waiters.remove t } ∧
      m.objects.locks[l]? = some lk ∧
      SetsLock m k' l { lk with waiters := ⟨lk.waiters.entries ++ [t]⟩ } := by
  unfold signalOne at h
  simp only [ask_bind_eq_ok, condition_eq_ok_iff] at h
  obtain ⟨o, ho, next, -, h⟩ := h
  cases next with
  | none =>
    simp only [pure_eq_ok] at h
    exact .inl ⟨h.1.symm, h.2.symm⟩
  | some t =>
    simp only [changeCondition_bind_eq_ok, get_bind_eq_ok] at h
    simp only [bind_eq_ok, pure_eq_ok] at h
    obtain ⟨-, _, m, hm, _, m', hm', rfl, rfl⟩ := h
    obtain ⟨lk, hlk, hs⟩ := waitForLock_sets hm
    exact .inr ⟨t, o, _, lk, rfl, ho, setsCondition_mapCondition ho _, hlk,
      hs.gear_right ((keeps_say _).gear _ _ _ hm')⟩

/-! ## On the way back -/

/-- `t` waits for a signal of condition variable `c`, which is bound to lock `l`, or it waits for
the lock, or it holds the lock. -/
def Returning (k : Core) (t : ThreadId) (c l : ObjectId) : Prop :=
  (∃ o, k.objects.conditions[c]? = some o ∧ o.lock = some l ∧ t ∈ o.waiters) ∨
    ∃ o, k.objects.locks[l]? = some o ∧ (t ∈ o.waiters ∨ o.holder = some t)

namespace Returning

theorem congr (h : k.Returning t c l) (hg : k'.gear = k.gear) : k'.Returning t c l := by
  unfold Returning
  rw [gear_conditions hg, gear_locks hg]
  exact h

/-- A lock changed, and whoever waited for it or held it does so still. -/
theorem setsLock {o o' : Lock} (h : k.Returning t c l) (hs : SetsLock k k' i o')
    (ho : k.objects.locks[i]? = some o)
    (ht : t ∈ o.waiters ∨ o.holder = some t → t ∈ o'.waiters ∨ o'.holder = some t) :
    k'.Returning t c l := by
  unfold Returning at h ⊢
  rw [hs.conditions, hs.locks]
  refine h.imp id ?_
  rintro ⟨o₁, ho₁, h⟩
  split
  · rename_i hi
    subst hi
    obtain rfl : o = o₁ := Option.some.inj (ho.symm.trans ho₁)
    exact ⟨o', rfl, ht h⟩
  · exact ⟨o₁, ho₁, h⟩

/-- A condition variable changed, and whoever waited on it does so still. -/
theorem setsCondition {o o' : Condition} (h : k.Returning t c l) (hs : SetsCondition k k' i o')
    (ho : k.objects.conditions[i]? = some o)
    (ht : o.lock = some l → t ∈ o.waiters → o'.lock = some l ∧ t ∈ o'.waiters) :
    k'.Returning t c l := by
  unfold Returning at h ⊢
  rw [hs.locks, hs.conditions]
  refine h.imp ?_ id
  rintro ⟨o₁, ho₁, hl, h⟩
  split
  · rename_i hi
    subst hi
    obtain rfl : o = o₁ := Option.some.inj (ho.symm.trans ho₁)
    exact ⟨o', rfl, ht hl h⟩
  · exact ⟨o₁, ho₁, hl, h⟩

/-- Another thread has passed a lock on. -/
theorem passOn {o : Lock} {r : Option ThreadId} (h : k.Returning t c l)
    (hs : SetsLock k k' i (o.passedTo r)) (ho : k.objects.locks[i]? = some o)
    (hh : o.holder = some v) (hne : v ≠ t) : k'.Returning t c l := by
  refine h.setsLock hs ho ?_
  rintro (ht | ht)
  · cases r with
    | none => exact .inl ht
    | some n =>
      by_cases hn : n = t
      · exact .inr (congrArg some hn)
      · exact .inl ((List.mem_erase_of_ne (Ne.symm hn)).mpr ht)
  · rw [hh] at ht
    exact absurd (Option.some.inj ht) hne

end Returning

section Calls

variable {th : Thread} (hk : k.Sound g) (h : k.Returning t c l)

include hk h

theorem Returning.newLock {l' : ObjectId} (hx : newLock k = .ok l' k') : k'.Returning t c l := by
  obtain ⟨rfl, rfl⟩ := newLock_eq_ok hx
  refine h.imp id ?_
  rintro ⟨o, ho, ht⟩
  have hle := hk.registered.lock l o ho
  refine ⟨o, ?_, ht⟩
  rw [Std.ExtTreeMap.getElem?_insert, if_neg]
  · exact ho
  · rw [compare_eq_iff_eq]
    exact (Nat.lt_succ_of_le hle).ne'

theorem Returning.newCondition {c' : ObjectId} (hx : newCondition k = .ok c' k') :
    k'.Returning t c l := by
  obtain ⟨rfl, rfl⟩ := newCondition_eq_ok hx
  refine h.imp ?_ id
  rintro ⟨o, ho, ht⟩
  have hle := hk.registered.condition c o ho
  refine ⟨o, ?_, ht⟩
  rw [Std.ExtTreeMap.getElem?_insert, if_neg]
  · exact ho
  · rw [compare_eq_iff_eq]
    exact (Nat.lt_succ_of_le hle).ne'

/-- A lock that somebody waits for has a holder, so it is not destroyed. -/
theorem Returning.destroyLock {a : Except Refusal Unit} (hx : destroyLock i k = .ok a k') :
    k'.Returning t c l := by
  unfold Core.destroyLock at hx
  simp only [ask_bind_eq_ok, lock_eq_ok_iff] at hx
  obtain ⟨o, ho, hx⟩ := hx
  cases hoh : o.holder with
  | some v =>
    simp only [hoh, pure_eq_ok] at hx
    exact hx.2 ▸ h
  | none =>
    simp only [hoh, modify_bind_eq_ok, pure_eq_ok] at hx
    obtain ⟨-, rfl⟩ := hx
    refine h.imp id ?_
    rintro ⟨o', ho', ht⟩
    refine ⟨o', ?_, ht⟩
    rw [Std.ExtTreeMap.getElem?_erase, if_neg]
    · exact ho'
    · rw [compare_eq_iff_eq]
      rintro rfl
      obtain rfl : o = o' := Option.some.inj (ho.symm.trans ho')
      rcases ht with ht | ht
      · obtain ⟨w, hw⟩ := hk.waits.wired.held t i (waiters_lock ho ▸ ht)
        rw [holder_lock ho, hoh] at hw
        cases hw
      · rw [hoh] at ht
        cases ht

omit hk in
theorem Returning.destroyCondition {a : Except Refusal Unit}
    (hx : destroyCondition i k = .ok a k') : k'.Returning t c l := by
  unfold Core.destroyCondition at hx
  simp only [ask_bind_eq_ok, condition_eq_ok_iff] at hx
  obtain ⟨o, ho, hx⟩ := hx
  split at hx
  · rename_i hempty
    simp only [modify_bind_eq_ok, pure_eq_ok] at hx
    obtain ⟨-, rfl⟩ := hx
    refine h.imp ?_ id
    rintro ⟨o', ho', hl, ht⟩
    refine ⟨o', ?_, hl, ht⟩
    rw [Std.ExtTreeMap.getElem?_erase, if_neg]
    · exact ho'
    · rw [compare_eq_iff_eq]
      rintro rfl
      obtain rfl : o = o' := Option.some.inj (ho.symm.trans ho')
      rw [Queue.mem_def, List.isEmpty_iff.mp hempty] at ht
      cases ht
  · exact (pure_eq_ok.mp hx).2 ▸ h

omit hk

theorem Returning.acquire (hx : acquire i k = .ok u k') : k'.Returning t c l := by
  obtain ⟨_, o, -, ho, hs⟩ := acquire_sets hx
  rcases hs with ⟨hh, hs⟩ | ⟨-, hs⟩
  · refine h.setsLock hs ho (Or.imp id ?_)
    rw [hh]
    nofun
  · exact h.setsLock hs ho (Or.imp (fun ht => List.mem_append_left _ ht) id)

theorem Returning.tryAcquire {a : Except WouldBlock Unit} (hx : tryAcquire i k = .ok a k') :
    k'.Returning t c l := by
  rcases tryAcquire_sets hx with hg | ⟨_, o, -, ho, hh, hs⟩
  · exact h.congr hg
  · refine h.setsLock hs ho (Or.imp id ?_)
    rw [hh]
    nofun

variable (hr : k.running = .ok th) (hne : th.id ≠ t)

include hr hne

theorem Returning.release (hx : release i k = .ok u k') : k'.Returning t c l := by
  obtain ⟨th', o, r, hr', ho, hh, hs⟩ := release_sets hx
  obtain rfl : th = th' := Except.ok.inj (hr.symm.trans hr')
  exact h.passOn hs ho hh hne

/-- Another thread begins to wait. -/
theorem Returning.await {c' l' : ObjectId} (hx : await c' l' k = .ok u k') :
    k'.Returning t c l := by
  obtain ⟨th', o, m, lk, r, hr', ho, hb, hc, hlk, hh, hs⟩ := await_sets hx
  obtain rfl : th = th' := Except.ok.inj (hr.symm.trans hr')
  refine Returning.passOn (k := m) ?_ hs hlk hh hne
  refine h.setsCondition hc ho fun hl ht => ?_
  obtain rfl := hb l hl
  exact ⟨rfl, List.mem_append_left _ ht⟩

end Calls

/-- The thread at work begins to wait. -/
theorem await_returning {th : Thread} (hr : k.running = .ok th) (h : await c l k = .ok u k') :
    k'.Returning th.id c l := by
  obtain ⟨th', o, m, lk, r, hr', -, -, hc, -, -, hs⟩ := await_sets h
  obtain rfl : th = th' := Except.ok.inj (hr.symm.trans hr')
  refine .inl ⟨⟨some l, ⟨o.waiters.entries ++ [th.id]⟩⟩, ?_, rfl, ?_⟩
  · rw [hs.conditions, hc.conditions, if_pos rfl]
  · exact List.mem_append_right _ (List.mem_singleton_self _)

/-- A signal keeps the waiters on their way if it names the lock they gave up. -/
theorem Returning.signalOne {c' l' : ObjectId} (h : k.Returning t c l)
    (hb : ∀ o, k.objects.conditions[c']? = some o → ∀ b, o.lock = some b → b = l')
    {r : Option ThreadId} (hx : signalOne c' l' k = .ok r k') :
    k'.Returning t c l ∧ ∀ o, k'.objects.conditions[c']? = some o → ∀ b, o.lock = some b →
      b = l' := by
  rcases signalOne_sets hx with ⟨-, rfl⟩ | ⟨v, o, m, lk, -, ho, hc, hlk, hs⟩
  · exact ⟨h, hb⟩
  refine ⟨?_, fun o' ho' b hb' => ?_⟩
  · by_cases hv : v = t
    · subst hv
      -- The waiter itself is signalled, so it is in the queue of the lock.
      have hin : v ∈ (⟨lk.waiters.entries ++ [v]⟩ : Queue) :=
        List.mem_append_right _ (List.mem_singleton_self _)
      rcases h with ⟨o₁, ho₁, hl, ht⟩ | ⟨o₁, ho₁, ht⟩
      · by_cases hcc : c = c'
        · subst hcc
          obtain rfl : l = l' := hb o₁ ho₁ l hl
          exact .inr ⟨_, hs.self, .inl hin⟩
        · refine .inl ⟨o₁, ?_, hl, ht⟩
          rw [hs.conditions, hc.conditions, if_neg hcc]
          exact ho₁
      · have hm : m.Returning v c l := .inr ⟨o₁, by rw [hc.locks]; exact ho₁, ht⟩
        exact hm.setsLock hs hlk (Or.imp (fun _ => hin) id)
    · have hm : m.Returning t c l := h.setsCondition hc ho fun hl ht =>
        ⟨hl, (List.mem_erase_of_ne (Ne.symm hv)).mpr ht⟩
      exact hm.setsLock hs hlk (Or.imp (fun ht => List.mem_append_left _ ht) id)
  · rw [hs.conditions, hc.conditions, if_pos rfl] at ho'
    cases ho'
    exact hb o ho b hb'

theorem Returning.signalMany {c' l' : ObjectId} {n count : Nat} (h : k.Returning t c l)
    (hb : ∀ o, k.objects.conditions[c']? = some o → ∀ b, o.lock = some b → b = l')
    (hx : signalMany c' l' n k = .ok count k') : k'.Returning t c l := by
  induction n generalizing k count with
  | zero =>
    obtain ⟨-, rfl⟩ := pure_eq_ok.mp hx
    exact h
  | succ n ih =>
    unfold Core.signalMany at hx
    rw [bind_eq_ok] at hx
    obtain ⟨r, m, hm, hx⟩ := hx
    obtain ⟨h', hb'⟩ := h.signalOne hb hm
    cases r with
    | none =>
      obtain ⟨-, rfl⟩ := pure_eq_ok.mp hx
      exact h'
    | some v =>
      simp only [bind_eq_ok, pure_eq_ok] at hx
      obtain ⟨_, m', hm', -, rfl⟩ := hx
      exact ih h' hb' hm'

section Signals

variable {c' l' : ObjectId} (h : k.Returning t c l)
  (hb : ∀ o, k.objects.conditions[c']? = some o → ∀ b, o.lock = some b → b = l')

include h hb

theorem Returning.signal {b : Bool} (hx : signal c' l' k = .ok b k') : k'.Returning t c l := by
  unfold Core.signal at hx
  simp only [bind_eq_ok, pure_eq_ok] at hx
  obtain ⟨_, _, hc, r, n, hn, -, rfl⟩ := hx
  obtain ⟨rfl, -⟩ := checkHeld_eq_ok hc
  obtain ⟨m, m', hq, hn, hq'⟩ := masked_eq_ok hn
  refine (Returning.signalOne (h.congr hq.gear) ?_ hn).1.congr hq'.gear
  rwa [hq.objects]

theorem Returning.broadcast {count : Nat} (hx : broadcast c' l' k = .ok count k') :
    k'.Returning t c l := by
  unfold Core.broadcast at hx
  rw [bind_eq_ok] at hx
  obtain ⟨_, _, hc, hx⟩ := hx
  obtain ⟨rfl, -⟩ := checkHeld_eq_ok hc
  obtain ⟨m, m', hq, hx, hq'⟩ := masked_eq_ok hx
  rw [ask_bind_eq_ok] at hx
  obtain ⟨o, -, hx⟩ := hx
  refine (Returning.signalMany (h.congr hq.gear) ?_ hx).congr hq'.gear
  rwa [hq.objects]

end Signals

end Core

namespace Session

open ThreadCore.Core (InOrder Returning)

variable {s s' : Session} {a : Answer} {c : Call} {log : List Entry} {frames : List Bool}
  {t : ThreadId} {cond l : ObjectId} {pristine : Bool}

/-! ## Calls -/

/-- The condition variable and the lock that a signal or a broadcast names. -/
def signalled : Call → Option (Nat × Nat)
  | .signal i j | .broadcast i j => some (i, j)
  | _ => none

/-- A signal or a broadcast names the lock that the condition variable is bound to. -/
def Faithful (s : Session) (c : Call) : Prop :=
  ∀ p ∈ signalled c, ∀ cond ∈ s.conditions[p.1]?, ∀ l ∈ s.locks[p.2]?,
    ∀ o ∈ s.core.objects.conditions[cond]?, ∀ b ∈ o.lock, b = l

instance : Decidable (Faithful s c) := by
  unfold Faithful
  infer_instance

/-- No call of another thread leads a thread off its way back to the lock. -/
theorem execute_returning (hk : s.core.InOrder pristine) (hf : Faithful s c)
    (hr : s.core.Returning t cond l) (hne : s.core.current ≠ t) (h : execute c s = .ok a s') :
    s'.core.Returning t cond l := by
  have hid : ∀ th, s.core.running = .ok th → th.id ≠ t := fun th hth =>
    (hk.running_eq hth).1 ▸ hne
  by_cases hg : usesGear c = true
  swap
  · exact hr.congr (execute_gear (Bool.not_eq_true _ ▸ hg) h)
  obtain hsame | ⟨α, e, r, hp, hx⟩ := execute_core h
  · exact hsame ▸ hr
  cases hp with
  | newLock => exact hr.newLock hk hx
  | newCondition => exact hr.newCondition hk hx
  | acquire _ => exact hr.acquire hx
  | tryAcquire _ => exact hr.tryAcquire hx
  | release _ =>
    obtain ⟨th, _, _, hth, -⟩ := Core.release_sets hx
    exact hr.release hth (hid th hth) hx
  | destroyLock _ => exact hr.destroyLock hk hx
  | await _ _ =>
    obtain ⟨th, _, _, _, _, hth, -⟩ := Core.await_sets hx
    exact hr.await hth (hid th hth) hx
  | signal hi hj => exact hr.signal (fun o ho b hb => hf _ rfl _ hi _ hj o ho b hb) hx
  | broadcast hi hj => exact hr.broadcast (fun o ho b hb => hf _ rfl _ hi _ hj o ho b hb) hx
  | destroyCondition _ => exact hr.destroyCondition hx
  | ask ha => cases ha <;> cases hg
  | _ => cases hg

/-! ## Runs -/

/-- The last call in the name of `t`, with the session on which it was made. -/
def lastCall (t : ThreadId) : List Entry → Option (Session × Call)
  | [] => none
  | e :: log =>
    match e.deed with
    | .call c _ => if e.caller = t then some (e.before, c) else lastCall t log
    | _ => lastCall t log

theorem lastCall_call_self (log : List Entry) (ht : s.core.current = t) :
    lastCall t (⟨s, .call c a, s'⟩ :: log) = some (s, c) :=
  if_pos ht

theorem lastCall_call_of_ne (log : List Entry) (ht : s.core.current ≠ t) :
    lastCall t (⟨s, .call c a, s'⟩ :: log) = lastCall t log :=
  if_neg ht

/-- Whoever waited last is on the way back to the lock. -/
def Homing (log : List Entry) (s : Session) : Prop :=
  ∀ t before i j cond l, lastCall t log = some (before, .await i j) →
    before.conditions[i]? = some cond → before.locks[j]? = some l → s.core.Returning t cond l

theorem homing_call (hk : s.core.InOrder pristine) (hf : Faithful s c) (hh : Homing log s)
    (h : execute c s = .ok a s') : Homing (⟨s, .call c a, s'⟩ :: log) s' := by
  intro t before i j cond l hlast hc hl
  by_cases ht : s.core.current = t
  · rw [lastCall_call_self log ht, Option.some.injEq, Prod.mk.injEq] at hlast
    obtain ⟨rfl, rfl⟩ := hlast
    rcases resolve_eq_ok.mp h with ⟨hn, -⟩ | ⟨cond', hc', h⟩
    · rw [hc] at hn
      cases hn
    rcases resolve_eq_ok.mp h with ⟨hn, -⟩ | ⟨l', hl', h⟩
    · rw [hl] at hn
      cases hn
    obtain rfl : cond = cond' := Option.some.inj (hc.symm.trans hc')
    obtain rfl : l = l' := Option.some.inj (hl.symm.trans hl')
    obtain ⟨_, k, hx, -, rfl⟩ := report_ok.mp h
    obtain ⟨th, _, _, _, _, hth, -⟩ := Core.await_sets hx
    have hid : th.id = t := (hk.running_eq hth).1.trans ht
    exact hid ▸ Core.await_returning hth hx
  · rw [lastCall_call_of_ne log ht] at hlast
    exact execute_returning hk hf (hh t before i j cond l hlast hc hl) ht h

/-- In a run in which signals are faithful, whoever waited last is on the way back. -/
theorem Logged.homing (h : Logged (fun _ s c => Considerate s c ∧ Faithful s c) log frames s) :
    s.core.InOrder false ∧ Homing log s := by
  refine ⟨h.inOrder fun _ _ _ hd => hd.1, ?_⟩
  refine h.invariant (P := fun log s => Homing log s) (fun _ _ _ _ _ => nofun) ?_
  intro log frames s d s' hs hh hd ha
  cases hd with
  | call he => exact homing_call (hs.inOrder fun _ _ _ hd => hd.1) (ha _ _ rfl).2 hh he
  | enter he =>
    exact fun t before i j cond l hlast hc hl => (hh t before i j cond l hlast hc hl).congr
      (congrArg Estate.gear (enterHandler_estate he).1)
  | leave he =>
    exact fun t before i j cond l hlast hc hl => (hh t before i j cond l hlast hc hl).congr
      (congrArg Estate.gear (leaveHandler_estate he).1)

/-- A thread on the way back lives, and unless it is blocked it has the lock. -/
theorem returning_holds (hk : s.core.InOrder pristine) (h : s.core.Returning t cond l) :
    ∃ th, s.core.threads[t]? = some th ∧
      (th.state = .blocked ∨ ∃ o, s.core.objects.locks[l]? = some o ∧ o.holder = some t) := by
  have hseat : ∀ p : Seat, p.state = .blocked → t ∈ s.core.seating.queue p →
      ∃ th, s.core.threads[t]? = some th ∧ th.state = .blocked := by
    intro p hp ht
    obtain ⟨th, hth, hs⟩ := hk.state_of_mem rfl ht
    exact ⟨th, hth, hs.trans hp⟩
  rcases h with ⟨o, ho, -, ht⟩ | ⟨o, ho, ht | hh⟩
  · obtain ⟨th, hth, hb⟩ := hseat (.condition cond) rfl (Core.queue_condition ho ▸ ht)
    exact ⟨th, hth, .inl hb⟩
  · obtain ⟨th, hth, hb⟩ := hseat (.lock l) rfl (Core.queue_lock ho ▸ ht)
    exact ⟨th, hth, .inl hb⟩
  · obtain ⟨th, hth⟩ := hk.registered.holder l t ((Core.holder_lock ho).trans hh)
    exact ⟨th, hth, .inr ⟨o, ho, hh⟩⟩

/-- **A wait gives back the lock.** In a run in which signals and broadcasts name the lock that the
condition variable is bound to, a thread whose last call was a wait is in the queue of the condition
variable, which is bound to the lock that the thread gave up, or in the queue of that lock, or it
holds that lock. As soon as it is not blocked any more, it holds the lock. -/
theorem logged_regains (h : Logged (fun _ s c => Considerate s c ∧ Faithful s c) log frames s)
    {before : Session} {i j : Nat} (hlast : lastCall t log = some (before, .await i j))
    (hc : before.conditions[i]? = some cond) (hl : before.locks[j]? = some l) :
    s.core.Returning t cond l ∧ ∃ th, s.core.threads[t]? = some th ∧
      (th.state = .blocked ∨ ∃ o, s.core.objects.locks[l]? = some o ∧ o.holder = some t) := by
  obtain ⟨hk, hh⟩ := h.homing
  have hr := hh t before i j cond l hlast hc hl
  exact ⟨hr, returning_holds hk hr⟩

/-- A thread waits with lock 1, is signalled by a thread that has acquired the lock in between, and
runs as its holder when that thread has released it. -/
theorem logged_regains_signalled : ∃ log s before,
    Logged (fun _ s c => Considerate s c ∧ Faithful s c) log [] s ∧
      lastCall 3 log = some (before, .await 0 0) ∧ before.conditions[0]? = some 2 ∧
      before.locks[0]? = some 1 ∧
        (s.core.threads[(3 : ThreadId)]?).map Thread.state = some .running ∧
      ∃ o, s.core.objects.locks[(1 : ObjectId)]? = some o ∧ o.holder = some 3 := by
  have hrun : (replayFrom (fun _ s c => s.isPlain c && decide (Faithful s c))
      ⟨none, none, none, false, none⟩ [.newLock, .newCondition, .create "waiter" 40, .acquire 0,
        .await 0 0, .acquire 0, .signal 0 0, .release 0]).any (fun r =>
        ((lastCall 3 r.1).any fun p => p.2 = .await 0 0 ∧ p.1.conditions[0]? = some 2 ∧
          p.1.locks[0]? = some 1) = true ∧
        (r.2.core.threads[(3 : ThreadId)]?).map Thread.state = some .running) = true := by
    decide +kernel
  obtain ⟨⟨log, s⟩, hs, hrun⟩ := (Option.any_eq_true _ _).mp hrun
  obtain ⟨hlast, hstate⟩ := of_decide_eq_true hrun
  obtain ⟨⟨before, c⟩, hlast, hp⟩ := (Option.any_eq_true _ _).mp hlast
  obtain ⟨rfl, hc, hl⟩ := of_decide_eq_true hp
  have hlog : Logged (fun _ s c => Considerate s c ∧ Faithful s c) log [] s :=
    logged_replayFrom (fun _ s c hcheck => by
      rw [Bool.and_eq_true, isPlain_iff, decide_eq_true_eq] at hcheck
      exact ⟨.plain hcheck.1.1 hcheck.1.2, hcheck.2⟩) hs
  obtain ⟨-, th, hth, hb⟩ := logged_regains hlog hlast hc hl
  refine ⟨log, s, before, hlog, hlast, hc, hl, hstate, hb.resolve_left ?_⟩
  rw [hth, Option.map_some, Option.some.injEq] at hstate
  rw [hstate]
  decide

/-- A thread waits with lock 1 and is signalled by a thread that holds lock 2. When that lock is
released, the waiter runs, and it is not the holder of lock 1. -/
theorem unfaithful_strays : ∃ log s before, Logged (fun _ => Considerate) log [] s ∧
    lastCall 3 log = some (before, .await 0 0) ∧ before.locks[0]? = some 1 ∧
    (s.core.threads[(3 : ThreadId)]?).map Thread.state = some .running ∧
    ∀ o, s.core.objects.locks[(1 : ObjectId)]? = some o → o.holder ≠ some 3 := by
  have hrun : (replayFrom (fun _ => isPlain) ⟨none, none, none, false, none⟩
      [.newLock, .newLock, .newCondition, .create "waiter" 40, .acquire 0, .await 0 0, .acquire 1,
        .signal 0 1, .release 1]).any (fun r =>
        ((lastCall 3 r.1).any fun p => p.2 = .await 0 0 ∧ p.1.locks[0]? = some 1) = true ∧
        (r.2.core.threads[(3 : ThreadId)]?).map Thread.state = some .running ∧
        ((r.2.core.objects.locks[(1 : ObjectId)]?).all fun o => o.holder ≠ some 3) = true) =
        true := by
    decide +kernel
  obtain ⟨⟨log, s⟩, hs, hrun⟩ := (Option.any_eq_true _ _).mp hrun
  obtain ⟨hlast, hstate, hholder⟩ := of_decide_eq_true hrun
  obtain ⟨⟨before, c⟩, hlast, hp⟩ := (Option.any_eq_true _ _).mp hlast
  obtain ⟨rfl, hl⟩ := of_decide_eq_true hp
  refine ⟨log, s, before, logged_plain hs, hlast, hl, hstate, fun o ho => ?_⟩
  rw [ho] at hholder
  exact of_decide_eq_true hholder

end Session

end ThreadCore
