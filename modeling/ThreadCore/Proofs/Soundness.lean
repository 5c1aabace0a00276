import ThreadCore.Core.Condition
import ThreadCore.Core.Family
import ThreadCore.Proofs.Views

/-!
# States in order

`Core.Sound` says that a state obeys the rules of all three views, at a given stage of the work: who
has the processor, in which state that thread is about to be, whether a handler runs. Every
operation keeps it. A step after which all views are the same (`Alike`) keeps it trivially, and most
of what is done with objects that nobody waits on is of this kind.
-/

namespace ThreadCore.Core

/-- A stage of the work. -/
structure Stage where
  current : ThreadId
  idle : ThreadId
  /-- The state that the current thread is in, or is about to be in. -/
  state : ThreadState
  /-- Whether a handler runs. -/
  handler : Bool
  terms : Terms

/-- The state obeys the rules at stage `g`. -/
structure Sound (k : Core) (g : Stage) : Prop where
  current : k.current = g.current
  idle : k.idle = g.idle
  handler : k.machine.inHandler = g.handler
  seating : k.seating.Sound g.state
  waits : k.waits.Sound
  registered : k.Registered g.terms

/-- No view tells the two states apart. -/
structure Alike (k k' : Core) : Prop where
  seating : k'.seating = k.seating
  waits : k'.waits = k.waits
  registered : ∀ terms, k.Registered terms → k'.Registered terms
  handler : k'.machine.inHandler = k.machine.inHandler
  pending : k'.yieldPending = k.yieldPending

variable {k k' k₁ k₂ k₃ : Core} {g : Stage} {t : ThreadId} {l s c : ObjectId} {u : Unit}

namespace Alike

theorem refl (k : Core) : Alike k k := ⟨rfl, rfl, fun _ => id, rfl, rfl⟩

theorem trans (h : Alike k₁ k₂) (h' : Alike k₂ k₃) : Alike k₁ k₃ :=
  ⟨h'.seating.trans h.seating, h'.waits.trans h.waits,
    fun p hp => h'.registered p (h.registered p hp), h'.handler.trans h.handler,
    h'.pending.trans h.pending⟩

theorem current (h : Alike k k') : k'.current = k.current := congrArg Seating.current h.seating

theorem idle (h : Alike k k') : k'.idle = k.idle := congrArg Seating.idle h.seating

theorem ready (h : Alike k k') : k'.ready.entries = k.ready.entries :=
  congrArg (fun s => s.queue .ready) h.seating

end Alike

theorem Quiet.alike (h : Quiet k k') : Alike k k' :=
  ⟨h.seating, h.waits, fun _ => h.registered, h.handler, h.pending⟩

theorem Sound.alike (h : k.Sound g) (ha : Alike k k') : k'.Sound g :=
  ⟨ha.current.trans h.current, ha.idle.trans h.idle, ha.handler.trans h.handler,
    ha.seating ▸ h.seating, ha.waits ▸ h.waits, ha.registered _ h.registered⟩

theorem Sound.quiet (h : k.Sound g) (hq : Quiet k k') : k'.Sound g := h.alike hq.alike

/-! ## Facts about the current thread -/

theorem Sound.running_eq (h : k.Sound g) {th : Thread} (hr : k.running = .ok th) :
    th.id = g.current ∧ k.threads[g.current]? = some th := by
  obtain ⟨hth, -, -⟩ := running_eq_ok.mp hr
  rw [h.current] at hth
  exact ⟨(h.registered.thread _ _ hth).1, hth⟩

/-- The thread at work passes the check that it runs. -/
theorem Sound.running_ok (h : k.Sound g) (hp : g.terms.pristine = true) :
    ∃ th, k.threads[k.current]? = some th ∧ k.running = .ok th ∧ th.id = k.current := by
  obtain ⟨th, hth, hrun⟩ : ∃ th, k.threads[k.current]? = some th ∧ th.state = .running :=
    live_of_state h.seating.current_running
  obtain ⟨hid, -, hint⟩ := h.registered.thread _ _ hth
  exact ⟨th, hth, running_eq_ok.mpr ⟨hth, hint hp, hrun⟩, hid⟩

/-- A thread in no lock's queue waits for no lock. -/
theorem Sound.waitsFor_eq_none (h : k.Sound g) (ht : ∀ l, t ∉ k.seating.queue (.lock l)) :
    k.waits.waitsFor t = none := by
  cases hw : k.waits.waitsFor t with
  | none => rfl
  | some l => exact absurd ((h.waits.wired.waitsFor_iff t l).mp hw) (ht l)

theorem Sound.current_waitsFor (h : k.Sound g) (hg : g.state = .running) :
    k.waits.waitsFor k.current = none :=
  h.waitsFor_eq_none fun l => h.seating.current_stands (fun p => hg ▸ p.state_ne_running) (.lock l)

theorem Sound.live_current (h : k.Sound g) : ∃ th, k.threads[k.current]? = some th := by
  obtain ⟨th, hth, -⟩ := live_of_state h.seating.current_running
  exact ⟨th, hth⟩

theorem Sound.ne_idle_of_mem (h : k.Sound g) {p : Seat} (ht : t ∈ k.seating.queue p) :
    t ≠ k.idle :=
  ne_of_mem_of_not_mem ht (h.seating.idle_stands p)

theorem Sound.ne_current_of_mem (h : k.Sound g) (hg : g.state = .running) {p : Seat}
    (ht : t ∈ k.seating.queue p) : t ≠ k.current :=
  ne_of_mem_of_not_mem ht (h.seating.current_stands (fun p => hg ▸ p.state_ne_running) p)

/-- Who sits somewhere lives. -/
theorem Sound.live_of_mem (h : k.Sound g) {p : Seat} (ht : t ∈ k.seating.queue p) :
    ∃ th, k.threads[t]? = some th := by
  by_cases htc : t = k.current
  · exact htc ▸ h.live_current
  · have hs := h.seating.seated t p ht
    rw [Seating.about_of_ne htc] at hs
    obtain ⟨th, hth, -⟩ := live_of_state hs
    exact ⟨th, hth⟩

/-! ## Objects that nobody waits on -/

theorem freshObject_eq_ok {id : ObjectId} :
    freshObject k = .ok id k' ↔ k.objects.lastId < Word.greatest ∧ id = k.objects.lastId + 1 ∧
      k' = { k with objects := { k.objects with lastId := id } } := by
  unfold freshObject
  rw [get_bind_eq_ok, bind_eq_ok]
  simp only [increment_eq_ok, modify_bind_eq_ok, pure_eq_ok]
  grind

/-- A table of objects with the same waiters and holders, and numbers that were given out. -/
theorem alike_of_objects {o : Objects}
    (hq : ∀ p, ({ k with objects := o } : Core).seating.queue p = k.seating.queue p)
    (hh : ∀ m, ({ k with objects := o } : Core).waits.holder m = k.waits.holder m)
    (hs : ∀ (m : ObjectId) x, o.semaphores[m]? = some x → m ≤ o.lastId)
    (hl : ∀ (m : ObjectId) x, o.locks[m]? = some x → m ≤ o.lastId)
    (hc : ∀ (m : ObjectId) x, o.conditions[m]? = some x → m ≤ o.lastId) :
    Alike k { k with objects := o } := by
  refine ⟨?_, ?_, ?_, rfl, rfl⟩
  · show ({ k.seating with queue := ({ k with objects := o } : Core).seating.queue } : Seating) = _
    rw [funext hq]
  · show ({ k.waits with
      holder := ({ k with objects := o } : Core).waits.holder
      waiters := fun m => ({ k with objects := o } : Core).seating.queue (.lock m) } : Waits) = _
    rw [funext hh]
    simp only [hq]
    rfl
  · rintro terms ⟨h₁, h₂, h₃, -, -, -⟩
    exact ⟨h₁, h₂, fun m t ht => h₃ m t ((hh m).symm.trans ht), hs, hl, hc⟩

theorem alike_newSemaphore (hk : k.Sound g) {v : Nat} (h : newSemaphore v k = .ok s k') :
    Alike k k' := by
  unfold newSemaphore at h
  simp only [bind_eq_ok, freshObject_eq_ok, modify_eq_ok, pure_eq_ok] at h
  obtain ⟨id, _, ⟨-, rfl, rfl⟩, _, _, rfl, -, rfl⟩ := h
  obtain ⟨-, -, -, h₄, h₅, h₆⟩ := hk.registered
  apply alike_of_objects
  · intro p
    cases p with
    | semaphore m =>
      have := h₄ m
      simp only [seating, Std.ExtTreeMap.getElem?_insert, compare_eq_iff_eq]
      grind [Queue.empty]
    | _ => rfl
  · exact fun m => rfl
  · intro m x
    have := h₄ m
    simp only [Std.ExtTreeMap.getElem?_insert, compare_eq_iff_eq]
    grind
  · exact fun m x hm => (h₅ m x hm).trans (Nat.le_succ _)
  · exact fun m x hm => (h₆ m x hm).trans (Nat.le_succ _)

theorem alike_newLock (hk : k.Sound g) (h : newLock k = .ok l k') : Alike k k' := by
  unfold newLock at h
  simp only [bind_eq_ok, freshObject_eq_ok, modify_eq_ok, pure_eq_ok] at h
  obtain ⟨id, _, ⟨-, rfl, rfl⟩, _, _, rfl, -, rfl⟩ := h
  obtain ⟨-, -, -, h₄, h₅, h₆⟩ := hk.registered
  apply alike_of_objects
  · intro p
    cases p with
    | lock m =>
      have := h₅ m
      simp only [seating, Std.ExtTreeMap.getElem?_insert, compare_eq_iff_eq]
      grind [Queue.empty]
    | _ => rfl
  · intro m
    have := h₅ m
    simp only [waits, Std.ExtTreeMap.getElem?_insert, compare_eq_iff_eq]
    grind
  · exact fun m x hm => (h₄ m x hm).trans (Nat.le_succ _)
  · intro m x
    have := h₅ m
    simp only [Std.ExtTreeMap.getElem?_insert, compare_eq_iff_eq]
    grind
  · exact fun m x hm => (h₆ m x hm).trans (Nat.le_succ _)

theorem alike_newCondition (hk : k.Sound g) (h : newCondition k = .ok c k') : Alike k k' := by
  unfold newCondition at h
  simp only [bind_eq_ok, freshObject_eq_ok, modify_eq_ok, pure_eq_ok] at h
  obtain ⟨id, _, ⟨-, rfl, rfl⟩, _, _, rfl, -, rfl⟩ := h
  obtain ⟨-, -, -, h₄, h₅, h₆⟩ := hk.registered
  apply alike_of_objects
  · intro p
    cases p with
    | condition m =>
      have := h₆ m
      simp only [seating, Std.ExtTreeMap.getElem?_insert, compare_eq_iff_eq]
      grind [Queue.empty]
    | _ => rfl
  · exact fun m => rfl
  · exact fun m x hm => (h₄ m x hm).trans (Nat.le_succ _)
  · exact fun m x hm => (h₅ m x hm).trans (Nat.le_succ _)
  · intro m x
    have := h₆ m
    simp only [Std.ExtTreeMap.getElem?_insert, compare_eq_iff_eq]
    grind

/-! ## Objects that are destroyed -/

/-- The queue of a semaphore that is destroyed is empty after that. -/
theorem Sound.eraseSemaphore (hk : k.Sound g) (s : ObjectId) :
    ({ k with objects :=
      { k.objects with semaphores := k.objects.semaphores.erase s } } : Core).Sound
      g := by
  obtain ⟨h₁, h₂, h₃, h₄, h₅, h₆⟩ := hk.registered
  have hseat : ({ k with objects := { k.objects with
      semaphores := k.objects.semaphores.erase s } } : Core).seating =
      k.seating.setQueue (.semaphore s) [] := by
    unfold Core.seating Seating.setQueue
    congr 1
    funext p
    cases p with
    | semaphore m =>
      simp only [Std.ExtTreeMap.getElem?_erase, compare_eq_iff_eq, Function.update_apply,
        Seat.semaphore.injEq]
      grind
    | _ => rfl
  refine ⟨hk.current, hk.idle, hk.handler, ?_, hk.waits, h₁, h₂, h₃, ?_, h₅, h₆⟩
  · rw [hseat]
    exact hk.seating.clear (by simp) (by simp)
  · intro m x
    have := h₄ m x
    simp only [Std.ExtTreeMap.getElem?_erase, compare_eq_iff_eq]
    grind

theorem alike_destroyLock (hk : k.Sound g) {a : Except Refusal Unit}
    (h : destroyLock l k = .ok a k') : Alike k k' := by
  unfold destroyLock at h
  simp only [ask_bind_eq_ok, lock_eq_ok_iff] at h
  obtain ⟨o, ho, h⟩ := h
  cases hoh : o.holder with
  | some t =>
    simp only [hoh, pure_eq_ok] at h
    exact h.2 ▸ .refl k
  | none =>
    simp only [hoh, modify_bind_eq_ok, pure_eq_ok] at h
    obtain ⟨-, rfl⟩ := h
    obtain ⟨-, -, -, h₄, h₅, h₆⟩ := hk.registered
    -- Nobody waits for a lock that nobody holds, so nobody loses a seat.
    have hempty : o.waiters.entries = [] := by
      refine List.eq_nil_iff_forall_not_mem.mpr fun t ht => ?_
      obtain ⟨u, hu⟩ := hk.waits.wired.held t l (waiters_lock ho ▸ ht)
      rw [holder_lock ho, hoh] at hu
      cases hu
    apply alike_of_objects
    · intro p
      cases p with
      | lock m =>
        simp only [seating, Std.ExtTreeMap.getElem?_erase, compare_eq_iff_eq]
        grind
      | _ => rfl
    · intro m
      simp only [waits, Std.ExtTreeMap.getElem?_erase, compare_eq_iff_eq]
      grind
    · exact h₄
    · intro m x
      have := h₅ m x
      simp only [Std.ExtTreeMap.getElem?_erase, compare_eq_iff_eq]
      grind
    · exact h₆

theorem alike_destroySemaphore (hk : k.Sound g) {a : Except Refusal Unit}
    (h : destroySemaphore s k = .ok a k') : Alike k k' := by
  unfold destroySemaphore Core.dropSemaphore at h
  simp only [ask_bind_eq_ok, semaphore_eq_ok_iff] at h
  obtain ⟨o, ho, h⟩ := h
  split at h
  · rename_i hempty
    simp only [modify_bind_eq_ok, pure_eq_ok] at h
    obtain ⟨-, rfl⟩ := h
    obtain ⟨-, -, -, h₄, h₅, h₆⟩ := hk.registered
    have hempty' : o.waiters.entries = [] := List.isEmpty_iff.mp hempty
    apply alike_of_objects
    · intro p
      cases p with
      | semaphore m =>
        simp only [seating, Std.ExtTreeMap.getElem?_erase, compare_eq_iff_eq]
        grind
      | _ => rfl
    · exact fun m => rfl
    · intro m x
      have := h₄ m x
      simp only [Std.ExtTreeMap.getElem?_erase, compare_eq_iff_eq]
      grind
    · exact h₅
    · exact h₆
  · exact (pure_eq_ok.mp h).2 ▸ .refl k

theorem alike_destroyCondition (hk : k.Sound g) {a : Except Refusal Unit}
    (h : destroyCondition c k = .ok a k') : Alike k k' := by
  unfold destroyCondition at h
  simp only [ask_bind_eq_ok, condition_eq_ok_iff] at h
  obtain ⟨o, ho, h⟩ := h
  split at h
  · rename_i hempty
    simp only [modify_bind_eq_ok, pure_eq_ok] at h
    obtain ⟨-, rfl⟩ := h
    obtain ⟨-, -, -, h₄, h₅, h₆⟩ := hk.registered
    have hempty' : o.waiters.entries = [] := List.isEmpty_iff.mp hempty
    apply alike_of_objects
    · intro p
      cases p with
      | condition m =>
        simp only [seating, Std.ExtTreeMap.getElem?_erase, compare_eq_iff_eq]
        grind
      | _ => rfl
    · exact fun m => rfl
    · exact h₄
    · exact h₅
    · intro m x
      have := h₆ m x
      simp only [Std.ExtTreeMap.getElem?_erase, compare_eq_iff_eq]
      grind
  · exact (pure_eq_ok.mp h).2 ▸ .refl k

/-! ## Changes that keep the waiters of a semaphore or condition variable -/

theorem alike_mapSemaphore {o : Semaphore} {f : Semaphore → Semaphore}
    (ho : k.objects.semaphores[s]? = some o) (hf : (f o).waiters = o.waiters) :
    Alike k (k.mapSemaphore s f) := by
  refine ⟨?_, rfl, fun _ hr => hr.mapSemaphore ho, rfl, rfl⟩
  rw [seating_mapSemaphore ho, hf, ← queue_semaphore ho]
  exact congrArg (fun q => ({ k.seating with queue := q } : Seating)) (Function.update_eq_self ..)

theorem alike_mapCondition {o : Condition} {f : Condition → Condition}
    (ho : k.objects.conditions[c]? = some o) (hf : (f o).waiters = o.waiters) :
    Alike k (k.mapCondition c f) := by
  refine ⟨?_, rfl, fun _ hr => hr.mapCondition ho, rfl, rfl⟩
  rw [seating_mapCondition ho, hf, ← queue_condition ho]
  exact congrArg (fun q => ({ k.seating with queue := q } : Seating)) (Function.update_eq_self ..)

end ThreadCore.Core
