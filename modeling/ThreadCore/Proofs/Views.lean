import ThreadCore.Proofs.Donations
import ThreadCore.Proofs.Seating
import ThreadCore.Proofs.Steps

/-!
# The state seen by its rules

The rules of the core speak of three views of its state: who sits where (`Core.seating`), who waits
for whom (`Core.waits`), and the register of live threads and objects (`Core.Registered`). Here is
what a change of one thread or one object does to each view. A change that a view does not show
leaves it alone.
-/

namespace ThreadCore.Core

/-- Who is in which state, sits where and wakes when. -/
def seating (k : Core) : Seating where
  state t := (k.threads[t]?).map Thread.state
  queue
    | .ready => k.ready.entries
    | .sleep => k.sleepers.entries
    | .semaphore s => ((k.objects.semaphores[s]?).map fun o => o.waiters.entries).getD []
    | .lock l => ((k.objects.locks[l]?).map fun o => o.waiters.entries).getD []
    | .condition c => ((k.objects.conditions[c]?).map fun o => o.waiters.entries).getD []
  wakeAt t := (k.threads[t]?).bind Thread.wakeAt
  current := k.current
  idle := k.idle

/-- Who waits for whom. -/
def waits (k : Core) : Waits where
  waitsFor t := (k.threads[t]?).bind Thread.waitsFor
  holder l := (k.objects.locks[l]?).bind Lock.holder
  waiters l := ((k.objects.locks[l]?).map fun o => o.waiters.entries).getD []
  donors t := ((k.threads[t]?).map fun th => th.donors.entries).getD []
  base t := ((k.threads[t]?).map Thread.base).getD 0
  priority t := ((k.threads[t]?).map Thread.priority).getD 0

/-- The parent of a thread, unless the parent has exited. -/
def parentOf (k : Core) (c : ThreadId) : Option ThreadId :=
  (k.threads[c]?).bind fun th => th.family.parent

/-- The record that `p` keeps of `c`. -/
def recordOf (k : Core) (p c : ThreadId) : Option ChildRecord :=
  (k.threads[p]?).bind fun th => th.family.children[c]?

/-- The terms on which the register is in order. -/
structure Terms where
  /-- Whether no canary was overwritten. -/
  pristine : Bool
  /-- Threads whose parent is about to be gone. -/
  strays : List ThreadId

/-- The register of live threads and objects: threads bear the numbers they are kept under, numbers
that are in use were given out, holders live, and a thread with a parent is on record there as one
that has not exited. -/
structure Registered (k : Core) (terms : Terms) : Prop where
  thread : ∀ (t : ThreadId) (th : Thread), k.threads[t]? = some th →
    th.id = t ∧ t < k.nextThread ∧ (terms.pristine = true → th.intact = true)
  parent : ∀ c p, k.parentOf c = some p → c ∉ terms.strays →
    ∃ r, k.recordOf p c = some r ∧ r.status = none
  holder : ∀ l t, k.waits.holder l = some t → ∃ th, k.threads[t]? = some th
  semaphore : ∀ (s : ObjectId) o, k.objects.semaphores[s]? = some o → s ≤ k.objects.lastId
  lock : ∀ (l : ObjectId) o, k.objects.locks[l]? = some o → l ≤ k.objects.lastId
  condition : ∀ (c : ObjectId) o, k.objects.conditions[c]? = some o → c ≤ k.objects.lastId

variable {k k' : Core} {t : ThreadId} {l s c : ObjectId} {terms : Terms}

/-! ## Questions about the views -/

theorem state_eq {th : Thread} (h : k.threads[t]? = some th) :
    k.seating.state t = some th.state := by
  simp [seating, h]

theorem live_of_state {x : ThreadState} (h : k.seating.state t = some x) :
    ∃ th, k.threads[t]? = some th ∧ th.state = x := by
  simpa [seating, Option.map_eq_some_iff] using h

theorem queue_lock {o : Lock} (h : k.objects.locks[l]? = some o) :
    k.seating.queue (.lock l) = o.waiters.entries := by
  simp [seating, h]

theorem queue_semaphore {o : Semaphore} (h : k.objects.semaphores[s]? = some o) :
    k.seating.queue (.semaphore s) = o.waiters.entries := by
  simp [seating, h]

theorem queue_condition {o : Condition} (h : k.objects.conditions[c]? = some o) :
    k.seating.queue (.condition c) = o.waiters.entries := by
  simp [seating, h]

theorem waiters_lock {o : Lock} (h : k.objects.locks[l]? = some o) :
    k.waits.waiters l = o.waiters.entries := by
  simp [waits, h]

theorem holder_lock {o : Lock} (h : k.objects.locks[l]? = some o) :
    k.waits.holder l = o.holder := by
  simp [waits, h]

/-- `t` waits for a lock that `u` holds. -/
def Awaits (k : Core) (t u : ThreadId) : Prop :=
  ∃ th l o, k.threads[t]? = some th ∧ th.waitsFor = some l ∧ k.objects.locks[l]? = some o ∧
    o.holder = some u

theorem awaits_eq (k : Core) : k.Awaits = k.waits.Awaits := by
  funext t u
  rw [Waits.awaits_iff]
  simp only [Awaits, waits, Option.bind_eq_some_iff, eq_iff_iff]
  constructor
  · rintro ⟨th, l, o, hth, hl, ho, hu⟩
    exact ⟨l, ⟨th, hth, hl⟩, o, ho, hu⟩
  · rintro ⟨l, ⟨th, hth, hl⟩, o, ho, hu⟩
    exact ⟨th, l, o, hth, hl, ho, hu⟩

/-! ## Quiet steps -/

theorem Quiet.seating (h : Quiet k k') : k'.seating = k.seating := by
  simp only [Core.seating, h.threads, h.ready, h.sleepers, h.objects, h.current, h.idle]

theorem Quiet.waits (h : Quiet k k') : k'.waits = k.waits := by
  simp only [Core.waits, h.threads, h.objects]

theorem Registered.of_eq (h : k.Registered terms) (ht : k'.threads = k.threads)
    (hn : k'.nextThread = k.nextThread) (ho : k'.objects = k.objects) :
    k'.Registered terms := by
  obtain ⟨h₁, h₂, h₃, h₄, h₅, h₆⟩ := h
  constructor <;> simp only [ht, hn, ho, parentOf, recordOf, waits] <;> assumption

theorem Quiet.registered (h : Quiet k k') (hr : k.Registered terms) :
    k'.Registered terms :=
  hr.of_eq h.threads h.nextThread h.objects

/-! ## Changes of a thread -/

section Thread

variable {f : Thread → Thread}

theorem getElem?_mapThread (k : Core) (t u : ThreadId) (f : Thread → Thread) :
    (k.mapThread t f).threads[u]? =
      if u = t then (k.threads[t]?).map f else k.threads[u]? := by
  simp only [mapThread, Std.ExtTreeMap.getElem?_modify]
  simp only [compare_eq_iff_eq]
  by_cases h : t = u
  · simp [h]
  · simp [h, Ne.symm h]

theorem map_getElem?_mapThread {β : Type} {g : Thread → β} (hg : ∀ th, g (f th) = g th)
    (u : ThreadId) : ((k.mapThread t f).threads[u]?).map g = (k.threads[u]?).map g := by
  rw [getElem?_mapThread]
  split
  · rename_i hu
    subst hu
    cases k.threads[u]? <;> simp [hg]
  · rfl

theorem bind_getElem?_mapThread {β : Type} {g : Thread → Option β} (hg : ∀ th, g (f th) = g th)
    (u : ThreadId) : ((k.mapThread t f).threads[u]?).bind g = (k.threads[u]?).bind g := by
  rw [getElem?_mapThread]
  split
  · rename_i hu
    subst hu
    cases k.threads[u]? <;> simp [hg]
  · rfl

theorem seating_mapThread (hs : ∀ th, (f th).state = th.state)
    (hw : ∀ th, (f th).wakeAt = th.wakeAt) : (k.mapThread t f).seating = k.seating := by
  simp only [seating, map_getElem?_mapThread hs, bind_getElem?_mapThread hw]
  rfl

theorem waits_mapThread (hw : ∀ th, (f th).waitsFor = th.waitsFor)
    (hd : ∀ th, (f th).donors = th.donors) (hb : ∀ th, (f th).base = th.base)
    (hp : ∀ th, (f th).priority = th.priority) : (k.mapThread t f).waits = k.waits := by
  have hd' := map_getElem?_mapThread (k := k) (t := t) (f := f) (g := fun th => th.donors.entries)
    fun th => by rw [hd]
  simp only [waits, hd', map_getElem?_mapThread hb, map_getElem?_mapThread hp,
    bind_getElem?_mapThread hw]
  rfl

/-- A change of a thread leaves the register in order if the thread keeps its number and its family,
and its stack as far as canaries matter. -/
theorem Registered.change (h : k.Registered terms) (hid : ∀ th, (f th).id = th.id)
    (hst : terms.pristine = true → ∀ th, (f th).stack = th.stack)
    (hf : ∀ th, (f th).family = th.family) : (k.mapThread t f).Registered terms := by
  obtain ⟨h₁, h₂, h₃, h₄, h₅, h₆⟩ := h
  refine ⟨?_, ?_, ?_, h₄, h₅, h₆⟩
  · intro u th hu
    rw [getElem?_mapThread] at hu
    split at hu
    · rename_i hut
      obtain ⟨th', hth, rfl⟩ := Option.map_eq_some_iff.mp hu
      subst hut
      obtain ⟨hu, hlt, hi⟩ := h₁ u th' hth
      refine ⟨(hid th').trans hu, hlt, fun hp => ?_⟩
      rw [Thread.intact, hst hp]
      exact hi hp
    · exact h₁ u th hu
  · have hp : ∀ c, (k.mapThread t f).parentOf c = k.parentOf c :=
      bind_getElem?_mapThread fun th => by rw [hf]
    have hr : ∀ p c, (k.mapThread t f).recordOf p c = k.recordOf p c := fun p c =>
      bind_getElem?_mapThread (fun th => by rw [hf]) p
    simp only [hp, hr]
    exact h₂
  · intro l s hs
    obtain ⟨th, hth⟩ := h₃ l s hs
    have := map_getElem?_mapThread (k := k) (t := t) (g := fun th => th.id) hid s
    rw [hth] at this
    obtain ⟨th', hth', -⟩ := Option.map_eq_some_iff.mp this
    exact ⟨th', hth'⟩

theorem Registered.mapThread (h : k.Registered terms) (hid : ∀ th, (f th).id = th.id)
    (hst : ∀ th, (f th).stack = th.stack) (hf : ∀ th, (f th).family = th.family) :
    (k.mapThread t f).Registered terms :=
  h.change hid (fun _ => hst) hf

variable {th : Thread} (ht : k.threads[t]? = some th)

include ht

theorem seating_state (x : ThreadState) :
    (k.mapThread t fun th => { th with state := x }).seating = k.seating.setState t (some x) := by
  unfold seating Seating.setState
  congr 1 <;> funext u <;> simp only [getElem?_mapThread, Function.update_apply] <;>
    split <;> simp_all

theorem seating_wakeAt (o : Option Nat) :
    (k.mapThread t fun th => { th with wakeAt := o }).seating = k.seating.setWakeAt t o := by
  unfold seating Seating.setWakeAt
  congr 1 <;> funext u <;> simp only [getElem?_mapThread, Function.update_apply] <;>
    split <;> simp_all

theorem waits_waitsFor (o : Option ObjectId) :
    (k.mapThread t fun th => { th with waitsFor := o }).waits = k.waits.setWaitsFor t o := by
  unfold waits Waits.setWaitsFor
  congr 1 <;> funext u <;> simp only [getElem?_mapThread, Function.update_apply] <;>
    split <;> simp_all

theorem waits_donors (g : Queue → Queue) :
    (k.mapThread t fun th => { th with donors := g th.donors }).waits =
      k.waits.setDonors t (g th.donors).entries := by
  unfold waits Waits.setDonors
  congr 1 <;> funext u <;> simp only [getElem?_mapThread, Function.update_apply] <;>
    split <;> simp_all

theorem waits_base (p : Priority) :
    (k.mapThread t fun th => { th with base := p }).waits = k.waits.setBase t p := by
  unfold waits Waits.setBase
  congr 1 <;> funext u <;> simp only [getElem?_mapThread, Function.update_apply] <;>
    split <;> simp_all

theorem waits_priority (p : Priority) :
    (k.mapThread t fun th => { th with priority := p }).waits = k.waits.setPriority t p := by
  unfold waits Waits.setPriority
  congr 1 <;> funext u <;> simp only [getElem?_mapThread, Function.update_apply] <;>
    split <;> simp_all

end Thread

/-! ## Changes of a queue -/

theorem seating_ready (q : Queue) :
    ({ k with ready := q } : Core).seating = k.seating.setQueue .ready q.entries := by
  unfold seating Seating.setQueue
  congr 1
  funext p
  cases p <;> simp

theorem seating_sleepers (q : Queue) :
    ({ k with sleepers := q } : Core).seating = k.seating.setQueue .sleep q.entries := by
  unfold seating Seating.setQueue
  congr 1
  funext p
  cases p <;> simp

/-! ## Changes of an object -/

theorem getElem?_mapLock (k : Core) (l m : ObjectId) (f : Lock → Lock) :
    (k.mapLock l f).objects.locks[m]? =
      if m = l then (k.objects.locks[l]?).map f else k.objects.locks[m]? := by
  simp only [mapLock, Std.ExtTreeMap.getElem?_modify, compare_eq_iff_eq]
  by_cases h : l = m
  · simp [h]
  · simp [h, Ne.symm h]

theorem getElem?_mapSemaphore (k : Core) (s m : ObjectId) (f : Semaphore → Semaphore) :
    (k.mapSemaphore s f).objects.semaphores[m]? =
      if m = s then (k.objects.semaphores[s]?).map f else k.objects.semaphores[m]? := by
  simp only [mapSemaphore, Std.ExtTreeMap.getElem?_modify, compare_eq_iff_eq]
  by_cases h : s = m
  · simp [h]
  · simp [h, Ne.symm h]

theorem getElem?_mapCondition (k : Core) (c m : ObjectId) (f : Condition → Condition) :
    (k.mapCondition c f).objects.conditions[m]? =
      if m = c then (k.objects.conditions[c]?).map f else k.objects.conditions[m]? := by
  simp only [mapCondition, Std.ExtTreeMap.getElem?_modify, compare_eq_iff_eq]
  by_cases h : c = m
  · simp [h]
  · simp [h, Ne.symm h]

section Lock

variable {f : Lock → Lock} {o : Lock} (ho : k.objects.locks[l]? = some o)

include ho

theorem seating_mapLock :
    (k.mapLock l f).seating = k.seating.setQueue (.lock l) (f o).waiters.entries := by
  unfold seating Seating.setQueue
  congr 1
  funext p
  cases p with
  | lock m =>
    simp only [getElem?_mapLock, Function.update_apply, Seat.lock.injEq]
    split <;> simp_all
  | _ => rfl

theorem waits_mapLock :
    (k.mapLock l f).waits =
      (k.waits.setHolder l (f o).holder).setWaiters l (f o).waiters.entries := by
  unfold waits Waits.setHolder Waits.setWaiters
  congr 1 <;> funext m <;> simp only [getElem?_mapLock, Function.update_apply] <;>
    split <;> simp_all

theorem Registered.mapLock (h : k.Registered terms)
    (hh : ∀ t, (f o).holder = some t → ∃ th, k.threads[t]? = some th) :
    (k.mapLock l f).Registered terms := by
  obtain ⟨h₁, h₂, h₃, h₄, h₅, h₆⟩ := h
  refine ⟨h₁, h₂, ?_, h₄, ?_, h₆⟩
  · intro m t ht
    rw [waits_mapLock ho] at ht
    simp only [Waits.setWaiters, Waits.setHolder, Function.update_apply] at ht
    split at ht
    · exact hh t ht
    · exact h₃ m t ht
  · intro m o' hm
    rw [getElem?_mapLock] at hm
    split at hm
    · rename_i hml
      exact hml ▸ h₅ l o ho
    · exact h₅ m o' hm

end Lock

section Semaphore

variable {f : Semaphore → Semaphore} {o : Semaphore} (ho : k.objects.semaphores[s]? = some o)

include ho

theorem seating_mapSemaphore :
    (k.mapSemaphore s f).seating = k.seating.setQueue (.semaphore s) (f o).waiters.entries := by
  unfold seating Seating.setQueue
  congr 1
  funext p
  cases p with
  | semaphore m =>
    simp only [getElem?_mapSemaphore, Function.update_apply, Seat.semaphore.injEq]
    split <;> simp_all
  | _ => rfl

theorem Registered.mapSemaphore (h : k.Registered terms) :
    (k.mapSemaphore s f).Registered terms := by
  obtain ⟨h₁, h₂, h₃, h₄, h₅, h₆⟩ := h
  refine ⟨h₁, h₂, h₃, ?_, h₅, h₆⟩
  intro m o' hm
  rw [getElem?_mapSemaphore] at hm
  split at hm
  · rename_i hms
    exact hms ▸ h₄ s o ho
  · exact h₄ m o' hm

end Semaphore

section Condition

variable {f : Condition → Condition} {o : Condition} (ho : k.objects.conditions[c]? = some o)

include ho

theorem seating_mapCondition :
    (k.mapCondition c f).seating = k.seating.setQueue (.condition c) (f o).waiters.entries := by
  unfold seating Seating.setQueue
  congr 1
  funext p
  cases p with
  | condition m =>
    simp only [getElem?_mapCondition, Function.update_apply, Seat.condition.injEq]
    split <;> simp_all
  | _ => rfl

theorem Registered.mapCondition (h : k.Registered terms) :
    (k.mapCondition c f).Registered terms := by
  obtain ⟨h₁, h₂, h₃, h₄, h₅, h₆⟩ := h
  refine ⟨h₁, h₂, h₃, h₄, h₅, ?_⟩
  intro m o' hm
  rw [getElem?_mapCondition] at hm
  split at hm
  · rename_i hmc
    exact hmc ▸ h₆ c o ho
  · exact h₆ m o' hm

end Condition

end ThreadCore.Core
