import ThreadCore.Core.Audit
import ThreadCore.Proofs.Chains

/-!
# The audit passes

A state that obeys the rules passes the audit, provided that no canary was overwritten
(`Sound.validate`). The queues that the audit looks at are the seats (`queues_eq`), so nobody is in
two of them (`Sound.nodup_queues`).
-/

namespace ThreadCore

theorem values_eq {α β : Type} {cmp : α → α → Ordering} [Std.TransCmp cmp]
    (m : Std.ExtTreeMap α β cmp) : m.values = m.toList.map Prod.snd := by
  obtain ⟨⟨q⟩⟩ := m
  induction q using Quotient.ind with
  | _ t =>
    show t.inner.values = (Std.DTreeMap.Internal.Impl.Const.toList t.inner).map Prod.snd
    rw [Std.DTreeMap.Internal.Impl.values_eq_map_snd,
      Std.DTreeMap.Internal.Impl.Const.toList_eq_toListModel_map]
    simp

theorem nodup_toList {α β : Type} {cmp : α → α → Ordering} [Std.TransCmp cmp]
    (m : Std.ExtTreeMap α β cmp) : m.toList.Nodup := by
  have h := m.nodup_keys
  rw [← Std.ExtTreeMap.map_fst_toList_eq_keys] at h
  exact h.of_map

theorem forM_ok {α : Type} {f : α → Except Halt Unit} {l : List α} (h : ∀ a ∈ l, f a = .ok ()) :
    l.forM f = .ok () := by
  induction l with
  | nil => rfl
  | cons a l ih =>
    show (f a >>= fun _ => l.forM f) = _
    rw [h a List.mem_cons_self]
    exact ih fun b hb => h b (List.mem_cons_of_mem a hb)

namespace Core

variable {k : Core} {g : Stage} {t : ThreadId}

/-! ## Seats and queues -/

/-- Every seat that there is. -/
def seats (k : Core) : List Seat :=
  .ready :: .sleep :: (k.objects.semaphores.keys.map .semaphore ++ k.objects.locks.keys.map .lock ++
    k.objects.conditions.keys.map .condition)

theorem nodup_seats (k : Core) : k.seats.Nodup := by
  have h₁ := k.objects.semaphores.nodup_keys.map fun _ _ h => Seat.semaphore.inj h
  have h₂ := k.objects.locks.nodup_keys.map fun _ _ h => Seat.lock.inj h
  have h₃ := k.objects.conditions.nodup_keys.map fun _ _ h => Seat.condition.inj h
  unfold seats
  refine List.nodup_cons.mpr ⟨by simp, List.nodup_cons.mpr ⟨by simp, ?_⟩⟩
  refine List.Nodup.append (List.Nodup.append h₁ h₂ ?_) h₃ ?_
  · simp [List.disjoint_left]
  · intro p hp hq
    simp only [List.mem_append, List.mem_map] at hp hq
    grind

theorem map_waiters {β : Type} (m : Std.ExtTreeMap ObjectId β) (place : Place) (waiters : β → Queue)
    (seat : ObjectId → Seat)
    (h : ∀ (i : ObjectId) o, m[i]? = some o → k.seating.queue (seat i) = (waiters o).entries) :
    (m.toList.map fun e => (place, waiters e.2)).map (fun e => e.2.entries) =
      (m.keys.map seat).map k.seating.queue := by
  rw [← Std.ExtTreeMap.map_fst_toList_eq_keys, List.map_map, List.map_map, List.map_map]
  refine List.map_congr_left fun e he => ?_
  exact (h e.1 e.2 (Std.ExtTreeMap.mem_toList_iff_getElem?_eq_some.mp he)).symm

/-- The queues that the audit looks at are the seats. -/
theorem queues_eq (k : Core) :
    k.queues.map (fun e => e.2.entries) = k.seats.map k.seating.queue := by
  have h₁ := map_waiters k.objects.semaphores .semaphore Semaphore.waiters .semaphore
    fun i o h => queue_semaphore (k := k) h
  have h₂ := map_waiters k.objects.locks .lock Lock.waiters .lock
    fun i o h => queue_lock (k := k) h
  have h₃ := map_waiters k.objects.conditions .condition Condition.waiters .condition
    fun i o h => queue_condition (k := k) h
  unfold queues seats Objects.waitLists
  rw [List.map_cons, List.map_cons, List.map_cons, List.map_cons, List.map_append, List.map_append,
    List.map_append, List.map_append]
  exact congrArg₂ _ rfl (congrArg₂ _ rfl (congrArg₂ _ (congrArg₂ _ h₁ h₂) h₃))

/-- Whoever sits somewhere is ready, sleeps or is in the queue of an object. -/
theorem mem_waitLists {p : Seat} (ht : t ∈ k.seating.queue p) :
    t ∈ k.ready ∨ t ∈ k.sleepers ∨ ∃ e ∈ k.objects.waitLists, t ∈ e.2 := by
  have hmem : ∀ {β : Type} {m : Std.ExtTreeMap ObjectId β} {i : ObjectId} {o : β} {place : Place}
      {waiters : β → Queue}, m[i]? = some o →
      (place, waiters o) ∈ m.toList.map fun e => (place, waiters e.2) := by
    intro β m i o place waiters ho
    exact List.mem_map.mpr ⟨(i, o), Std.ExtTreeMap.mem_toList_iff_getElem?_eq_some.mpr ho, rfl⟩
  unfold Objects.waitLists
  cases p with
  | ready => exact .inl ht
  | sleep => exact .inr (.inl ht)
  | semaphore s =>
    cases ho : k.objects.semaphores[s]? with
    | none => simp [seating, ho] at ht
    | some o =>
      rw [queue_semaphore ho] at ht
      exact .inr (.inr ⟨_, List.mem_append_left _ (List.mem_append_left _ (hmem ho)), ht⟩)
  | lock l =>
    cases ho : k.objects.locks[l]? with
    | none => simp [seating, ho] at ht
    | some o =>
      rw [queue_lock ho] at ht
      exact .inr (.inr ⟨_, List.mem_append_left _ (List.mem_append_right _ (hmem ho)), ht⟩)
  | condition c =>
    cases ho : k.objects.conditions[c]? with
    | none => simp [seating, ho] at ht
    | some o =>
      rw [queue_condition ho] at ht
      exact .inr (.inr ⟨_, List.mem_append_right _ (hmem ho), ht⟩)

/-- Nobody is in two queues, or twice in one. -/
theorem Sound.nodup_queues (hk : k.Sound g) : (k.queues.flatMap fun e => e.2.entries).Nodup := by
  rw [List.flatMap_def, queues_eq, ← List.flatMap_def, List.nodup_flatMap]
  refine ⟨fun p _ => hk.seating.nodup p, ?_⟩
  refine k.nodup_seats.imp fun {p q} hpq => ?_
  intro t hp hq
  exact hpq (hk.seating.one_seat t p q hp hq)

/-! ## The checks -/

section

variable (hk : k.Sound g) (hg : g.state = .running)

include hk hg

theorem Sound.state_of_mem {p : Seat} (ht : t ∈ k.seating.queue p) :
    ∃ th, k.threads[t]? = some th ∧ th.state = p.state := by
  have hs := hk.seating.seated t p ht
  rw [Seating.about_of_ne (hk.ne_current_of_mem hg ht)] at hs
  exact live_of_state hs

/-- Every entry passes the check of its queue. -/
theorem Sound.auditEntry {e : Place × Queue} (he : e ∈ k.queues) (ht : t ∈ e.2.entries) :
    k.auditEntry e.1 t = .ok () := by
  have hwaiter : ∀ place, ∀ p : Seat, p.state = .blocked → t ∈ k.seating.queue p →
      k.auditWaiter place t = .ok () := by
    intro place p hp ht
    obtain ⟨th, hth, hs⟩ := hk.state_of_mem hg ht
    unfold auditWaiter
    simp only [except_bind_ok, thread_eq_ok_iff, demand_ok]
    exact ⟨th, hth, hs.trans hp⟩
  unfold queues Objects.waitLists at he
  simp only [List.mem_cons, List.mem_append, List.mem_map] at he
  rcases he with rfl | rfl | (⟨⟨i, o⟩, ho, rfl⟩ | ⟨⟨i, o⟩, ho, rfl⟩) | ⟨⟨i, o⟩, ho, rfl⟩
  · obtain ⟨th, hth, hs⟩ := hk.state_of_mem hg (p := .ready) ht
    show k.auditReady t = _
    unfold auditReady
    simp only [except_bind_ok, thread_eq_ok_iff, demand_ok]
    exact ⟨(), hk.ne_idle_of_mem (p := .ready) ht, th, hth, hs⟩
  · obtain ⟨th, hth, hs⟩ := hk.state_of_mem hg (p := .sleep) ht
    have hw := (hk.seating.wakeAt_iff t).mpr ht
    simp only [Core.seating, hth, Option.bind_some] at hw
    show k.auditSleeper t = _
    unfold auditSleeper
    simp only [except_bind_ok, thread_eq_ok_iff, demand_ok]
    exact ⟨th, hth, (), hs, hw⟩
  · rw [Std.ExtTreeMap.mem_toList_iff_getElem?_eq_some] at ho
    exact hwaiter .semaphore (.semaphore i) rfl ((queue_semaphore ho).symm ▸ ht)
  · rw [Std.ExtTreeMap.mem_toList_iff_getElem?_eq_some] at ho
    exact hwaiter .lock (.lock i) rfl ((queue_lock ho).symm ▸ ht)
  · rw [Std.ExtTreeMap.mem_toList_iff_getElem?_eq_some] at ho
    exact hwaiter .condition (.condition i) rfl ((queue_condition ho).symm ▸ ht)

end

theorem auditEntries_ok {place : Place} {seen : List (ThreadId × Place)} {ts : List ThreadId}
    (he : ∀ t ∈ ts, k.auditEntry place t = .ok ()) (hn : ts.Nodup)
    (hs : ∀ t ∈ ts, t ∉ seen.map Prod.fst) :
    ∃ seen', k.auditEntries place seen ts = .ok seen' ∧
      ∀ t, t ∈ seen'.map Prod.fst ↔ t ∈ ts ∨ t ∈ seen.map Prod.fst := by
  induction ts generalizing seen with
  | nil => exact ⟨seen, rfl, by simp⟩
  | cons t ts ih =>
    obtain ⟨ht, hn⟩ := List.nodup_cons.mp hn
    have hlookup : seen.lookup t = none := by
      rw [List.lookup_eq_none_iff]
      intro e hem
      have := hs t List.mem_cons_self
      simp only [List.mem_map, not_exists, not_and] at this
      simpa using fun h => this e hem h.symm
    have hs' : ∀ u ∈ ts, u ∉ ((t, place) :: seen).map Prod.fst := by
      intro u hu
      rw [List.map_cons, List.mem_cons, not_or]
      exact ⟨ne_of_mem_of_not_mem hu ht, hs u (List.mem_cons_of_mem t hu)⟩
    obtain ⟨seen', h, hmem⟩ := ih (fun u hu => he u (List.mem_cons_of_mem t hu)) hn hs'
    refine ⟨seen', ?_, fun u => ?_⟩
    · unfold auditEntries enroll
      rw [he t List.mem_cons_self, hlookup]
      exact h
    · rw [hmem, List.map_cons, List.mem_cons, List.mem_cons]
      tauto

theorem auditQueues_ok {seen : List (ThreadId × Place)} {qs : List (Place × Queue)}
    (he : ∀ e ∈ qs, ∀ t ∈ e.2.entries, k.auditEntry e.1 t = .ok ())
    (hn : (qs.flatMap fun e => e.2.entries).Nodup)
    (hs : ∀ e ∈ qs, ∀ t ∈ e.2.entries, t ∉ seen.map Prod.fst) :
    k.auditQueues seen qs = .ok () := by
  induction qs generalizing seen with
  | nil => rfl
  | cons e qs ih =>
    rw [List.flatMap_cons, List.nodup_append'] at hn
    obtain ⟨hn₁, hn₂, hd⟩ := hn
    obtain ⟨seen', h, hmem⟩ :=
      auditEntries_ok (he e List.mem_cons_self) hn₁ (hs e List.mem_cons_self)
    unfold auditQueues
    rw [h]
    refine ih (fun e' he' => he e' (List.mem_cons_of_mem e he')) hn₂ fun e' he' t ht => ?_
    rw [hmem, not_or]
    refine ⟨fun ht' => ?_, hs e' (List.mem_cons_of_mem e he') t ht⟩
    exact hd ht' (List.mem_flatMap.mpr ⟨e', he', ht⟩)

/-- If only the current thread is running, it is the only one that is listed. -/
theorem runningThreads_of_alone {th : Thread} (hth : k.threads[k.current]? = some th)
    (hs : th.state = .running) (hid : th.id = k.current)
    (halone : ∀ t th, k.threads[t]? = some th → th.state = .running → t = k.current) :
    k.runningThreads = [k.current] := by
  have hfilter : k.threads.toList.filter (fun e => e.2.state = .running) = [(k.current, th)] := by
    refine List.perm_singleton.mp ((List.perm_ext_iff_of_nodup
      ((nodup_toList _).filter _) (List.nodup_singleton _)).mpr fun e => ?_)
    obtain ⟨t, th'⟩ := e
    rw [List.mem_filter, List.mem_singleton, Std.ExtTreeMap.mem_toList_iff_getElem?_eq_some,
      decide_eq_true_iff]
    constructor
    · rintro ⟨hth', hr⟩
      have htc := halone t th' hth' hr
      subst htc
      rw [hth'] at hth
      cases hth
      rfl
    · rintro h
      cases h
      exact ⟨hth, hs⟩
  unfold Core.runningThreads
  rw [values_eq, List.filter_map]
  have : (fun th : Thread => decide (th.state = .running)) ∘ Prod.snd =
      fun e : ThreadId × Thread => decide (e.2.state = .running) := rfl
  rw [this, hfilter]
  simp [hid]

/-- Only the current thread runs. -/
theorem Sound.runningThreads (hk : k.Sound g) : k.runningThreads = [k.current] := by
  have hrun : k.seating.state k.current = some .running := hk.seating.current_running
  obtain ⟨th, hth, hs⟩ := live_of_state hrun
  refine runningThreads_of_alone hth hs (hk.registered.thread _ _ hth).1 fun t th' hth' hr => ?_
  by_contra hne
  rcases hk.seating.other_state t _ hne (state_eq hth') with h | h <;> simp [h] at hr

theorem Sound.auditThread (hk : k.Sound g) (hp : g.terms.pristine = true)
    {th : Thread} (hth : k.threads[t]? = some th) : k.auditThread th = .ok () := by
  obtain ⟨hid, -, hi⟩ := hk.registered.thread t th hth
  subst hid
  have hready : th.state = .ready → th.id ∈ k.ready := by
    intro hs
    refine hk.seating.ready_seated th.id ?_
    by_cases htc : th.id = k.current
    · have hc := state_eq hth
      rw [htc, show k.seating.state k.current = some .running from hk.seating.current_running,
        hs] at hc
      cases hc
    · rw [Seating.about_of_ne htc, state_eq hth, hs]
  have hprio : k.greatestPriority th.base th.donors.entries = .ok th.priority := by
    rw [greatestPriority_eq_ok]
    constructor
    · intro d hd
      have hd' : d ∈ k.waits.donors th.id := by simpa [Core.waits, hth] using hd
      obtain ⟨l, hl, -⟩ := Waits.awaits_iff.mp ((hk.waits.wired.mem_donors _ _).mp hd')
      exact hk.live_of_mem (p := .lock l) ((hk.waits.wired.waitsFor_iff d l).mp hl)
    · have hb := hk.waits.balanced th.id
      simpa [Waits.due, Core.waits, hth] using hb
  unfold Core.auditThread
  simp only [except_bind_ok, demand_ok]
  refine ⟨(), hi hp, (), hready, ?_⟩
  cases hw : th.waitsFor with
  | none =>
    simp only [except_bind_ok, demand_ok]
    exact ⟨_, hprio, rfl⟩
  | some l =>
    have hmem : th.id ∈ k.seating.queue (.lock l) :=
      (hk.waits.wired.waitsFor_iff th.id l).mp (by simp [Core.waits, hth, hw])
    cases ho : k.objects.locks[l]? with
    | none => simp [Core.seating, ho] at hmem
    | some o =>
      rw [queue_lock ho] at hmem
      simp only [except_bind_ok, demand_ok, lock_eq_ok_iff]
      exact ⟨o, ho, (), hmem, _, hprio, rfl⟩

/-- **The audit passes** if no canary was overwritten. -/
theorem Sound.validate (hk : k.Sound g) (hg : g.state = .running) (hp : g.terms.pristine = true) :
    k.validate = .ok () := by
  unfold Core.validate
  simp only [except_bind_ok, demand_ok]
  refine ⟨(), hk.runningThreads, (), ?_, ?_⟩
  · exact auditQueues_ok (fun e he t ht => hk.auditEntry hg he ht) hk.nodup_queues (by simp)
  · refine forM_ok fun th hth => ?_
    rw [values_eq, List.mem_map] at hth
    obtain ⟨⟨t, th'⟩, he, rfl⟩ := hth
    exact hk.auditThread hp (Std.ExtTreeMap.mem_toList_iff_getElem?_eq_some.mp he)

end Core

end ThreadCore
