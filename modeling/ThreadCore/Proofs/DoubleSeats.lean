import ThreadCore.Proofs.Successions

/-!
# Threads in two queues

A thread is in at most one queue (`Core.SeatedOnce`). A thread that is woken leaves the queue it
waited in before it is made ready: a sweep takes it from the sleepers, and whoever brings a unit or
hands over a lock takes it from the waiters. `unblock` alone makes any blocked thread ready, and
leaves all other queues as they are.

So in a run in which the idle thread waits nowhere, a thread is in two queues only after a thread
was unblocked that was asleep or in the queue of an object (`Entry.Displaces`). Right after such a
call it is in both, and the audit halts (`Session.logged_seatedOnce`).
-/

namespace ThreadCore

namespace Core

variable {k k' : Core} {t : ThreadId} {p : Seat} {u : Unit}

/-- Nobody is in two queues, or twice in one. -/
structure SeatedOnce (k : Core) : Prop where
  one_seat : ∀ t p q, t ∈ k.seating.queue p → t ∈ k.seating.queue q → p = q
  nodup : ∀ p, (k.seating.queue p).Nodup

theorem InOrder.seatedOnce {pristine : Bool} (hk : k.InOrder pristine) : k.SeatedOnce :=
  ⟨hk.seating.one_seat, hk.seating.nodup⟩

/-- An unblocked thread lines up, and stays where it was besides. -/
theorem unblock_queue (h : unblock t k = .ok u k') :
    t ∈ k'.ready ∧ ∀ p, p ≠ .ready → k'.seating.queue p = k.seating.queue p := by
  have hseat := (unblock_views h).1
  have hready : k'.ready.entries = k.ready.entries ++ [t] := by
    have := congrArg (fun s => s.queue .ready) hseat
    simpa [Seating.setQueue, seating] using this
  refine ⟨?_, fun p hp => ?_⟩
  · rw [Queue.mem_def, hready]
    exact List.mem_append_right _ (List.mem_singleton_self _)
  · rw [hseat]
    simp [Seating.setQueue, Seating.setState, hp]

/-! ## What an audit has found -/

theorem auditEntry_of_auditEntries {place : Place} {seen seen' : List (ThreadId × Place)}
    {ts : List ThreadId} (h : k.auditEntries place seen ts = .ok seen') (ht : t ∈ ts) :
    k.auditEntry place t = .ok () := by
  induction ts generalizing seen with
  | nil => cases ht
  | cons v vs ih =>
    unfold auditEntries at h
    simp only [except_bind_ok] at h
    obtain ⟨_, hv, _, -, h⟩ := h
    rcases List.mem_cons.mp ht with rfl | ht
    · exact hv
    · exact ih h ht

theorem auditEntry_of_auditQueues {seen : List (ThreadId × Place)} {qs : List (Place × Queue)}
    (h : k.auditQueues seen qs = .ok ()) {e : Place × Queue} (he : e ∈ qs) (ht : t ∈ e.2) :
    k.auditEntry e.1 t = .ok () := by
  induction qs generalizing seen with
  | nil => cases he
  | cons q qs ih =>
    unfold auditQueues at h
    simp only [except_bind_ok] at h
    obtain ⟨_, hq, h⟩ := h
    rcases List.mem_cons.mp he with rfl | he
    · exact auditEntry_of_auditEntries hq ht
    · exact ih h he

/-- The queue of a seat is among those that the audit looks at. -/
theorem exists_queue (hp : p ≠ .ready) (ht : t ∈ k.seating.queue p) :
    ∃ e ∈ k.queues, e.1 ≠ .readyQueue ∧ t ∈ e.2 := by
  unfold queues Objects.waitLists
  simp only [List.mem_cons, List.mem_append, List.mem_map, Prod.exists,
    Std.ExtTreeMap.mem_toList_iff_getElem?_eq_some]
  cases p with
  | ready => exact absurd rfl hp
  | sleep => exact ⟨_, k.sleepers, .inr (.inl rfl), by decide, ht⟩
  | semaphore s =>
    cases ho : k.objects.semaphores[s]? with
    | none => simp [seating, ho] at ht
    | some o =>
      rw [queue_semaphore ho] at ht
      exact ⟨_, o.waiters, .inr (.inr (.inl (.inl ⟨s, o, ho, rfl⟩))), by decide, ht⟩
  | lock l =>
    cases ho : k.objects.locks[l]? with
    | none => simp [seating, ho] at ht
    | some o =>
      rw [queue_lock ho] at ht
      exact ⟨_, o.waiters, .inr (.inr (.inl (.inr ⟨l, o, ho, rfl⟩))), by decide, ht⟩
  | condition c =>
    cases ho : k.objects.conditions[c]? with
    | none => simp [seating, ho] at ht
    | some o =>
      rw [queue_condition ho] at ht
      exact ⟨_, o.waiters, .inr (.inr (.inr ⟨c, o, ho, rfl⟩)), by decide, ht⟩

/-- In a core that passes the audit, those who sleep or wait are blocked. -/
theorem state_of_validate (h : k.validate = .ok ()) (hp : p ≠ .ready) (ht : t ∈ k.seating.queue p) :
    k.seating.state t = some .blocked := by
  unfold validate at h
  simp only [except_bind_ok] at h
  obtain ⟨_, -, _, hqueues, -⟩ := h
  obtain ⟨⟨place, q⟩, he, hplace, ht⟩ := exists_queue hp ht
  have hentry : k.auditEntry place t = .ok () := auditEntry_of_auditQueues hqueues he ht
  suffices hb : ∃ th, k.threads[t]? = some th ∧ th.state = .blocked by
    obtain ⟨th, hth, hb⟩ := hb
    rw [state_eq hth, hb]
  cases place with
  | readyQueue => exact absurd rfl hplace
  | sleepList =>
    unfold auditEntry auditSleeper at hentry
    simp only [except_bind_ok, thread_eq_ok_iff, demand_ok] at hentry
    obtain ⟨th, hth, -, hb, -⟩ := hentry
    exact ⟨th, hth, hb⟩
  | semaphore | lock | condition =>
    unfold auditEntry auditWaiter at hentry
    simpa only [except_bind_ok, thread_eq_ok_iff, demand_ok] using hentry

end Core

/-- The transition unblocks a thread that sleeps or is in the queue of an object. -/
def Entry.Displaces (e : Entry) : Prop :=
  ∃ t a p, e.deed = .call (.unblock t) a ∧ p ≠ .ready ∧ t ∈ e.before.core.seating.queue p

namespace Session

variable {s s' : Session} {c : Call} {a : Answer} {d : Deed} {t : ThreadId} {log : List Entry}
  {frames : List Bool}

/-- If the idle thread makes the call, it does not wait for it in a queue. -/
def IdleStands (s : Session) (c : Call) : Prop := s.core.current = s.core.idle → ¬ s.Queues c

theorem IdleStands.of_ne (h : s.core.current ≠ s.core.idle) : IdleStands s c :=
  fun hi => absurd hi h

/-- A transition keeps the rules, unless it unblocks a thread that waits or lets the idle thread
wait. -/
theorem leads_inOrder_of_not_displaces (hk : s.core.InOrder false) (h : Leads s d s')
    (hidle : ∀ c a, d = .call c a → IdleStands s c)
    (hd : ¬ Entry.Displaces ⟨s, d, s'⟩) : s'.core.InOrder false := by
  refine leads_inOrder hk h fun c a hc he => ?_
  by_cases hu : ∃ t, c = .unblock t
  · obtain ⟨t, rfl⟩ := hu
    obtain ⟨u, k, hx, rfl⟩ := act_eq_ok he
    refine (hk.unblock (fun p hp => ?_) hx).inOrder rfl rfl
    by_cases hready : p = .ready
    · subst hready
      obtain ⟨th, hth, hs⟩ := hk.state_of_mem rfl hp
      have hblocked := (Core.unblock_state hx).1
      rw [Core.state_eq hth, hs] at hblocked
      cases hblocked
    · exact hd ⟨t, a, p, hc, hready, hp⟩
  · exact Considerate.inOrder ⟨fun t ht => absurd ⟨t, ht⟩ hu, hidle c a hc⟩ hk he

theorem Logged.inOrder_or_displaces
    (h : Logged (fun _ => IdleStands) log frames s) :
    s.core.InOrder false ∨ ∃ e ∈ log, e.Displaces := by
  refine h.invariant (P := fun log s => s.core.InOrder false ∨ ∃ e ∈ log, e.Displaces)
    (fun _ _ _ _ hk => .inl (inOrder_weaken (reached_boot hk).1)) ?_
  intro log frames s d s' _ ih hd hidle
  rcases ih with hk | ⟨e, he, hdis⟩
  · by_cases hdis : Entry.Displaces ⟨s, d, s'⟩
    · exact .inr ⟨_, List.mem_cons_self, hdis⟩
    · exact .inl (leads_inOrder_of_not_displaces hk hd hidle hdis)
  · exact .inr ⟨e, List.mem_cons_of_mem _ he, hdis⟩

/-- What holds right after a thread was unblocked. -/
structure Unblocked (t : ThreadId) (e : Entry) : Prop where
  ready : t ∈ e.after.core.ready
  alone_iff : (∀ p, p ≠ .ready → t ∉ e.after.core.seating.queue p) ↔ ¬ e.Displaces
  /-- The thread is in two queues, and the audit notices. -/
  twice : e.Displaces → ¬ e.after.core.SeatedOnce ∧ ∀ a s', execute .validate e.after ≠ .ok a s'

theorem unblocked (h : execute (.unblock t) s = .ok a s') :
    Unblocked t ⟨s, .call (.unblock t) a, s'⟩ := by
  obtain ⟨u, k, hx, rfl⟩ := act_eq_ok h
  obtain ⟨hready, hqueue⟩ := Core.unblock_queue hx
  have hstays : Entry.Displaces ⟨s, .call (.unblock t) a, s'⟩ →
      ∃ p, p ≠ .ready ∧ t ∈ s'.core.seating.queue p := by
    rintro ⟨v, b, p, hv, hp, hmem⟩
    cases hv
    exact ⟨p, hp, (hqueue p hp).symm ▸ hmem⟩
  refine ⟨hready, ⟨fun hnone hd => ?_, fun hd p hp hmem => ?_⟩, fun hd => ?_⟩
  · obtain ⟨p, hp, hmem⟩ := hstays hd
    exact hnone p hp hmem
  · exact hd ⟨t, a, p, rfl, hp, hqueue p hp ▸ hmem⟩
  · obtain ⟨p, hp, hmem⟩ := hstays hd
    refine ⟨fun hs => hp (hs.one_seat t p .ready hmem hready), fun b s'' hv => ?_⟩
    unfold execute inquire at hv
    simp only [onCore_bind_eq_ok, Core.ask_eq_ok_iff] at hv
    obtain ⟨_, _, ⟨hv, -⟩, -⟩ := hv
    have hblocked := Core.state_of_validate hv hp hmem
    have := (Core.unblock_state hx).2
    rw [hblocked] at this
    cases this

/-- **Nobody is in two queues.** In every state of a run in which the idle thread waits nowhere,
every thread is in one queue at most, unless a thread was unblocked that slept or was in the queue
of an object. An unblocked thread is in the ready queue, and in no other queue unless it was
unblocked in such a place: then it is in both, and the audit halts. -/
theorem logged_seatedOnce
    (h : Logged (fun _ => IdleStands) log frames s) :
    (s.core.SeatedOnce ∨ ∃ e ∈ log, e.Displaces) ∧
    ∀ e ∈ log, ∀ t a, e.deed = .call (.unblock t) a → Unblocked t e := by
  refine ⟨h.inOrder_or_displaces.imp_left Core.InOrder.seatedOnce, fun e he t a hd => ?_⟩
  obtain ⟨later, earlier, rfl⟩ := List.append_of_mem he
  obtain ⟨_, _, -, hleads, -⟩ := h.of_append
  obtain ⟨before, deed, after⟩ := e
  cases hd
  cases hleads with
  | call hx => exact unblocked hx

/-- A thread blocks, in no queue, and is unblocked: it is in the ready queue alone. -/
theorem logged_seatedOnce_blocked : ∃ log s e,
    Logged (fun _ => IdleStands) log [] s ∧ e ∈ log ∧
    e.deed = .call (.unblock 3) (.done .nothing) ∧ 3 ∈ e.after.core.ready ∧
    (∀ p, p ≠ .ready → 3 ∉ e.after.core.seating.queue p) ∧ s.core.SeatedOnce := by
  have hrun :
      (replayFrom (fun _ s _ => s.core.current != s.core.idle) ⟨none, none, none, false, none⟩
      [.create "blocks" 40, .disableInterrupts, .block, .unblock 3]).any (fun r =>
        r.1.head?.any (fun e => e.deed = .call (.unblock 3) (.done .nothing) ∧
          ∀ q ∈ e.after.core.queues, q.1 ≠ .readyQueue → 3 ∉ q.2) = true ∧
        r.1.tail.map Entry.deed =
          [.call .block (.done .nothing), .call .disableInterrupts (.done .nothing),
          .call (.create "blocks" 40) (.done (.number 3))]) = true := by
    decide +kernel
  obtain ⟨⟨log, s⟩, hs, hrun⟩ := (Option.any_eq_true _ _).mp hrun
  obtain ⟨hlast, hearlier⟩ := of_decide_eq_true hrun
  obtain ⟨e, he, hlast⟩ := (Option.any_eq_true _ _).mp hlast
  obtain ⟨hdeed, hqueues⟩ := of_decide_eq_true hlast
  have hlog : Logged (fun _ => IdleStands) log [] s :=
    logged_replayFrom (fun _ s c hc => .of_ne (bne_iff_ne.mp hc)) hs
  have hmem : e ∈ log := List.mem_of_mem_head? he
  have halone : ∀ p, p ≠ .ready → 3 ∉ e.after.core.seating.queue p := by
    intro p hp ht
    obtain ⟨q, hq, hplace, ht⟩ := Core.exists_queue hp ht
    exact hqueues q hq hplace ht
  obtain ⟨hseats, hunblocked⟩ := logged_seatedOnce hlog
  have hu := hunblocked e hmem 3 _ hdeed
  refine ⟨log, s, e, hlog, hmem, hdeed, hu.ready, halone, hseats.resolve_right ?_⟩
  rintro ⟨e', he', hd⟩
  obtain ⟨earlier, rfl⟩ : ∃ earlier, log = e :: earlier := List.head?_eq_some_iff.mp he
  rcases List.mem_cons.mp he' with rfl | he'
  · exact hu.alone_iff.mp halone hd
  · obtain ⟨t, a, p, hdeed', -⟩ := hd
    have hmem' : e'.deed ∈ earlier.map Entry.deed := List.mem_map_of_mem he'
    rw [show earlier.map Entry.deed = _ from hearlier, hdeed'] at hmem'
    simp at hmem'

/-- A thread is unblocked while it sleeps. It is ready and still among the sleepers, and the audit
halts. -/
theorem unblocked_sleeper_sits_twice : ∃ log s,
    Logged (fun _ => IdleStands) log [] s ∧
    (∃ e ∈ log, e.deed = .call (.unblock 3) (.done .nothing) ∧ e.after = s) ∧
    3 ∈ s.core.seating.queue .ready ∧ 3 ∈ s.core.seating.queue .sleep ∧
    ∀ a s', execute .validate s ≠ .ok a s' := by
  have hrun :
      (replayFrom (fun _ s _ => s.core.current != s.core.idle) ⟨none, none, none, false, none⟩
      [.create "sleeps" 40, .sleepUntil 5]).any (fun r =>
        succeeds (fun a s' => a = .done .nothing ∧ 3 ∈ s'.core.ready ∧ 3 ∈ s'.core.sleepers ∧
          succeeds (fun _ _ => true) (execute .validate s') = false) (execute (.unblock 3) r.2) &&
        r.2.core.current != r.2.core.idle) = true := by
    decide +kernel
  obtain ⟨⟨log, s⟩, hs, hrun⟩ := (Option.any_eq_true _ _).mp hrun
  obtain ⟨hrun, hbusy⟩ := Bool.and_eq_true_iff.mp hrun
  obtain ⟨a, s', he, hrun⟩ := exists_of_succeeds hrun
  obtain ⟨rfl, hready, hsleeps, haudit⟩ := of_decide_eq_true hrun
  have hlog : Logged (fun _ => IdleStands) log [] s :=
    logged_replayFrom (fun _ s c hc => .of_ne (bne_iff_ne.mp hc)) hs
  refine ⟨_, s', hlog.call (.of_ne (bne_iff_ne.mp hbusy)) he,
    ⟨_, List.mem_cons_self, rfl, rfl⟩, hready, hsleeps, fun a s'' hv => ?_⟩
  rw [hv] at haudit
  cases haudit

end Session

end ThreadCore
