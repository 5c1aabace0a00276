import ThreadCore.Proofs.Broadcasts

/-!
# In which order a lock is granted

A lock goes to its most urgent waiter, the earliest among equals. As long as nobody joins or leaves
the queue of a lock and the base priorities of the waiters stay, the waiters are as urgent as they
were, whatever else goes on (`Session.leads_uneventful`), and a release changes the priority of its
caller only (`Core.HandsOver.grants`). So one holder after the other hands the lock over in the
order that the waiters had from the beginning (`Session.Logged.granted`).

After a broadcast these are those who waited for the lock already and then those who were moved
(`Session.logged_broadcast`).
-/

namespace ThreadCore

open Relation

/-! ## Queues decide on priorities -/

namespace Waits

variable {v w : Waits} {t : ThreadId} {l : ObjectId}

/-- The priorities of the waiters depend on the queues, on who holds the locks that are waited for,
and on the base priorities of the waiters. -/
theorem Sound.priority_congr (hv : v.Sound) (hw : w.Sound) (hfv : {t | v.waitsFor t ≠ none}.Finite)
    (hfw : {t | w.waitsFor t ≠ none}.Finite) (hwaiters : ∀ l, v.waiters l = w.waiters l)
    (hholder : ∀ l, w.waiters l ≠ [] → v.holder l = w.holder l)
    (hbase : ∀ l, ∀ t ∈ w.waiters l, v.base t = w.base t) (ht : t ∈ w.waiters l) :
    v.priority t = w.priority t := by
  have hawaits : v.Awaits = w.Awaits := by
    funext a b
    simp only [awaits_iff, eq_iff_iff]
    refine exists_congr fun m => ?_
    rw [hv.wired.waitsFor_iff, hw.wired.waitsFor_iff, hwaiters]
    refine and_congr_right fun ha => ?_
    rw [hholder m (List.ne_nil_of_mem ha)]
  -- Whoever reaches a waiter waits.
  have hwaits : ∀ u, ReflTransGen w.Awaits u t → ∃ m, u ∈ w.waiters m := by
    intro u hu
    rcases hu.cases_head with rfl | ⟨b, hub, -⟩
    · exact ⟨l, ht⟩
    · obtain ⟨m, hm, -⟩ := awaits_iff.mp hub
      exact ⟨m, (hw.wired.waitsFor_iff u m).mp hm⟩
  have hset : {p | ∃ u, ReflTransGen v.Awaits u t ∧ v.base u = p} =
      {p | ∃ u, ReflTransGen w.Awaits u t ∧ w.base u = p} := by
    ext p
    rw [hawaits]
    refine exists_congr fun u => and_congr_right fun hu => ?_
    obtain ⟨m, hm⟩ := hwaits u hu
    rw [hbase m u hm]
  have hgreatest := isGreatest_priority hv hfv t
  rw [hset] at hgreatest
  exact hgreatest.unique (isGreatest_priority hw hfw t)

end Waits

/-! ## One hand-over -/

namespace Core

variable {k k' m : Core} {g : Stage} {l : ObjectId} {o : Lock} {before after : List ThreadId}

/-- Lock `l` has gone to the most urgent of its waiters, if there is one, and the others wait as
before. -/
structure Grants (l : ObjectId) (k k' : Core) : Prop where
  order : k.byUrgency (k.waits.waiters l) =
    (k'.waits.holder l).toList ++ k.byUrgency (k'.waits.waiters l)
  waiters : k'.waits.waiters l ⊆ k.waits.waiters l
  priority : ∀ t ∈ k'.waits.waiters l, k'.priorityOf t = k.priorityOf t
  free : k'.waits.holder l = none → k'.waits.waiters l = []

/-- The first by urgency is the new holder. -/
theorem Grants.holder_eq (h : Grants l k k') :
    k'.waits.holder l = (k.byUrgency (k.waits.waiters l)).head? := by
  rw [h.order]
  cases hh : k'.waits.holder l with
  | none =>
    rw [h.free hh, byUrgency_nil]
    rfl
  | some t => rfl

/-- A hand-over by the current thread grants the lock. -/
theorem HandsOver.grants (h : HandsOver k m l k.current) (hr : Reschedules m k') (hk : k.Sound g)
    (hg : g.state = .running) (ho : k.objects.locks[l]? = some o) : Grants l k k' := by
  have hwaiters := waiters_lock ho
  by_cases hempty : o.waiters.entries = []
  · obtain ⟨hfree, -⟩ := h.free o ho hempty
    have hwaiters' : k'.waits.waiters l = [] := by
      rw [hr.waits, waiters_lock hfree, hempty]
    have hholder' : k'.waits.holder l = none := by rw [hr.waits, holder_lock hfree]
    constructor
    · rw [hwaiters, hempty, hwaiters', hholder', byUrgency_nil]
      rfl
    · rw [hwaiters']
      exact List.nil_subset _
    · rw [hwaiters']
      intro t ht
      cases ht
    · exact fun _ => hwaiters'
  · obtain ⟨before, next, after, -, -, hsplit, hbefore, hafter, hlock, -⟩ := h.heir o ho hempty
    have hwaiters' : k'.waits.waiters l = before ++ after := by rw [hr.waits, waiters_lock hlock]
    have hholder' : k'.waits.holder l = some next := by rw [hr.waits, holder_lock hlock]
    have hsub : before ++ after ⊆ k.waits.waiters l := by
      rw [hwaiters, hsplit]
      exact ((List.sublist_cons_self next after).append_left before).subset
    constructor
    · rw [hwaiters, hsplit, hwaiters', hholder', byUrgency_split hbefore hafter]
      rfl
    · rw [hwaiters']
      exact hsub
    · intro t ht
      rw [hwaiters'] at ht
      have hseat : t ∈ k.seating.queue (.lock l) := by
        rw [queue_lock ho, ← hwaiters]
        exact hsub ht
      obtain ⟨th, hth⟩ := hk.live_of_mem hseat
      obtain ⟨th', hth', hp⟩ := h.kept t th (hk.ne_current_of_mem hg hseat) hth
      have hm : m.priorityOf t = k.priorityOf t := by
        rw [priorityOf, priorityOf, hth, hth']
        exact hp
      rw [← hm, priorityOf_eq, priorityOf_eq, hr.waits]
    · intro hnone
      rw [hholder'] at hnone
      cases hnone

end Core

/-! ## Transitions between hand-overs -/

/-- The lock that the transition releases. -/
def Entry.released (e : Entry) : Option ObjectId :=
  match e.deed with
  | .call (.release i) _ => e.before.locks[i]?
  | _ => none

/-- Nobody joins or leaves the queue of a lock, and the base priorities of the waiters stay. -/
structure Entry.Uneventful (e : Entry) : Prop where
  waiters : ∀ l, e.after.core.waits.waiters l = e.before.core.waits.waiters l
  base : ∀ l, ∀ t ∈ e.before.core.waits.waiters l,
    e.after.core.waits.base t = e.before.core.waits.base t

/-- Whether the transition leaves the locks and the base priorities of their waiters alone. -/
def Entry.leavesLocks (e : Entry) : Bool :=
  decide (e.after.core.objects.locks.toList = e.before.core.objects.locks.toList) &&
    e.before.core.objects.locks.toList.all fun x => x.2.waiters.entries.all fun t =>
      decide (e.after.core.waits.base t = e.before.core.waits.base t)

theorem Entry.uneventful_of_leavesLocks {e : Entry} (h : e.leavesLocks = true) : e.Uneventful := by
  obtain ⟨hl, hb⟩ := Bool.and_eq_true_iff.mp h
  have hl : e.after.core.objects.locks = e.before.core.objects.locks :=
    Std.ExtTreeMap.toList_inj.mp (of_decide_eq_true hl)
  constructor
  · intro l
    simp only [Core.waits, hl]
  · intro l t ht
    cases ho : e.before.core.objects.locks[l]? with
    | none => simp [Core.waits, ho] at ht
    | some o =>
      rw [Core.waiters_lock ho] at ht
      have hlock :=
        List.all_eq_true.mp hb (l, o) (Std.ExtTreeMap.mem_toList_iff_getElem?_eq_some.mpr ho)
      exact of_decide_eq_true (List.all_eq_true.mp hlock t ht)

namespace Session

open ThreadCore.Core (HandsOver Reschedules Grants Holds)

variable {s s' : Session} {a : Answer} {d : Deed} {e : Entry} {log later : List Entry}
  {frames : List Bool} {t : ThreadId} {i j : Nat} {c l : ObjectId}

/-- A lock whose queue is as before has the same holder, if anybody waits. -/
theorem leads_holder (hk : s.core.InOrder true) (h : Leads s d s')
    (hidle : ∀ c a, d = .call c a → s.core.current = s.core.idle → ¬ s.Queues c)
    (hsame : s'.core.waits.waiters l = s.core.waits.waiters l) (hne : s.core.waits.waiters l ≠ []) :
    s'.core.waits.holder l = s.core.waits.holder l := by
  obtain ⟨t, ht⟩ := List.exists_mem_of_ne_nil _ hne
  obtain ⟨holder, hh⟩ := hk.waits.wired.held t l ht
  obtain ⟨o, ho, hoh⟩ := Option.bind_eq_some_iff.mp hh
  have hholds : s.core.Holds l holder o.waiters.entries := ⟨o, ho, hoh, List.prefix_rfl⟩
  have hstays : s'.core.Holds l holder o.waiters.entries →
      s'.core.waits.holder l = s.core.waits.holder l := by
    rintro ⟨o', ho', hoh', -⟩
    rw [Core.holder_lock ho', hoh', hh]
  cases h with
  | enter he =>
    exact hstays (hholds.congr (Core.gear_locks (congrArg Estate.gear (enterHandler_estate he).1)))
  | leave he =>
    exact hstays (hholds.congr (Core.gear_locks (congrArg Estate.gear (leaveHandler_estate he).1)))
  | @call c a _ he =>
    by_cases hc : s.givesUp c = some l
    · -- A hand-over takes a waiter from the queue.
      exfalso
      obtain ⟨-, m, hover, hr⟩ := execute_givesUp hk hc (hidle c a rfl) he
      rw [Core.waiters_lock ho] at hne hsame
      obtain ⟨before, next, after, -, -, hsplit, -, -, hlock, -⟩ := hover.heir o ho hne
      rw [hr.waits, Core.waiters_lock hlock, hsplit] at hsame
      have hlength := congrArg List.length hsame
      simp at hlength
    · exact hstays (execute_holds hk hc hholds he)

/-- In an uneventful transition the waiters stay as urgent as they were. -/
theorem leads_uneventful (hk : e.before.core.InOrder true) (hk' : e.after.core.InOrder true)
    (h : Leads e.before e.deed e.after)
    (hidle : ∀ c a, e.deed = .call c a → e.before.core.current = e.before.core.idle →
      ¬ e.before.Queues c)
    (hu : e.Uneventful) (ht : t ∈ e.before.core.waits.waiters l) :
    e.after.core.priorityOf t = e.before.core.priorityOf t := by
  rw [Core.priorityOf_eq, Core.priorityOf_eq]
  exact hk'.waits.priority_congr hk.waits (Core.finite_waiting _) (Core.finite_waiting _) hu.waiters
    (fun m => leads_holder hk h hidle (hu.waiters m)) hu.base ht

/-- A release grants the lock. -/
theorem execute_grants (hk : s.core.InOrder true) (hj : s.locks[j]? = some l)
    (he : execute (.release j) s = .ok a s') : Grants l s.core s'.core := by
  obtain ⟨hh, m, hover, hr⟩ := execute_givesUp (c := .release j) hk hj (fun _ hq => hq) he
  obtain ⟨o, ho, -⟩ := Option.bind_eq_some_iff.mp hh
  exact hover.grants hr hk rfl ho

/-- The current thread can release a lock that it holds. -/
theorem execute_release_ok (hk : s.core.InOrder true) (hf : s.core.Fit false)
    (hj : s.locks[j]? = some l) (hh : s.core.waits.holder l = some s.core.current) :
    ∃ s', execute (.release j) s = .ok (.done .nothing) s' := by
  obtain ⟨th, -, hr, -⟩ := hk.running_ok rfl
  obtain ⟨m, hm, -, heq, hfit⟩ := hk.release_eq rfl hr hh
  obtain ⟨k', hx⟩ := hm.preempt_ok rfl rfl (hfit hf)
  refine ⟨{ s with core := k' }, ?_⟩
  refine ((resolve_of_some hj).trans (act_congr_of_eq heq)).trans ?_
  exact bind_of_ok (onCore_eq_ok.mpr ⟨k', hx, rfl⟩)

/-! ## Runs -/

/-- The threads that lock `l` went to when it was released, the first of them first. -/
def granted (l : ObjectId) : List Entry → List ThreadId
  | [] => []
  | e :: log =>
    granted l log ++ if e.released = some l then (e.after.core.waits.holder l).toList else []

/-- The last transition of a run leads to its state, from another state of the run. -/
theorem Logged.of_cons {allowed : List Entry → Session → Call → Prop}
    (h : Logged allowed (e :: log) frames s) :
    s = e.after ∧ (∃ frames', Logged allowed log frames' e.before) ∧ Leads e.before e.deed e.after ∧
      ∀ c a, e.deed = .call c a → allowed log e.before c := by
  have hcall : ∀ c a, e.deed = .call c a → allowed log e.before c := fun c a => h.allowed_of_cons
  cases h with
  | call h _ he => exact ⟨rfl, ⟨_, h⟩, .call he, hcall⟩
  | enter h he => exact ⟨rfl, ⟨_, h⟩, .enter he, hcall⟩
  | leave h he => exact ⟨rfl, ⟨_, h⟩, .leave he, hcall⟩

/-- **Grants.** If from some transition of a disciplined run on lock `l` is released, and all other
transitions are uneventful, then the lock goes to its waiters by urgency, as they stood after that
transition. -/
theorem Logged.granted (h : Logged (fun _ => Disciplined) (later ++ e :: log) frames s)
    (hall : ∀ e ∈ later, e.released = some l ∨ e.Uneventful) :
    e.after.core.byUrgency (e.after.core.waits.waiters l) =
        Session.granted l later ++ e.after.core.byUrgency (s.core.waits.waiters l) ∧
      ∀ t ∈ s.core.waits.waiters l, s.core.priorityOf t = e.after.core.priorityOf t := by
  induction later generalizing frames s with
  | nil =>
    obtain ⟨rfl, -⟩ := h.of_cons
    exact ⟨rfl, fun _ _ => rfl⟩
  | cons e' later ih =>
    have hk' := h.disciplined
    obtain ⟨rfl, ⟨_, hbefore⟩, hd, hallowed⟩ := h.of_cons
    have hk := hbefore.disciplined
    obtain ⟨horder, hpriority⟩ := ih hbefore fun e he => hall e (List.mem_cons_of_mem _ he)
    by_cases hr : e'.released = some l
    · have hgrants : Grants l e'.before.core e'.after.core := by
        obtain ⟨before, deed, after⟩ := e'
        cases hd with
        | call he =>
          rename_i c a
          cases c with
          | release j => exact execute_grants hk hr he
          | _ => cases hr
        | enter _ => cases hr
        | leave _ => cases hr
      have hlive : e'.before.core.byUrgency _ = e.after.core.byUrgency _ :=
        Core.byUrgency_congr hpriority
      have hrest : e'.before.core.byUrgency _ = e.after.core.byUrgency _ :=
        Core.byUrgency_congr fun t ht => hpriority t (hgrants.waiters ht)
      constructor
      · rw [horder, ← hlive, hgrants.order, hrest]
        simp [Session.granted, hr]
      · intro t ht
        rw [hgrants.priority t ht]
        exact hpriority t (hgrants.waiters ht)
    · have hu : e'.Uneventful := (hall e' List.mem_cons_self).resolve_left hr
      constructor
      · rw [horder, hu.waiters]
        simp [Session.granted, hr]
      · intro t ht
        rw [hu.waiters] at ht
        rw [leads_uneventful hk hk' hd (fun c a hda => (hallowed c a hda).idle) hu ht]
        exact hpriority t ht

/-- **Broadcasts.** In every state of a disciplined run the current thread can signal to all waiters
of a condition variable with a lock that it holds: they are moved to the queue of the lock by
urgency, and nothing else happens (`Core.Assembles`). The answer is their number, and signals until
one finds nobody come to the same. If then one holder after the other releases the lock, and all
other transitions are uneventful, the lock goes to those in its queue by urgency, and they are as
urgent as they were after the broadcast. A holder that runs can always release the lock, and it goes
to the next. -/
theorem logged_broadcast {o : Condition} (h : Logged (fun _ => Disciplined) log frames s)
    (hi : s.conditions[i]? = some c) (hj : s.locks[j]? = some l)
    (ho : s.core.objects.conditions[c]? = some o)
    (hh : s.core.waits.holder l = some s.core.current) :
    ∃ k ts, Core.Assembles c l s.core ts k ∧
      execute (.broadcast i j) s = .ok (.done (.number o.waiters.size)) { s with core := k } ∧
      SignalsUntil i j o.waiters.size s { s with core := k } ∧
      ∀ later frames' s', Logged (fun _ => Disciplined) (later ++
          ⟨s, .call (.broadcast i j) (.done (.number o.waiters.size)), { s with core := k }⟩ :: log)
          frames' s' →
        (∀ e ∈ later, e.released = some l ∨ e.Uneventful) →
        k.byUrgency (k.waits.waiters l) = granted l later ++ k.byUrgency (s'.core.waits.waiters l) ∧
          (∀ t ∈ s'.core.waits.waiters l, s'.core.priorityOf t = k.priorityOf t) ∧
          ∀ j', s'.locks[j']? = some l → s'.core.waits.holder l = some s'.core.current →
            ∃ s'', execute (.release j') s' = .ok (.done .nothing) s'' ∧
              s''.core.waits.holder l = (k.byUrgency (s'.core.waits.waiters l)).head? := by
  have hk := h.disciplined
  have hsound : ((s.core.byUrgency o.waiters.entries).foldl (Core.moved c l) s.core).Sound _ :=
    (hk.signalMany rfl hh (hk.signalMany_eq rfl hh ho le_rfl)).1
  refine ⟨_, _, hk.assembles rfl ho hsound, ?_, ?_, ?_⟩
  · exact execute_broadcast hi hj (hk.broadcast_eq rfl rfl hh ho)
  · exact signals_until hi hj hk rfl rfl hh ho rfl
  · intro later frames' s' hlater hall
    obtain ⟨horder, hpriority⟩ := hlater.granted hall
    refine ⟨horder, hpriority, fun j' hj' hh' => ?_⟩
    have hk' := hlater.disciplined
    have hreached : Reached Disciplined frames' s' := hlater.reached fun _ _ _ hc => hc
    obtain ⟨s'', he⟩ := execute_release_ok hk' hreached.fit hj' hh'
    refine ⟨s'', he, ?_⟩
    rw [← Core.byUrgency_congr hpriority]
    exact (execute_grants hk' hj' he).holder_eq

/-- What was done before does not matter to a check that does not look at it. -/
theorem replay_append {check : Session → Call → Bool} {cs : List Call} {log' : List Entry}
    (h : replay (fun _ => check) log s cs = some (log', s')) (earlier : List Entry) :
    replay (fun _ => check) (log ++ earlier) s cs = some (log' ++ earlier, s') := by
  induction cs generalizing log s with
  | nil =>
    obtain ⟨rfl, rfl⟩ := Prod.mk.inj (Option.some.inj h)
    rfl
  | cons c cs ih =>
    unfold replay at h ⊢
    split at h
    · rename_i hc
      rw [if_pos hc]
      split at h
      · exact ih h
      · cases h
    · cases h

/-- Thread 7 waits for the lock of thread 1, and threads 3, 4 and 5 wait on the condition variable.
Thread 3 is the most urgent of all, for thread 6 waits for another lock of thread 3. After the
broadcast they get the lock in this order: 3, 4, 7 and 5. The last two are equals. -/
theorem logged_broadcast_of_three :
    ∃ log s o k ts later s', Logged (fun _ => Disciplined) log [] s ∧
    s.conditions[0]? = some 3 ∧ s.locks[0]? = some 1 ∧
    s.core.waits.holder 1 = some s.core.current ∧ s.core.waits.waiters 1 = [7] ∧
    s.core.objects.conditions[3]? = some o ∧ o.waiters.entries = [3, 4, 5] ∧
    [1, 3, 4, 5, 6, 7].map s.core.priorityOf = [40, 50, 45, 40, 50, 40] ∧
    Core.Assembles 3 1 s.core ts k ∧
    execute (.broadcast 0 0) s = .ok (.done (.number o.waiters.size)) { s with core := k } ∧
    SignalsUntil 0 0 o.waiters.size s { s with core := k } ∧
    k.waits.waiters 1 = [7, 3, 4, 5] ∧
      [1, 3, 4, 5, 6, 7].map k.priorityOf = [50, 50, 45, 40, 50, 40] ∧
    Logged (fun _ => Disciplined) (later ++
      ⟨s, .call (.broadcast 0 0) (.done (.number o.waiters.size)), { s with core := k }⟩ :: log)
      [] s' ∧
    (∀ e ∈ later, e.released = some 1 ∨ e.Uneventful) ∧ s'.core.waits.waiters 1 = [] ∧
    granted 1 later = [3, 4, 7, 5] ∧ k.byUrgency [7, 3, 4, 5] = [3, 4, 7, 5] := by
  have hrun : (replayFrom (fun _ => isPlain) ⟨none, none, none, false, none⟩
      [.newLock, .newLock, .newCondition, .create "holder" 40, .acquire 1, .acquire 0, .await 0 0,
        .create "urgent" 45, .acquire 0, .await 0 0, .create "calm" 40, .acquire 0, .await 0 0,
        .create "donor" 50, .acquire 1, .acquire 0, .create "early" 40, .acquire 0]).any (fun r =>
        decide (r.2.core.current ≠ r.2.core.idle ∧ r.2.conditions[0]? = some 3 ∧
          r.2.locks[0]? = some 1 ∧ r.2.core.waits.holder 1 = some r.2.core.current ∧
          r.2.core.waits.waiters 1 = [7] ∧
          (r.2.core.objects.conditions[3]?).map (fun o => o.waiters.entries) = some [3, 4, 5] ∧
          [1, 3, 4, 5, 6, 7].map r.2.core.priorityOf = [40, 50, 45, 40, 50, 40]) &&
        succeeds (fun _ m => decide (m.core.waits.waiters 1 = [7, 3, 4, 5] ∧
            [1, 3, 4, 5, 6, 7].map m.core.priorityOf = [50, 50, 45, 40, 50, 40]) &&
          (replay (fun _ => isPlain) [] m
            [.release 0, .release 0, .sleepUntil 100, .release 0, .sleepUntil 100,
              .release 0, .sleepUntil 100, .release 0]).any fun r =>
              decide (r.2.core.waits.waiters 1 = [] ∧ granted 1 r.1 = [3, 4, 7, 5]) &&
                r.1.all fun e => decide (e.released = some 1) || e.leavesLocks)
          (execute (.broadcast 0 0) r.2)) = true := by
    decide +kernel
  obtain ⟨⟨log, s⟩, hs, hrun⟩ := (Option.any_eq_true _ _).mp hrun
  obtain ⟨hbefore, hafter⟩ := Bool.and_eq_true_iff.mp hrun
  obtain ⟨hidle, hi, hj, hh, hqueue, hwaiters, hprio⟩ := of_decide_eq_true hbefore
  obtain ⟨a, m, he, hafter⟩ := exists_of_succeeds hafter
  obtain ⟨hmoved, hlater⟩ := Bool.and_eq_true_iff.mp hafter
  obtain ⟨hqueue', hprio'⟩ := of_decide_eq_true hmoved
  obtain ⟨⟨later, s'⟩, hreplay, hlater⟩ := (Option.any_eq_true _ _).mp hlater
  obtain ⟨hend, hall⟩ := Bool.and_eq_true_iff.mp hlater
  obtain ⟨hempty, hgranted⟩ := of_decide_eq_true hend
  have hlog : Logged (fun _ => Disciplined) log [] s :=
    logged_replayFrom (fun _ _ _ hc => .plain (isPlain_iff.mp hc).1 (isPlain_iff.mp hc).2) hs
  obtain ⟨o, ho, hentries⟩ := Option.map_eq_some_iff.mp hwaiters
  obtain ⟨k, ts, hassembles, hbroadcast, hsignals, horder⟩ := logged_broadcast hlog hi hj ho hh
  obtain ⟨-, rfl⟩ := EStateM.Result.ok.inj (hbroadcast.symm.trans he)
  have hcalm : ∀ e ∈ later, e.released = some 1 ∨ e.Uneventful := by
    intro e he
    have hcheck := List.all_eq_true.mp hall e he
    rw [Bool.or_eq_true_iff, decide_eq_true_iff] at hcheck
    exact hcheck.imp_right Entry.uneventful_of_leavesLocks
  have hstep := hlog.call (c := .broadcast 0 0) (.plain rfl hidle) hbroadcast
  have hrest :=
    logged_replay (fun _ _ _ hc => .plain (isPlain_iff.mp hc).1 (isPlain_iff.mp hc).2) hstep
    (replay_append hreplay _)
  obtain ⟨hqueued, -⟩ := horder later [] s' hrest hcalm
  refine ⟨log, s, o, k, ts, later, s', hlog, hi, hj, hh, hqueue, ho, hentries, hprio, hassembles,
    hbroadcast, hsignals, hqueue', hprio', hrest, hcalm, hempty, hgranted, ?_⟩
  have hqueue' : k.waits.waiters 1 = [7, 3, 4, 5] := hqueue'
  rw [hqueue', hgranted, hempty, Core.byUrgency_nil] at hqueued
  exact hqueued

end Session

end ThreadCore
