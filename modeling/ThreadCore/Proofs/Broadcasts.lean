import ThreadCore.Proofs.Rousing

/-!
# What a broadcast comes to

A signal moves the most urgent waiter of a condition variable over to a lock of the current thread,
where it goes on waiting and donates to the current thread. A broadcast does so until nobody is
left.

The current thread waits for nothing, so the walk from a waiter that is moved ends after one link
(`Sound.waitForLock_eq_queued`), and no waiter's priority changes on the way. The waiters are thus
moved in the stable order of their priorities (`Core.byUrgency`), and what all the moves do to the
core can be written down (`Core.Assembles`). Signals until one finds nobody come to the same
(`Session.signals_until`).
-/

namespace ThreadCore

namespace Waits

variable {w : Waits} {t s : ThreadId} {l : ObjectId}

/-- Once `t` has begun to wait, the holder is due the greater of the two priorities. -/
theorem Balanced.due_enqueue (h : w.Balanced) :
    (w.enqueue t l s).due s = max (w.priority s) (w.priority t) := by
  have hdonors : (w.enqueue t l s).donors s = w.donors s ++ [t] := Function.update_self ..
  show ((w.enqueue t l s).donors s).foldl (fun p d => max p (w.priority d)) (w.base s) = _
  rw [hdonors, List.foldl_append, h s]
  rfl

end Waits

namespace Core

variable {k k' m : Core} {g : Stage} {t d holder : ThreadId} {th : Thread} {c l : ObjectId}
  {o : Condition} {ts before after : List ThreadId} {n : Nat}

/-! ## Threads by urgency -/

/-- The threads by effective priority, the most urgent first, and in their order among equals. -/
def byUrgency (k : Core) (ts : List ThreadId) : List ThreadId :=
  sortedBy (fun t => OrderDual.toDual (k.priorityOf t)) ts

/-- The foremost comes first, and then the others. -/
theorem byUrgency_split (hb : ∀ u ∈ before, k.priorityOf u < k.priorityOf t)
    (ha : ∀ u ∈ after, k.priorityOf u ≤ k.priorityOf t) :
    k.byUrgency (before ++ t :: after) = t :: k.byUrgency (before ++ after) :=
  sortedBy_split (fun u hu => OrderDual.toDual_lt_toDual.mpr (hb u hu)) fun u hu =>
    OrderDual.toDual_le_toDual.mpr (ha u hu)

theorem byUrgency_congr (h : ∀ t ∈ ts, k'.priorityOf t = k.priorityOf t) :
    k'.byUrgency ts = k.byUrgency ts :=
  sortedBy_congr fun t ht => congrArg OrderDual.toDual (h t ht)

theorem byUrgency_nil (k : Core) : k.byUrgency [] = [] := sortedBy_nil

/-! ## One link of a walk -/

/-- Changes that agree on the thread that is there agree. -/
theorem mapThread_congr {f f' : Thread → Thread}
    (h : ∀ th, k.threads[t]? = some th → f th = f' th) : k.mapThread t f = k.mapThread t f' := by
  have hthreads : k.threads.modify t f = k.threads.modify t f' := by
    apply Std.ExtTreeMap.ext_getElem?
    intro u
    have hsame : (k.threads[t]?).map f = (k.threads[t]?).map f' := by
      cases hth : k.threads[t]? with
      | none => rfl
      | some th => exact congrArg some (h th hth)
    show (k.mapThread t f).threads[u]? = (k.mapThread t f').threads[u]?
    rw [getElem?_mapThread, getElem?_mapThread, hsame]
  simp only [mapThread, hthreads]

theorem mapLock_congr {f f' : Lock → Lock}
    (h : ∀ lk, k.objects.locks[l]? = some lk → f lk = f' lk) : k.mapLock l f = k.mapLock l f' := by
  have hlocks : k.objects.locks.modify l f = k.objects.locks.modify l f' := by
    apply Std.ExtTreeMap.ext_getElem?
    intro i
    have hsame : (k.objects.locks[l]?).map f = (k.objects.locks[l]?).map f' := by
      cases ho : k.objects.locks[l]? with
      | none => rfl
      | some lk => exact congrArg some (h lk ho)
    show (k.mapLock l f).objects.locks[i]? = (k.mapLock l f').objects.locks[i]?
    rw [getElem?_mapLock, getElem?_mapLock, hsame]
  simp only [mapLock, hlocks]

theorem addDonor_eq (hth : k.threads[t]? = some th) (hd : d ∉ th.donors) :
    addDonor t d k =
      .ok () (k.mapThread t fun th => { th with donors := ⟨th.donors.entries ++ [d]⟩ }) := by
  have hask : (do (← k.thread t).donors.push d : Except Halt Queue) =
      .ok ⟨th.donors.entries ++ [d]⟩ :=
    except_bind_ok.mpr ⟨th, thread_eq_ok_iff.mpr hth, if_neg hd⟩
  unfold addDonor
  rw [ask_bind_of_ok hask]
  apply changeThread_eq_ok.mpr
  refine ⟨⟨th, hth⟩, mapThread_congr fun th' hth' => ?_⟩
  obtain rfl := Option.some.inj (hth.symm.trans hth')
  rfl

theorem refreshPriority_eq (hth : k.threads[t]? = some th)
    (hd : ∀ d ∈ k.waits.donors t, ∃ th, k.threads[d]? = some th) :
    refreshPriority t k =
      .ok (k.waits.due t) (k.mapThread t fun th => { th with priority := k.waits.due t }) := by
  unfold refreshPriority
  rw [ask_bind_of_ok (effectivePriority_eq_ok.mpr ⟨⟨th, hth⟩, hd, rfl⟩),
    changeThread_bind_of_ok hth]
  rfl

/-- The walk is over at a thread that waits for nothing. -/
theorem donateAlong_stop (hth : k.threads[t]? = some th) (hw : th.waitsFor = none) :
    donateAlong d n t k = .ok () k := by
  unfold donateAlong
  rw [ask_bind_of_ok (thread_eq_ok_iff.mpr hth), hw]
  rfl

/-- One link of a walk. -/
theorem donateAlong_link {lk : Lock} {hth : Thread} (ht : k.threads[t]? = some th)
    (hw : th.waitsFor = some l) (hl : k.objects.locks[l]? = some lk)
    (hh : lk.holder = some holder) (hne : holder ≠ d) (hlive : k.threads[holder]? = some hth)
    (hd : ∀ d ∈ k.waits.donors holder, ∃ th, k.threads[d]? = some th) :
    donateAlong d (n + 1) t k =
      donateAlong d n holder
        { k.mapThread holder fun th => { th with priority := k.waits.due holder } with
          journal := k.journal.said k.console (.donates t holder (k.waits.due holder)) } := by
  conv_lhs => unfold donateAlong
  rw [ask_bind_of_ok (thread_eq_ok_iff.mpr ht), hw]
  show (ask (lock l) >>= _) k = _
  rw [ask_bind_of_ok (lock_eq_ok_iff.mpr hl), hh]
  refine (demand_bind_of hne).trans ?_
  exact (bind_of_ok (refreshPriority_eq hlive hd)).trans (bind_of_ok (say_eq _ _))

/-! ## A thread is moved -/

/-- The core once `t` has joined the queue of lock `l` and is a donor of `holder`, before the
walk. -/
def lined (k : Core) (t : ThreadId) (l : ObjectId) (holder : ThreadId) : Core :=
  { k with
    threads := (k.threads.modify t fun th => { th with waitsFor := some l }).modify holder fun th =>
      { th with donors := ⟨th.donors.entries ++ [t]⟩ }
    objects := { k.objects with
      locks :=
        k.objects.locks.modify l fun lk => { lk with waiters := ⟨lk.waiters.entries ++ [t]⟩ } } }

/-- The core once `t` waits for lock `l` of `holder`, who waits for nothing. -/
def queued (k : Core) (t : ThreadId) (l : ObjectId) (holder : ThreadId) : Core :=
  { k with
    threads := (k.lined t l holder).threads.modify holder fun th =>
      { th with priority := max th.priority (k.priorityOf t) }
    objects := (k.lined t l holder).objects
    journal :=
      k.journal.said k.console (.donates t holder (max (k.priorityOf holder) (k.priorityOf t))) }

/-- The core once `t` was moved from condition variable `c` to lock `l` of the current thread. -/
def moved (c l : ObjectId) (k : Core) (t : ThreadId) : Core :=
  { k with
    threads := (k.queued t l k.current).threads
    objects := { k.objects with
      locks := (k.queued t l k.current).objects.locks
      conditions :=
        k.objects.conditions.modify c fun cond => { cond with waiters := cond.waiters.remove t } }
    journal := (k.queued t l k.current).journal.said k.console (.signals c t) }

theorem getElem?_lined (hne : t ≠ holder) (u : ThreadId) :
    (k.lined t l holder).threads[u]? = (k.threads[u]?).map fun th =>
      if u = holder then { th with donors := ⟨th.donors.entries ++ [t]⟩ }
      else if u = t then { th with waitsFor := some l } else th := by
  show (((k.mapThread t fun th => { th with waitsFor := some l }).mapThread holder fun th =>
    { th with donors := ⟨th.donors.entries ++ [t]⟩ })).threads[u]? = _
  rw [getElem?_mapThread, getElem?_mapThread, if_neg hne.symm, getElem?_mapThread]
  by_cases hu : u = holder
  · subst hu
    simp
  · by_cases hut : u = t
    · subst hut
      simp [hu]
    · simp [hu, hut]

theorem waits_lined {lk : Lock} {hth : Thread} (hl : k.objects.locks[l]? = some lk)
    (ht : k.threads[t]? = some th) (hlive : k.threads[holder]? = some hth) (hne : t ≠ holder) :
    (k.lined t l holder).waits = k.waits.enqueue t l holder := by
  let k₁ := k.mapLock l fun lk => { lk with waiters := ⟨lk.waiters.entries ++ [t]⟩ }
  let k₂ := k₁.mapThread t fun th => { th with waitsFor := some l }
  have hlive₂ : k₂.threads[holder]? = some hth := by
    rw [getElem?_mapThread, if_neg hne.symm]
    exact hlive
  have hw₁ : k₁.waits = k.waits.setWaiters l (k.waits.waiters l ++ [t]) := by
    rw [waits_mapLock hl, waiters_lock hl, ← holder_lock hl]
    simp [Waits.setHolder, Waits.setWaiters]
  have hw₂ : k₂.waits = k₁.waits.setWaitsFor t (some l) := waits_waitsFor (k := k₁) ht (some l)
  have hdonors : hth.donors.entries = k₂.waits.donors holder := by simp [Core.waits, hlive₂]
  show (k₂.mapThread holder fun th => { th with donors := ⟨th.donors.entries ++ [t]⟩ }).waits = _
  rw [waits_donors hlive₂ fun q => ⟨q.entries ++ [t]⟩, hdonors, hw₂, hw₁]
  rfl

/-- A thread that sits nowhere joins the queue of a lock, and then its priority is carried along. -/
theorem Sound.waitForLock_eq_donate (hk : k.Sound g) (hh : k.waits.holder l = some holder)
    (hne : t ≠ holder) (hth : k.threads[t]? = some th) (ht : k.seating.Stands t) :
    Core.waitForLock t l holder k = donate t (k.lined t l holder) := by
  have hnone := hk.waitsFor_eq_none fun l' => ht (.lock l')
  obtain ⟨lk, hl, -⟩ := Option.bind_eq_some_iff.mp hh
  obtain ⟨hth', hlive⟩ := hk.registered.holder l holder hh
  have hnot : t ∉ lk.waiters := by
    have := ht (.lock l)
    rwa [queue_lock hl] at this
  have hdon : t ∉ hth'.donors := by
    intro hd
    apply Waits.not_awaits hnone holder
    apply (hk.waits.wired.mem_donors holder t).mp
    simpa [Core.waits, hlive] using Queue.mem_def.mp hd
  let k₁ := k.mapLock l fun lk => { lk with waiters := ⟨lk.waiters.entries ++ [t]⟩ }
  have hpush : (do (← k.lock l).waiters.push t : Except Halt Queue) =
      .ok ⟨lk.waiters.entries ++ [t]⟩ :=
    except_bind_ok.mpr ⟨lk, lock_eq_ok_iff.mpr hl, if_neg hnot⟩
  have hjoin : (k.mapLock l fun lk' => { lk' with waiters := ⟨lk.waiters.entries ++ [t]⟩ }) = k₁ :=
    mapLock_congr fun lk' hl' => by
      obtain rfl := Option.some.inj (hl.symm.trans hl')
      rfl
  have hlive₂ : (k₁.mapThread t fun th => { th with waitsFor := some l }).threads[holder]? =
      some hth' := by
    rw [getElem?_mapThread, if_neg hne.symm]
    exact hlive
  unfold Core.waitForLock
  rw [ask_bind_of_ok hpush, changeLock_bind_of_ok hl, hjoin, changeThread_bind_of_ok (k := k₁) hth]
  exact bind_of_ok (addDonor_eq hlive₂ hdon)

/-- The walk to a holder who waits for nothing has one link. -/
theorem Sound.donate_lined (hk : k.Sound g) (hh : k.waits.holder l = some holder)
    (hs : k.waits.waitsFor holder = none) (hne : t ≠ holder) (hth : k.threads[t]? = some th) :
    donate t (k.lined t l holder) = .ok () (k.queued t l holder) := by
  obtain ⟨lk, hl, hlh⟩ := Option.bind_eq_some_iff.mp hh
  obtain ⟨hth', hlive⟩ := hk.registered.holder l holder hh
  let m := k.lined t l holder
  have hw : m.waits = k.waits.enqueue t l holder := waits_lined hl hth hlive hne
  have hdue : m.waits.due holder = max (k.priorityOf holder) (k.priorityOf t) := by
    rw [hw, hk.waits.balanced.due_enqueue, priorityOf_eq, priorityOf_eq]
  have ht : m.threads[t]? = some { th with waitsFor := some l } := by
    rw [getElem?_lined hne, hth]
    simp [hne]
  have hholder : m.threads[holder]? =
      some { hth' with donors := ⟨hth'.donors.entries ++ [t]⟩ } := by
    rw [getElem?_lined hne, hlive]
    simp
  have hlock : m.objects.locks[l]? = some { lk with waiters := ⟨lk.waiters.entries ++ [t]⟩ } :=
    (setsLock_mapLock hl fun lk => { lk with waiters := ⟨lk.waiters.entries ++ [t]⟩ }).self
  have hdonors : ∀ d ∈ m.waits.donors holder, ∃ th, m.threads[d]? = some th := by
    intro d hd
    have hd' : d ∈ k.waits.donors holder ∨ d = t := by
      rw [hw] at hd
      simpa [Waits.enqueue, Waits.setDonors, Waits.setWaitsFor, Waits.setWaiters] using hd
    rcases hd' with hd' | rfl
    · obtain ⟨dth, hdth⟩ := hk.walkable.donors holder d hd'
      rw [getElem?_lined hne, hdth]
      exact ⟨_, rfl⟩
    · exact ⟨_, ht⟩
  obtain ⟨n, hn⟩ : ∃ n, m.threads.size = n + 1 := by
    have hle : [t].length ≤ m.threads.size := length_le_size (List.nodup_singleton t) fun u hu => by
      obtain rfl := List.mem_singleton.mp hu
      exact ⟨_, ht⟩
    exact Nat.exists_eq_add_of_le' hle
  -- Once the priority is computed, the core is as it is to be.
  have hend : { m.mapThread holder fun th => { th with priority := m.waits.due holder } with
      journal := m.journal.said m.console (.donates t holder (m.waits.due holder)) } =
      k.queued t l holder := by
    have hthread : (m.mapThread holder fun th => { th with priority := m.waits.due holder }) =
        m.mapThread holder fun th => { th with priority := max th.priority (k.priorityOf t) } := by
      refine mapThread_congr fun th' hth₂ => ?_
      obtain rfl := Option.some.inj (hholder.symm.trans hth₂)
      rw [hdue, show k.priorityOf holder = hth'.priority by rw [priorityOf, hlive]]
    rw [hthread, hdue]
    rfl
  have hlast : (k.queued t l holder).threads[holder]? = some
      { hth' with
        donors := ⟨hth'.donors.entries ++ [t]⟩
        priority := max hth'.priority (k.priorityOf t) } := by
    show (m.mapThread holder _).threads[holder]? = _
    rw [getElem?_mapThread, if_pos rfl, hholder]
    rfl
  have hstop : hth'.waitsFor = none := by simpa [Core.waits, hlive] using hs
  show (get >>= fun n => donateAlong t n.threads.size t) m = _
  rw [get_bind_eq, hn, donateAlong_link ht rfl hlock hlh hne.symm hholder hdonors, hend]
  exact donateAlong_stop hlast hstop

/-- A thread that sits nowhere begins to wait for a thread that waits for nothing. -/
theorem Sound.waitForLock_eq_queued (hk : k.Sound g) (hh : k.waits.holder l = some holder)
    (hs : k.waits.waitsFor holder = none) (hne : t ≠ holder) (hth : k.threads[t]? = some th)
    (ht : k.seating.Stands t) : Core.waitForLock t l holder k = .ok () (k.queued t l holder) :=
  (hk.waitForLock_eq_donate hh hne hth ht).trans (hk.donate_lined hh hs hne hth)

/-- A signal moves the most urgent waiter. -/
theorem Sound.signalOne_eq (hk : k.Sound g) (hg : g.state = .running)
    (hh : k.waits.holder l = some k.current) (ho : k.objects.conditions[c]? = some o)
    (hnext : o.waiters.foremost k.outranks = some t) :
    Core.signalOne c l k = .ok (some t) (k.moved c l t) := by
  have hmem : t ∈ o.waiters.entries := Queue.mem_of_foremostOf hnext
  have hseat : t ∈ k.seating.queue (.condition c) := by rwa [queue_condition ho]
  obtain ⟨th, hth⟩ := hk.live_of_mem hseat
  let k₁ := k.mapCondition c fun cond => { cond with waiters := cond.waiters.remove t }
  have hk₁ : k₁.Sound g := hk.leaveCondition ho rfl
  have hwait : Core.waitForLock t l k.current k₁ = .ok () (k₁.queued t l k.current) :=
    hk₁.waitForLock_eq_queued hh (hk.current_waitsFor hg) (hk.ne_current_of_mem hg hseat) hth
      (hk.stands_leaveCondition ho rfl hmem)
  have hask : k.mostUrgent o.waiters = .ok (some t) := by
    refine mostUrgent_eq_ok.mpr ⟨fun u hu => ?_, hnext⟩
    obtain ⟨uth, huth⟩ := hk.live_of_mem (p := .condition c) (by rwa [queue_condition ho])
    rw [Std.ExtTreeMap.mem_iff_isSome_getElem?, huth]
    rfl
  unfold Core.signalOne
  rw [ask_bind_of_ok (condition_eq_ok_iff.mpr ho), ask_bind_of_ok hask]
  refine (bind_of_ok (changeCondition_eq_ok (u := ()).mpr ⟨⟨o, ho⟩, rfl⟩)).trans ?_
  exact (bind_of_ok hwait).trans (bind_of_ok (say_eq (.signals c t) _))

/-- A signal that finds nobody changes nothing. -/
theorem signalOne_eq_none (ho : k.objects.conditions[c]? = some o)
    (hempty : o.waiters.entries = []) : signalOne c l k = .ok none k := by
  have hask : k.mostUrgent o.waiters = .ok none := by
    refine mostUrgent_eq_ok.mpr ⟨fun u hu => ?_, Queue.foremostOf_eq_none_iff.mpr hempty⟩
    rw [hempty] at hu
    cases hu
  unfold signalOne
  rw [ask_bind_of_ok (condition_eq_ok_iff.mpr ho), ask_bind_of_ok hask]
  rfl

/-! ## What the moves come to -/

theorem getElem?_moved (hc : t ≠ k.current) (u : ThreadId) :
    (k.moved c l t).threads[u]? = (k.threads[u]?).map fun th =>
      if u = k.current then
        { th with
          donors := ⟨th.donors.entries ++ [t]⟩
          priority := max th.priority (k.priorityOf t) }
      else if u = t then { th with waitsFor := some l } else th := by
  show ((k.lined t l k.current).mapThread k.current fun th =>
    { th with priority := max th.priority (k.priorityOf t) }).threads[u]? = _
  rw [getElem?_mapThread, getElem?_lined hc, getElem?_lined hc]
  by_cases hu : u = k.current
  · subst hu
    simp [Function.comp_def]
  · simp [hu]

/-- Nobody's priority changes but that of the current thread. -/
theorem priorityOf_moved (hc : t ≠ k.current) {u : ThreadId} (hu : u ≠ k.current) :
    (k.moved c l t).priorityOf u = k.priorityOf u := by
  rw [priorityOf, priorityOf, getElem?_moved hc]
  cases k.threads[u]? with
  | none => rfl
  | some th =>
    show (if u = k.current then _ else if u = t then _ else th : Thread).priority = th.priority
    rw [if_neg hu]
    split <;> rfl

/-- After all moves the current thread has further donors, and may be more urgent, and whoever was
moved waits for the lock. -/
theorem getElem?_moves (hc : k.current ∉ ts) (u : ThreadId) :
    (ts.foldl (moved c l) k).threads[u]? = (k.threads[u]?).map fun th =>
      if u = k.current then
        { th with
          donors := ⟨th.donors.entries ++ ts⟩
          priority := ts.foldl (fun p t => max p (k.priorityOf t)) th.priority }
      else if u ∈ ts then { th with waitsFor := some l } else th := by
  induction ts generalizing k with
  | nil => simp
  | cons t ts ih =>
    obtain ⟨htc, hc⟩ := not_or.mp (mt List.mem_cons.mpr hc)
    have htc : t ≠ k.current := Ne.symm htc
    have hlater : ∀ d ∈ ts, (k.moved c l t).priorityOf d = k.priorityOf d := fun d hd =>
      priorityOf_moved htc (ne_of_mem_of_not_mem hd hc)
    rw [List.foldl_cons, ih (k := k.moved c l t) hc, getElem?_moved htc, Option.map_map]
    refine congrArg (Option.map · _) (funext fun th => ?_)
    show (if u = k.current then _ else if u ∈ ts then _ else _ : Thread) = _
    by_cases hu : u = k.current
    · simp [hu, Waits.foldl_max_congr hlater]
    · by_cases hut : u = t
      · subst hut
        simp [hu]
      · simp [hu, hut]

theorem moves_locks (i : ObjectId) :
    (ts.foldl (moved c l) k).objects.locks[i]? = (k.objects.locks[i]?).map fun lk =>
      if i = l then { lk with waiters := ⟨lk.waiters.entries ++ ts⟩ } else lk := by
  induction ts generalizing k with
  | nil => simp
  | cons t ts ih =>
    rw [List.foldl_cons, ih]
    show ((k.mapLock l fun lk =>
      { lk with waiters := ⟨lk.waiters.entries ++ [t]⟩ }).objects.locks[i]?).map _ = _
    rw [getElem?_mapLock]
    by_cases hi : i = l
    · subst hi
      simp [Function.comp_def]
    · simp [hi]

theorem moves_conditions (i : ObjectId) :
    (ts.foldl (moved c l) k).objects.conditions[i]? = (k.objects.conditions[i]?).map fun cond =>
      if i = c then { cond with waiters := ⟨cond.waiters.entries.diff ts⟩ } else cond := by
  induction ts generalizing k with
  | nil => simp
  | cons t ts ih =>
    rw [List.foldl_cons, ih]
    show ((k.mapCondition c fun cond =>
      { cond with waiters := cond.waiters.remove t }).objects.conditions[i]?).map _ = _
    rw [getElem?_mapCondition]
    by_cases hi : i = c
    · subst hi
      simp [Function.comp_def, Queue.remove, List.diff_cons]
    · simp [hi]

/-- The moves change threads, locks, condition variables and the journal. -/
theorem exists_moves (c l : ObjectId) (k : Core) (ts : List ThreadId) :
    ∃ threads locks conditions journal, ts.foldl (moved c l) k = { k with
      threads := threads
      objects := { k.objects with locks := locks, conditions := conditions }
      journal := journal } := by
  induction ts generalizing k with
  | nil => exact ⟨_, _, _, _, rfl⟩
  | cons t ts ih =>
    obtain ⟨threads, locks, conditions, journal, hrest⟩ := ih (k := k.moved c l t)
    exact ⟨threads, locks, conditions, journal, hrest⟩

theorem moves_rest :
    ts.foldl (moved c l) k = { k with
      threads := (ts.foldl (moved c l) k).threads
      objects := { k.objects with
        locks := (ts.foldl (moved c l) k).objects.locks
        conditions := (ts.foldl (moved c l) k).objects.conditions }
      journal := (ts.foldl (moved c l) k).journal } := by
  obtain ⟨threads, locks, conditions, journal, hrest⟩ := exists_moves c l k ts
  rw [hrest]

theorem moves_withMachine (w : Machine) :
    ts.foldl (moved c l) { k with machine := w } = { ts.foldl (moved c l) k with machine := w } :=
  List.foldl_hom (fun k : Core => { k with machine := w }) fun _ _ => rfl

theorem moves_machine : (ts.foldl (moved c l) k).machine = k.machine := by
  rw [moves_rest]

/-- The waiters of condition variable `c`, all in all `ts`, were moved to lock `l` of the current
thread. -/
structure Assembles (c l : ObjectId) (k : Core) (ts : List ThreadId) (k' : Core) : Prop where
  /-- The most urgent is moved first, and among equals the one that came first. -/
  order : ∀ o, k.objects.conditions[c]? = some o → ts = k.byUrgency o.waiters.entries
  moves : k' = ts.foldl (moved c l) k
  conditions : ∀ i : ObjectId, k'.objects.conditions[i]? = (k.objects.conditions[i]?).map fun o =>
    if i = c then { o with waiters := .empty } else o
  locks : ∀ i : ObjectId, k'.objects.locks[i]? = (k.objects.locks[i]?).map fun lk =>
    if i = l then { lk with waiters := ⟨lk.waiters.entries ++ ts⟩ } else lk
  /-- Whoever was moved waits for the lock. -/
  others : ∀ t : ThreadId, t ≠ k.current → k'.threads[t]? = (k.threads[t]?).map fun th =>
    if t ∈ ts then { th with waitsFor := some l } else th
  /-- The current thread has each of them as a donor once, and the greatest of its priority and
  theirs. -/
  current : ∀ th, k.threads[k.current]? = some th → ∃ p,
    k'.threads[k.current]? = some { th with donors := ⟨th.donors.entries ++ ts⟩, priority := p } ∧
      (th.donors.entries ++ ts).Nodup ∧
        IsGreatest {q | q = th.priority ∨ ∃ t ∈ ts, q = k.priorityOf t} p
  rest : k' = { k with
    threads := k'.threads
    objects := { k.objects with locks := k'.objects.locks, conditions := k'.objects.conditions }
    journal := k'.journal }

/-- The greatest of a priority and those of some threads. -/
theorem isGreatest_foldl_max (k : Core) (ts : List ThreadId) (p : Priority) :
    IsGreatest {q | q = p ∨ ∃ t ∈ ts, q = k.priorityOf t}
      (ts.foldl (fun p t => max p (k.priorityOf t)) p) := by
  obtain ⟨hle, hles⟩ := Waits.le_foldl_max k.priorityOf ts p
  refine ⟨Waits.foldl_max_eq k.priorityOf ts p, ?_⟩
  rintro q (rfl | ⟨t, ht, rfl⟩)
  · exact hle
  · exact hles t ht

/-- Waiters of a condition variable do not run. -/
theorem Sound.current_not_mem_byUrgency (hk : k.Sound g) (hg : g.state = .running)
    (ho : k.objects.conditions[c]? = some o) : k.current ∉ k.byUrgency o.waiters.entries := by
  intro hmem
  refine hk.ne_current_of_mem hg (p := .condition c) ?_ rfl
  rw [queue_condition ho]
  exact mem_sortedBy.mp hmem

theorem Sound.assembles (hk : k.Sound g) (hg : g.state = .running)
    (ho : k.objects.conditions[c]? = some o)
    (hk' : ((k.byUrgency o.waiters.entries).foldl (moved c l) k).Sound g) :
    Assembles c l k (k.byUrgency o.waiters.entries)
      ((k.byUrgency o.waiters.entries).foldl (moved c l) k) := by
  have hc := hk.current_not_mem_byUrgency hg ho
  constructor
  · intro x hx
    obtain rfl := Option.some.inj (ho.symm.trans hx)
    rfl
  · rfl
  · intro i
    rw [moves_conditions]
    by_cases hi : i = c
    · subst hi
      simp only [ho, Option.map_some, if_true, byUrgency, diff_sortedBy]
      rfl
    · simp [hi]
  · exact moves_locks
  · intro t ht
    rw [getElem?_moves hc]
    simp [ht]
  · intro th hth
    have hcur : ((k.byUrgency o.waiters.entries).foldl (moved c l) k).threads[k.current]? = some
        { th with
          donors := ⟨th.donors.entries ++ k.byUrgency o.waiters.entries⟩
          priority :=
            (k.byUrgency o.waiters.entries).foldl
              (fun p t => max p (k.priorityOf t)) th.priority } := by
      rw [getElem?_moves hc, hth]
      simp
    refine ⟨_, hcur, ?_, isGreatest_foldl_max k _ _⟩
    have hnodup := hk'.waits.wired.nodup_donors k.current
    simpa [Core.waits, hcur] using hnodup
  · exact moves_rest

/-! ## Signals, again and again -/

/-- The most urgent waiter is moved first, and then the others. -/
theorem Sound.byUrgency_cons (hk : k.Sound g) (hg : g.state = .running)
    (ho : k.objects.conditions[c]? = some o) (hnext : o.waiters.foremost k.outranks = some t) :
    k.byUrgency o.waiters.entries = t :: (k.moved c l t).byUrgency (o.waiters.entries.erase t) := by
  have hforemost :
      Queue.foremostOf (fun t u => decide (k.priorityOf u < k.priorityOf t)) o.waiters.entries =
      some t := hnext
  obtain ⟨before, after, hsplit, hbefore, hafter⟩ := Queue.foremostOf_eq_some hforemost
  have hnot : t ∉ before := fun hm => lt_irrefl _ (hbefore t hm)
  have hne : ∀ u ∈ o.waiters.entries, u ≠ k.current := fun u hu =>
    hk.ne_current_of_mem hg (p := .condition c) (by rwa [queue_condition ho])
  have htc : t ≠ k.current := hne t (Queue.mem_of_foremostOf hnext)
  have hsame : ∀ u ∈ before ++ after, (k.moved c l t).priorityOf u = k.priorityOf u := by
    intro u hu
    apply priorityOf_moved htc
    apply hne
    rw [hsplit]
    rcases List.mem_append.mp hu with hu | hu
    · exact List.mem_append_left _ hu
    · exact List.mem_append_right _ (List.mem_cons_of_mem _ hu)
  rw [hsplit, List.erase_append_right _ hnot, List.erase_cons_head, byUrgency_split hbefore hafter,
    byUrgency_congr hsame]

/-- The condition variable after a move. -/
theorem moved_condition (ho : k.objects.conditions[c]? = some o) :
    (k.moved c l t).objects.conditions[c]? = some { o with waiters := o.waiters.remove t } :=
  (setsCondition_mapCondition ho fun cond => { cond with waiters := cond.waiters.remove t }).self

/-- **The loop** moves all waiters. -/
theorem Sound.signalMany_eq (hk : k.Sound g) (hg : g.state = .running)
    (hh : k.waits.holder l = some k.current) (ho : k.objects.conditions[c]? = some o)
    (hn : o.waiters.size ≤ n) : Core.signalMany c l n k =
      .ok o.waiters.size ((k.byUrgency o.waiters.entries).foldl (moved c l) k) := by
  induction n generalizing k o with
  | zero =>
    have hempty : o.waiters.entries = [] := List.length_eq_zero_iff.mp (Nat.le_zero.mp hn)
    rw [Queue.size, hempty, byUrgency_nil]
    rfl
  | succ n ih =>
    unfold Core.signalMany
    cases hnext : o.waiters.foremost k.outranks with
    | none =>
      have hempty : o.waiters.entries = [] := Queue.foremostOf_eq_none_iff.mp hnext
      rw [bind_of_ok (signalOne_eq_none ho hempty), Queue.size, hempty, byUrgency_nil]
      rfl
    | some t =>
      have hstep := hk.signalOne_eq hg hh ho hnext
      obtain ⟨hs, -, hh'⟩ := hk.signalOne hg hh hstep
      have hsize : o.waiters.size = (o.waiters.remove t).size + 1 := by
        have hlen := List.length_erase_add_one (Queue.mem_of_foremostOf hnext)
        exact hlen.symm
      have hloop := ih hs hh' (moved_condition ho) (by show (o.waiters.remove t).size ≤ n; omega)
      rw [bind_of_ok hstep, hk.byUrgency_cons hg ho hnext, hsize]
      exact bind_of_ok hloop

/-- A broadcast moves all waiters, and that is all. -/
theorem Sound.broadcast_eq (hk : k.Sound g) (hg : g.state = .running) (hp : g.terms.pristine = true)
    (hh : k.waits.holder l = some k.current) (ho : k.objects.conditions[c]? = some o) :
    Core.broadcast c l k =
      .ok o.waiters.size ((k.byUrgency o.waiters.entries).foldl (moved c l) k) := by
  obtain ⟨th, -, hr, -⟩ := hk.running_ok hp
  unfold Core.broadcast
  rw [bind_of_ok (hk.checkHeld_ok hr hh)]
  have hbody : (do Core.signalMany c l (← ask (condition c)).waiters.size) k.hushed =
      .ok o.waiters.size ((k.byUrgency o.waiters.entries).foldl (moved c l) k.hushed) := by
    rw [ask_bind_of_ok
      (condition_eq_ok_iff.mpr (show k.hushed.objects.conditions[c]? = some o from ho))]
    exact (hk.withMachine _).signalMany_eq (k := k.hushed) hg hh ho le_rfl
  have hback :
      { (k.byUrgency o.waiters.entries).foldl (moved c l) k.hushed with machine := k.machine } =
      (k.byUrgency o.waiters.entries).foldl (moved c l) k := by
    rw [hushed, moves_withMachine, ← moves_machine (k := k) (c := c) (l := l)]
  rw [masked_of_hushed hbody moves_machine, hback]

/-- A signal moves the most urgent waiter, if there is one. -/
theorem Sound.signal_eq (hk : k.Sound g) (hg : g.state = .running) (hp : g.terms.pristine = true)
    (hh : k.waits.holder l = some k.current) (ho : k.objects.conditions[c]? = some o) :
    Core.signal c l k = match o.waiters.foremost k.outranks with
      | some t => .ok true (k.moved c l t)
      | none => .ok false k := by
  obtain ⟨th, -, hr, -⟩ := hk.running_ok hp
  unfold Core.signal
  rw [bind_of_ok (hk.checkHeld_ok hr hh)]
  cases hnext : o.waiters.foremost k.outranks with
  | some t =>
    have hbody := (hk.withMachine _).signalOne_eq (k := k.hushed) hg hh ho hnext
    exact bind_of_ok (masked_of_hushed hbody rfl)
  | none =>
    have hbody :=
      signalOne_eq_none (k := k.hushed) (l := l) ho (Queue.foremostOf_eq_none_iff.mp hnext)
    exact bind_of_ok (masked_of_hushed hbody rfl)

end Core

namespace Session

variable {s : Session} {i j n : Nat} {c l : ObjectId} {o : Condition} {g : Core.Stage} {k : Core}
  {b : Bool}

/-- One signal after the other, of which `n` find a waiter, and the last does not. -/
inductive SignalsUntil (i j : Nat) : Nat → Session → Session → Prop
  | done {s s' : Session} : execute (.signal i j) s = .ok (.done (.flag false)) s' →
      SignalsUntil i j 0 s s'
  | more {n : Nat} {s m s' : Session} : execute (.signal i j) s = .ok (.done (.flag true)) m →
      SignalsUntil i j n m s' → SignalsUntil i j (n + 1) s s'

theorem execute_signal (hi : s.conditions[i]? = some c) (hj : s.locks[j]? = some l)
    (h : Core.signal c l s.core = .ok b k) :
    execute (.signal i j) s = .ok (.done (.flag b)) { s with core := k } := by
  refine ((resolve_of_some hi).trans (resolve_of_some hj)).trans ?_
  exact bind_of_ok (onCore_eq_ok.mpr ⟨k, h, rfl⟩)

theorem execute_broadcast (hi : s.conditions[i]? = some c) (hj : s.locks[j]? = some l)
    (h : Core.broadcast c l s.core = .ok n k) :
    execute (.broadcast i j) s = .ok (.done (.number n)) { s with core := k } := by
  refine ((resolve_of_some hi).trans (resolve_of_some hj)).trans ?_
  exact bind_of_ok (onCore_eq_ok.mpr ⟨k, h, rfl⟩)

/-- Signals until one finds nobody move all waiters, and that is all. -/
theorem signals_until (hi : s.conditions[i]? = some c) (hj : s.locks[j]? = some l)
    (hk : s.core.Sound g) (hg : g.state = .running) (hp : g.terms.pristine = true)
    (hh : s.core.waits.holder l = some s.core.current)
    (ho : s.core.objects.conditions[c]? = some o) (hn : o.waiters.size = n) :
    SignalsUntil i j n s
      { s with core := (s.core.byUrgency o.waiters.entries).foldl (Core.moved c l) s.core } := by
  induction n generalizing s o with
  | zero =>
    have hempty : o.waiters.entries = [] := List.length_eq_zero_iff.mp hn
    have hsignal := hk.signal_eq hg hp hh ho
    rw [show o.waiters.foremost s.core.outranks =
      none from Queue.foremostOf_eq_none_iff.mpr hempty] at hsignal
    rw [hempty, Core.byUrgency_nil]
    exact .done (execute_signal hi hj hsignal)
  | succ n ih =>
    have hsignal := hk.signal_eq hg hp hh ho
    cases hnext : o.waiters.foremost s.core.outranks with
    | none =>
      rw [Queue.size, Queue.foremostOf_eq_none_iff.mp hnext] at hn
      cases hn
    | some t =>
      rw [hnext] at hsignal
      obtain ⟨hs, -, hh'⟩ := hk.signalOne hg hh (hk.signalOne_eq hg hh ho hnext)
      have hsize : (o.waiters.remove t).size = n := by
        have hlen : (o.waiters.entries.erase t).length + 1 = o.waiters.entries.length :=
          List.length_erase_add_one (Queue.mem_of_foremostOf hnext)
        have hn : o.waiters.entries.length = n + 1 := hn
        show (o.waiters.entries.erase t).length = n
        omega
      have hrest :=
        ih (s := { s with core := s.core.moved c l t }) hi hj hs hh' (Core.moved_condition ho) hsize
      rw [hk.byUrgency_cons hg ho hnext]
      exact .more (execute_signal hi hj hsignal) hrest

end Session

end ThreadCore
