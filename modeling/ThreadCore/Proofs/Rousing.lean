import ThreadCore.Proofs.Deferral
import ThreadCore.Proofs.StableSorts
import ThreadCore.Proofs.Successions
import ThreadCore.Proofs.Sweeps

/-!
# What a sweep comes to

A sweep of the sleepers takes out the one with the least tick as long as that has come. All in all
it takes out those whose tick has come, in the stable order of their ticks (`Core.dueAt`), and what
it does to the core can be written down (`Core.awakened`): they are ready, without a tick, and at
the end of the ready queue. Nothing else has changed (`Session.reached_sweep`).

The sweep makes as many steps as there are sleepers at most, whatever the state
(`Core.wakeDue_size`).
-/

namespace ThreadCore

/-- The thread, woken. -/
def Thread.awakened (th : Thread) : Thread := { th with state := .ready, wakeAt := none }

/-- The journal with a notice, if the console shows it. -/
def Journal.said (j : Journal) (c : Console) (n : Notice) : Journal :=
  if c.admits n.severity then j.addText (Console.line n.severity n.text) else j

namespace Core

variable {α : Type} {k k' m : Core} {g : Stage} {t : ThreadId} {th : Thread} {ts : List ThreadId}
  {now n : Nat}

/-- The sleepers whose tick has come, by tick, and in the order in which they went to sleep among
equal ticks. -/
def dueAt (k : Core) (now : Nat) : List ThreadId :=
  (sortedBy Prod.snd (k.alarms.filter fun x => x.2 ≤ now)).map Prod.fst

/-- The core once the sleepers `ts` have been woken, one after the other. -/
def awakened (k : Core) (now : Nat) (ts : List ThreadId) : Core :=
  { k with
    threads := ts.foldl (fun threads t => threads.modify t Thread.awakened) k.threads
    sleepers := ⟨k.sleepers.entries.diff ts⟩
    ready := ⟨k.ready.entries ++ ts⟩
    journal := ts.foldl (fun j t => j.said k.console (.wakes t now)) k.journal }

/-! ## Steps, written down -/

theorem say_eq (x : Notice) (k : Core) :
    say x k = .ok () { k with journal := k.journal.said k.console x } := by
  unfold say Journal.said
  rw [get_bind_eq]
  split <;> rfl

/-- A masked section leaves the machine as it was, if it does so up to the interrupt flag. -/
theorem masked_of_hushed {body : CoreM α} {a : α} (h : body k.hushed = .ok a m)
    (hm : m.machine = k.hushed.machine) :
    masked body k = .ok a { m with machine := k.machine } := by
  have hunmask : onMachine (Machine.unmask k.machine.interruptsOn) m =
      .ok () { m with machine := k.machine } := by
    rw [unmask_eq, hm]
    simp only [hushed, Machine.withInterrupts, Machine.interruptsOn, Flags.unmasked_set]
  exact (bind_of_ok (mask_eq k)).trans ((bind_of_ok h).trans (bind_of_ok hunmask))

theorem unblock_eq (hi : t ≠ k.idle) (hth : k.threads[t]? = some th) (hb : th.state = .blocked)
    (hr : t ∉ k.ready.entries) : unblock t k =
      .ok () { k.mapThread t (fun th => { th with state := .ready }) with
        ready := ⟨k.ready.entries ++ [t]⟩ } := by
  unfold unblock
  rw [get_bind_eq, demand_bind_of hi]
  refine masked_of_hushed (m := { k.hushed.mapThread t (fun th => { th with state := .ready }) with
    ready := ⟨k.ready.entries ++ [t]⟩ }) ?_ rfl
  have hth' : k.hushed.threads[t]? = some th := hth
  rw [ask_bind_of_ok (thread_eq_ok_iff.mpr hth'), demand_bind_of hb, changeThread_bind_of_ok hth']
  exact enqueueReady_eq_ok.mpr ⟨hr, rfl⟩

/-- A thread is changed twice. -/
theorem mapThread_mapThread (k : Core) (t : ThreadId) (f f' : Thread → Thread) :
    (k.mapThread t f).mapThread t f' = k.mapThread t (f' ∘ f) := by
  have hthreads : (k.threads.modify t f).modify t f' = k.threads.modify t (f' ∘ f) := by
    apply Std.ExtTreeMap.ext_getElem?
    intro u
    simp only [Std.ExtTreeMap.getElem?_modify]
    split
    · simp
    · rfl
  simp only [mapThread, hthreads]

theorem awakened_nil (k : Core) (now : Nat) : k.awakened now [] = k := by
  simp [awakened]

theorem awakened_cons (k : Core) (now : Nat) (t : ThreadId) (ts : List ThreadId) :
    k.awakened now (t :: ts) = (k.awakened now [t]).awakened now ts := by
  simp [awakened, List.diff_cons]

/-- A sleeper is woken. -/
theorem Sound.awaken (hk : k.Sound g) (now : Nat) (hg : g.state = .running)
    (ht : t ∈ k.sleepers.entries) :
    (k.awakened now [t]).Sound g ∧ (k.awakened now [t]).dorm = (k.roused t).dorm ∧
      (Core.unblock t >>= fun _ => say (.wakes t now)) (k.roused t) =
        .ok () (k.awakened now [t]) := by
  obtain ⟨th, hth, hb⟩ := hk.state_of_mem hg (p := .sleep) ht
  have hth' : (k.roused t).threads[t]? = some { th with wakeAt := none } := by
    rw [Core.roused, getElem?_mapThread, if_pos rfl]
    exact congrArg (Option.map _) hth
  have hready : t ∉ k.ready.entries := fun hr => by
    obtain ⟨th', hth', hb'⟩ := hk.state_of_mem hg (p := .ready) hr
    rw [hth, Option.some.injEq] at hth'
    rw [← hth', hb] at hb'
    cases hb'
  have hunblock := unblock_eq (k := k.roused t) (hk.ne_idle_of_mem (p := .sleep) ht) hth' hb hready
  have hsame : k.awakened now [t] =
      { (k.roused t).mapThread t (fun th => { th with state := .ready }) with
      ready := ⟨k.ready.entries ++ [t]⟩
      journal := k.journal.said k.console (.wakes t now) } := by
    rw [Core.roused, mapThread_mapThread]
    simp [awakened, mapThread, List.diff_cons, Queue.remove]
    rfl
  obtain ⟨hs, hdorm, -⟩ := hk.roused ht hth hunblock
  rw [hsame]
  refine ⟨hs.quiet ⟨rfl, rfl, rfl, rfl, rfl, rfl, rfl, rfl, rfl⟩, hdorm, ?_⟩
  exact (bind_of_ok hunblock).trans (say_eq (.wakes t now) _)

/-! ## The loop -/

/-- The first whose tick has come is woken, and then the others. -/
theorem dueAt_cons {tick : Nat} {before after : List (ThreadId × Nat)}
    (hk : k.alarms = before ++ (t, tick) :: after) (hb : ∀ x ∈ before, tick < x.2)
    (ha : ∀ x ∈ after, tick ≤ x.2) (hdue : tick ≤ now) (hm : m.alarms = before ++ after) :
    k.dueAt now = t :: m.dueAt now := by
  unfold dueAt
  rw [hk, hm, List.filter_append, List.filter_cons_of_pos (by simpa using hdue), List.filter_append,
    sortedBy_split (fun x hx => hb x (List.mem_filter.mp hx).1)
    (fun x hx => ha x (List.mem_filter.mp hx).1),
    List.map_cons]

theorem dueAt_eq_nil (h : ∀ x ∈ k.alarms, now < x.2) : k.dueAt now = [] := by
  have hnone : k.alarms.filter (fun x => x.2 ≤ now) = [] := by
    rw [List.filter_eq_nil_iff]
    intro x hx hle
    exact absurd (of_decide_eq_true hle) (Nat.not_le.mpr (h x hx))
  rw [dueAt, hnone, sortedBy_nil, List.map_nil]

theorem dueAt_of_empty (h : k.sleepers.entries = []) : k.dueAt now = [] :=
  dueAt_eq_nil fun x hx => by
    rw [alarms, h] at hx
    cases hx

/-- If the least tick is to come, so are all. -/
theorem Sound.dueAt_of_later {tick : Nat} (hk : k.Sound g)
    (hnext : k.sleepers.foremost k.earlier = some t)
    (hwake : k.seating.wakeAt t = some tick) (hlater : now < tick) : k.dueAt now = [] := by
  obtain ⟨tick', before, after, hwake', halarms, hbefore, hafter, -⟩ := hk.foremost_alarm hnext
  obtain rfl : tick' = tick := Option.some.inj (hwake'.symm.trans hwake)
  apply dueAt_eq_nil
  intro x hx
  rw [halarms, List.mem_append, List.mem_cons] at hx
  rcases hx with hx | rfl | hx
  · exact hlater.trans (hbefore x hx)
  · exact hlater
  · exact hlater.trans_le (hafter x hx)

/-- If the least tick has come, its thread is woken first, and then the others whose tick has
come. -/
theorem Sound.dueAt_of_due {tick : Nat} (hk : k.Sound g) (hg : g.state = .running)
    (hnext : k.sleepers.foremost k.earlier = some t) (hwake : k.seating.wakeAt t = some tick)
    (hdue : tick ≤ now) :
    k.dueAt now = t :: (k.awakened now [t]).dueAt now := by
  obtain ⟨tick', before, after, hwake', halarms, hbefore, hafter, hrest⟩ := hk.foremost_alarm hnext
  obtain rfl : tick' = tick := Option.some.inj (hwake'.symm.trans hwake)
  obtain ⟨-, hdorm, -⟩ := hk.awaken now hg (Queue.mem_of_foremostOf hnext)
  exact dueAt_cons halarms hbefore hafter hdue ((alarms_congr hdorm).trans hrest)

/-- With nobody asleep the loop ends at once. -/
theorem wakeDue_of_empty (now n : Nat) (h : k.sleepers.entries = []) :
    wakeDue now n k = .ok 0 k := by
  cases n with
  | zero => rfl
  | succ n =>
    have hlive : k.checkLive k.sleepers = .ok () := demand_ok.mpr (by rw [h]; simp)
    have hnone : k.earliestSleeper = .ok none := by
      unfold earliestSleeper
      rw [hlive]
      exact congrArg Except.ok (Queue.foremostOf_eq_none_iff.mpr h)
    unfold wakeDue
    rw [ask_bind_of_ok hnone]
    rfl

/-- One round of the loop. -/
theorem Sound.wakeDue_round {tick : Nat} (hk : k.Sound g) (hg : g.state = .running)
    (hnext : k.sleepers.foremost k.earlier = some t) (hwake : k.seating.wakeAt t = some tick) :
    Core.wakeDue now (n + 1) k = if now < tick then .ok 0 k else
      (Core.wakeDue now n >>= fun woken => pure (woken + 1)) (k.awakened now [t]) := by
  have hmem : t ∈ k.sleepers.entries := Queue.mem_of_foremostOf hnext
  have hlive : k.checkLive k.sleepers = .ok () := demand_ok.mpr fun t ht => by
    obtain ⟨th, hth⟩ := hk.live_of_mem (p := .sleep) ht
    rw [Std.ExtTreeMap.mem_iff_isSome_getElem?, hth]
    rfl
  have hask : k.earliestSleeper = .ok (some t) := by
    unfold earliestSleeper
    rw [hlive, ← hnext]
    rfl
  obtain ⟨th, hth⟩ := hk.live_of_mem (p := .sleep) hmem
  have htick : th.wakeAt = some tick :=
    (congrArg (Option.bind · Thread.wakeAt) hth).symm.trans hwake
  conv_lhs => unfold Core.wakeDue
  rw [ask_bind_of_ok hask]
  show (ask (thread t) >>= _) k = _
  rw [ask_bind_of_ok (thread_eq_ok_iff.mpr hth), htick, Option.any_some]
  by_cases hlater : now < tick
  · rw [if_pos (by simpa using hlater), if_pos hlater]
    rfl
  · rw [if_neg (by simpa using hlater), if_neg hlater]
    obtain ⟨-, -, hstep⟩ := hk.awaken now hg hmem
    show (changeThread t (fun th => { th with wakeAt := none }) >>= _)
      { k with sleepers := k.sleepers.remove t } = _
    rw [changeThread_bind_of_ok
      (show ({ k with sleepers := k.sleepers.remove t } : Core).threads[t]? = _
      from hth), ← bind_assoc]
    exact bind_of_ok hstep

/-- **The loop** wakes those whose tick has come. -/
theorem Sound.wakeDue_eq (hk : k.Sound g) (now : Nat) (hg : g.state = .running)
    (hn : k.sleepers.size ≤ n) :
    Core.wakeDue now n k = .ok (k.dueAt now).length (k.awakened now (k.dueAt now)) ∧
      (k.awakened now (k.dueAt now)).Sound g := by
  induction n generalizing k with
  | zero =>
    have hempty : k.sleepers.entries = [] := List.length_eq_zero_iff.mp (Nat.le_zero.mp hn)
    rw [dueAt_of_empty hempty, awakened_nil]
    exact ⟨wakeDue_of_empty now 0 hempty, hk⟩
  | succ n ih =>
    cases hnext : k.sleepers.foremost k.earlier with
    | none =>
      have hempty : k.sleepers.entries = [] := Queue.foremostOf_eq_none_iff.mp hnext
      rw [dueAt_of_empty hempty, awakened_nil]
      exact ⟨wakeDue_of_empty now (n + 1) hempty, hk⟩
    | some t =>
      have hmem : t ∈ k.sleepers.entries := Queue.mem_of_foremostOf hnext
      obtain ⟨tick, -, -, hwake, -⟩ := hk.foremost_alarm hnext
      rw [hk.wakeDue_round hg hnext hwake]
      by_cases hlater : now < tick
      · rw [if_pos hlater, hk.dueAt_of_later hnext hwake hlater, awakened_nil]
        exact ⟨rfl, hk⟩
      · have hsize : (k.awakened now [t]).sleepers.size ≤ n := by
          show (k.sleepers.entries.diff [t]).length ≤ n
          have hn : k.sleepers.entries.length ≤ n + 1 := hn
          rw [List.diff_cons, List.diff_nil, List.length_erase_of_mem hmem]
          omega
        obtain ⟨hloop, hs⟩ := ih (hk.awaken now hg hmem).1 hsize
        have hwhole : k.awakened now (t :: (k.awakened now [t]).dueAt now) =
            (k.awakened now [t]).awakened now ((k.awakened now [t]).dueAt now) :=
              awakened_cons k now t _
        rw [if_neg hlater, hk.dueAt_of_due hg hnext hwake (Nat.le_of_not_lt hlater), hwhole]
        exact ⟨bind_of_ok hloop, hs⟩

/-! ## Who is woken -/

/-- Sleepers have ticks. -/
theorem Sound.map_alarms (hk : k.Sound g) : k.alarms.map Prod.fst = k.sleepers.entries := by
  have hall : ∀ ts : List ThreadId, (∀ t ∈ ts, (k.seating.wakeAt t).isSome) →
      (alarmsOf k.seating.wakeAt ts).map Prod.fst = ts := by
    intro ts hts
    induction ts with
    | nil => rfl
    | cons t ts ih =>
      obtain ⟨tick, htick⟩ := Option.isSome_iff_exists.mp (hts t List.mem_cons_self)
      rw [alarmsOf_cons htick, List.map_cons, ih fun u hu => hts u (List.mem_cons_of_mem _ hu)]
  exact hall _ fun t ht => (hk.seating.wakeAt_iff t).mpr ht

theorem mem_dueAt : t ∈ k.dueAt now ↔
    t ∈ k.sleepers.entries ∧ ∃ tick, k.seating.wakeAt t = some tick ∧ tick ≤ now := by
  unfold dueAt
  simp only [List.mem_map, mem_sortedBy, List.mem_filter, decide_eq_true_eq, Prod.exists]
  constructor
  · rintro ⟨t, tick, ⟨hmem, hle⟩, rfl⟩
    obtain ⟨ht, hwake⟩ := mem_alarmsOf.mp hmem
    exact ⟨ht, tick, hwake, hle⟩
  · rintro ⟨ht, tick, hwake, hle⟩
    exact ⟨t, tick, ⟨mem_alarmsOf.mpr ⟨ht, hwake⟩, hle⟩, rfl⟩

theorem getElem?_awakened (k : Core) (now : Nat) (ts : List ThreadId) (u : ThreadId) :
    (k.awakened now ts).threads[u]? =
      (k.threads[u]?).map fun th => if u ∈ ts then th.awakened else th := by
  induction ts generalizing k with
  | nil => simp [awakened_nil]
  | cons t ts ih =>
    rw [awakened_cons, ih]
    show (k.threads.modify t Thread.awakened)[u]?.map _ = _
    rw [Std.ExtTreeMap.getElem?_modify]
    by_cases htu : t = u
    · subst htu
      simp only [Std.compare_self, ↓reduceIte, Option.map_map, List.mem_cons, true_or]
      refine congrArg (Option.map · _) (funext fun th => ?_)
      show (if t ∈ ts then th.awakened.awakened else th.awakened) = th.awakened
      rw [show th.awakened.awakened = th.awakened from rfl, ite_self]
    · have hcmp : ¬ compare t u = .eq := fun h => htu (Std.compare_eq_iff_eq.mp h)
      rw [if_neg hcmp]
      simp only [List.mem_cons, Ne.symm htu, false_or]

/-- Every sleeper whose tick has come has been woken: all in all, `ts`, in this order. -/
structure Wakes (now : Nat) (k : Core) (ts : List ThreadId) (k' : Core) : Prop where
  /-- Sleepers have ticks. -/
  dated : k.alarms.map Prod.fst = k.sleepers.entries
  order : ts = k.dueAt now
  due : ∀ t, t ∈ ts ↔ t ∈ k.sleepers.entries ∧ ∃ tick, k.seating.wakeAt t = some tick ∧ tick ≤ now
  threads : ∀ t : ThreadId, k'.threads[t]? =
    (k.threads[t]?).map fun th => if t ∈ ts then { th with state := .ready, wakeAt := none } else th
  sleepers : k'.sleepers.entries = k.sleepers.entries.filter fun t => t ∉ ts
  alarms : k'.alarms = k.alarms.filter fun x => now < x.2
  ready : k'.ready.entries = k.ready.entries ++ ts
  /-- There is a line on the console for each, and nothing else has changed. -/
  rest : k' = { k with
    threads := k'.threads
    sleepers := k'.sleepers
    ready := k'.ready
    journal := ts.foldl (fun j t => j.said k.console (.wakes t now)) k.journal }

theorem Sound.wakes (hk : k.Sound g) (hg : g.state = .running) :
    Wakes now k (k.dueAt now) (k.awakened now (k.dueAt now)) where
  dated := hk.map_alarms
  order := rfl
  due := fun _ => mem_dueAt
  threads := getElem?_awakened k now _
  sleepers := (hk.seating.nodup .sleep).sdiff_eq_filter
  alarms := by
    have hloop := (hk.wakeDue_eq now hg le_rfl).1
    rw [Core.wakeDue_eq] at hloop
    obtain ⟨woken, m, hm, hw⟩ := bind_eq_ok.mp hloop
    obtain ⟨-, rfl⟩ := pure_eq_ok.mp hw
    exact (hk.sweep le_rfl hm).2.alarms
  ready := rfl
  rest := rfl

/-- The sweep with interrupts disabled. -/
theorem Sound.masked_wakeDue (hk : k.Sound g) (now : Nat) (hg : g.state = .running) :
    masked (do Core.wakeDue now (← get).sleepers.size) k =
      .ok (k.dueAt now).length (k.awakened now (k.dueAt now)) :=
  masked_of_hushed (m := k.hushed.awakened now (k.dueAt now))
    ((hk.withMachine _).wakeDue_eq (k := k.hushed) now hg le_rfl).1 rfl

/-- A sweep that finds nobody changes nothing. -/
theorem Sound.wakeSleepers_none (hk : k.Sound g) (hg : g.state = .running)
    (h : ∀ x ∈ k.alarms, now < x.2) : Core.wakeSleepers now k = .ok 0 k := by
  have hmasked := hk.masked_wakeDue now hg
  rw [dueAt_eq_nil h, awakened_nil] at hmasked
  unfold Core.wakeSleepers
  rw [bind_of_ok hmasked]
  rfl

/-! ## The loop ends -/

/-- Steps that agree wherever the part before them leads agree. -/
theorem bind_congr_of_ok {β : Type} {x : CoreM α} {f f' : α → CoreM β}
    (h : ∀ a m, x k = .ok a m → f a m = f' a m) : (x >>= f) k = (x >>= f') k := by
  cases hx : x k with
  | ok a m => rw [bind_of_ok hx, bind_of_ok hx, h a m hx]
  | error e m => rw [bind_of_error hx, bind_of_error hx]

/-- With as many steps as there are sleepers, the loop does not end for want of steps. -/
theorem wakeDue_succ (hn : k.sleepers.size ≤ n) : wakeDue now (n + 1) k = wakeDue now n k := by
  induction n generalizing k with
  | zero =>
    have hempty : k.sleepers.entries = [] := List.length_eq_zero_iff.mp (Nat.le_zero.mp hn)
    rw [wakeDue_of_empty now 1 hempty, wakeDue_of_empty now 0 hempty]
  | succ n ih =>
    refine bind_congr_of_ok (x := ask earliestSleeper) fun next m hnext => ?_
    obtain ⟨hnext, rfl⟩ := ask_eq_ok_iff.mp hnext
    cases next with
    | none => rfl
    | some t =>
      have hmem : t ∈ m.sleepers.entries := by
        unfold earliestSleeper at hnext
        obtain ⟨-, -, hfirst⟩ := except_bind_ok.mp hnext
        exact Queue.mem_of_foremostOf (except_pure_ok.mp hfirst)
      refine bind_congr_of_ok (x := ask (thread t)) fun th m' hth => ?_
      obtain ⟨-, rfl⟩ := ask_eq_ok_iff.mp hth
      split
      · rfl
      · refine bind_congr_of_ok fun _ m₁ h₁ => bind_congr_of_ok fun _ m₂ h₂ =>
          bind_congr_of_ok fun _ m₃ h₃ => bind_congr_of_ok fun _ m₄ h₄ => ?_
        have hsleepers : m₄.sleepers = m'.sleepers.remove t := by
          obtain rfl := modify_eq_ok.mp h₁
          obtain ⟨-, rfl⟩ := changeThread_eq_ok.mp h₂
          have hdorm := (rests_unblock (N := ∅) t).keeps_dorm _ _ _ h₃
          exact (quiet_say h₄).sleepers.trans (congrArg Prod.fst hdorm)
        have hsize : m₄.sleepers.size ≤ n := by
          rw [hsleepers]
          show (m'.sleepers.entries.erase t).length ≤ n
          have hn : m'.sleepers.entries.length ≤ n + 1 := hn
          rw [List.length_erase_of_mem hmem]
          omega
        rw [bind_congr_of_eq (ih hsize)]

theorem wakeDue_size (hn : k.sleepers.size ≤ n) :
    wakeDue now n k = wakeDue now k.sleepers.size k := by
  induction n, hn using Nat.le_induction with
  | base => rfl
  | succ n hn ih => rw [wakeDue_succ hn, ih]

end Core

namespace Session

variable {frames : List Bool} {s : Session}

/-- What a sweep comes to that wakes the sleepers `ts` and leaves the core `k` to the scheduler. -/
structure Sweep (now : Nat) (s : Session) (ts : List ThreadId) (k : Core) : Prop where
  wakes : Core.Wakes now s.core ts k
  body : Core.masked (do Core.wakeDue now (← get).sleepers.size) s.core = .ok ts.length k
  /-- The scheduler is called if somebody was woken. The answer is the number of those who were. -/
  call : ∃ s', execute (.wakeSleepers now) s = .ok (.done (.number ts.length)) s' ∧
    (ts = [] → s' = { s with core := k }) ∧
    (ts ≠ [] → ∃ k', Core.preempt k = .ok () k' ∧ s' = { s with core := k' })
  /-- No sweep of any core goes on for longer than there are sleepers. -/
  ends : ∀ (m : Core) n, m.sleepers.size ≤ n →
    Core.wakeDue now n m = Core.wakeDue now m.sleepers.size m

/-- **Sweeps.** In a disciplined run, a sweep takes out those of the sleepers whose tick has come.
They are made ready in the stable order of their ticks, and nothing else changes. If there are any,
a more urgent one of them may get the processor, and otherwise that is all. -/
theorem reached_sweep (h : Reached Disciplined frames s) (now : Nat) :
    ∃ k ts, Sweep now s ts k := by
  have hk := h.inOrder
  have hmasked := hk.masked_wakeDue now rfl
  have hfit := h.fit.act (Core.prepares_wakeDue now).flags
    (Core.Makes.masked <| Core.makes_get.bind fun _ => Core.makes_wakeDue _ _) hmasked
  refine ⟨_, _, hk.wakes rfl, hmasked, ?_, fun m n => Core.wakeDue_size⟩
  have hcall : ∀ k', Core.wakeSleepers now s.core = .ok (s.core.dueAt now).length k' →
      execute (.wakeSleepers now) s =
        .ok (.done (.number (s.core.dueAt now).length)) { s with core := k' } := fun k' h =>
    bind_of_ok (onCore_eq_ok.mpr ⟨k', h, rfl⟩)
  by_cases hnone : s.core.dueAt now = []
  · refine ⟨_, hcall (s.core.awakened now (s.core.dueAt now)) ?_, fun _ => rfl,
      fun h => absurd hnone h⟩
    unfold Core.wakeSleepers
    rw [bind_of_ok hmasked, if_neg (by simp [hnone])]
    rfl
  · obtain ⟨k', hpreempt⟩ := (hk.wakeDue_eq now rfl le_rfl).2.preempt_ok rfl rfl hfit
    refine ⟨_, hcall k' ?_, fun h => absurd h hnone, fun _ => ⟨k', hpreempt, rfl⟩⟩
    unfold Core.wakeSleepers
    rw [bind_of_ok hmasked, if_pos (List.length_pos_iff.mpr hnone), bind_of_ok hpreempt]
    rfl

/-- Threads 4, 3 and 5 are due at tick 9, in this order, and thread 6 is not. The first of them, the
most urgent to have come, gets the processor. -/
theorem reached_sweep_of_four : ∃ s s', Reached Disciplined [] s ∧
    s.core.sleepers.entries = [3, 4, 5, 6] ∧
    [3, 4, 5, 6].map s.core.seating.wakeAt = [some 9, some 7, some 9, some 30] ∧
    execute (.wakeSleepers 9) s = .ok (.done (.number 3)) s' ∧
    s'.core.current = 4 ∧ s'.core.ready.entries = [3, 5, 1] ∧
    ∃ k ts, Sweep 9 s ts k := by
  have hrun : (afterBoot ⟨none, none, none, false, none⟩
      [.create "first" 40, .sleepUntil 9, .create "second" 40, .sleepUntil 7, .create "third" 40,
        .sleepUntil 9, .create "last" 40, .sleepUntil 30]).any (fun s =>
      decide (s.core.sleepers.entries = [3, 4, 5, 6] ∧
        [3, 4, 5, 6].map s.core.seating.wakeAt = [some 9, some 7, some 9, some 30]) &&
      succeeds (fun a s' => decide (a = .done (.number 3) ∧ s'.core.current = 4 ∧
        s'.core.ready.entries = [3, 5, 1])) (execute (.wakeSleepers 9) s)) = true := by
    decide +kernel
  obtain ⟨s, hs, hrun⟩ := (Option.any_eq_true _ _).mp hrun
  rw [Bool.and_eq_true] at hrun
  obtain ⟨hbefore, hafter⟩ := hrun
  obtain ⟨hsleepers, hticks⟩ := of_decide_eq_true hbefore
  obtain ⟨a, s', he, hafter⟩ := exists_of_succeeds hafter
  obtain ⟨rfl, hcurrent, hready⟩ := of_decide_eq_true hafter
  have hreached : Reached Disciplined [] s := reached_afterBoot (fun _ _ => Disciplined.plain) hs
  exact ⟨s, s', hreached, hsleepers, hticks, he, hcurrent, hready, reached_sweep hreached 9⟩

end Session

end ThreadCore
