import ThreadCore.Proofs.Handlers
import ThreadCore.Proofs.Shelter
import ThreadCore.Proofs.Units

/-!
# Who sleeps, and who is woken

`Core.alarms` are the sleepers and their ticks, in the order in which they went to sleep. The only
steps that change them are a sleep, which adds one at the end, and a sweep of the sleepers
(`Core.wakeDue`). To see whom a sweep wakes and in which order, `Core.sweep` is the same step with
another answer (`Core.wakeDue_eq`): a sweep wakes all that are due and nobody else, by tick, and in
the order in which they went to sleep among equal ticks (`Core.Due`).
-/

namespace ThreadCore

/-- Those that have a tick. -/
def dated (xs : List (ThreadId × Option Nat)) : List (ThreadId × Nat) :=
  xs.filterMap fun x => x.2.map (x.1, ·)

/-- `woken` are those of `alarms` whose tick is at or before `now`, by tick, and in the order of
`alarms` among equal ticks. -/
structure Due (now : Nat) (alarms woken : List (ThreadId × Nat)) : Prop where
  ordered : woken.Pairwise fun x y => x.2 ≤ y.2
  fair : ∀ tick, woken.filter (fun x => x.2 = tick) =
    alarms.filter fun x => x.2 = tick ∧ x.2 ≤ now

namespace Due

variable {now tick : Nat} {t : ThreadId} {x : ThreadId × Nat}
  {alarms before after woken : List (ThreadId × Nat)}

theorem mem_iff (h : Due now alarms woken) : x ∈ woken ↔ x ∈ alarms ∧ x.2 ≤ now := by
  have hx : x ∈ woken.filter (fun y => y.2 = x.2) ↔
      x ∈ alarms.filter fun y => y.2 = x.2 ∧ y.2 ≤ now := by rw [h.fair x.2]
  simpa using hx

theorem nil (h : ∀ x ∈ alarms, now < x.2) : Due now alarms [] := by
  refine ⟨.nil, fun tick => ?_⟩
  symm
  rw [List.filter_nil, List.filter_eq_nil_iff]
  intro x hx hp
  exact absurd (of_decide_eq_true hp).2 (Nat.not_le.mpr (h x hx))

/-- The first of the least tick is woken, and then the others. -/
theorem cons (hb : ∀ x ∈ before, tick < x.2) (ha : ∀ x ∈ after, tick ≤ x.2) (hnow : tick ≤ now)
    (h : Due now (before ++ after) woken) :
    Due now (before ++ (t, tick) :: after) ((t, tick) :: woken) := by
  refine ⟨List.pairwise_cons.mpr ⟨fun x hx => ?_, h.ordered⟩, fun other => ?_⟩
  · rcases List.mem_append.mp (h.mem_iff.mp hx).1 with hx | hx
    · exact (hb x hx).le
    · exact ha x hx
  · have hfair := h.fair other
    rw [List.filter_append] at hfair
    rw [List.filter_append]
    by_cases he : tick = other
    · -- Nobody before has this tick.
      subst he
      have hnone : before.filter (fun x => decide (x.2 = tick ∧ x.2 ≤ now)) = [] := by
        rw [List.filter_eq_nil_iff]
        intro x hx hp
        exact absurd (of_decide_eq_true hp).1 (hb x hx).ne'
      rw [hnone, List.nil_append] at hfair ⊢
      rw [List.filter_cons_of_pos (by simp), List.filter_cons_of_pos (by simp [hnow]), hfair]
    · rw [List.filter_cons_of_neg (by simp [he]), List.filter_cons_of_neg (by simp [he]), hfair]

/-- Those with the same tick are woken together, or none of them is. -/
theorem fair_rest (h : Due now alarms woken) (tick : Nat) : alarms.filter (fun x => x.2 = tick) =
    woken.filter (fun x => x.2 = tick) ++
      (alarms.filter fun x => now < x.2).filter fun x => x.2 = tick := by
  rw [h.fair, List.filter_filter]
  by_cases hp : tick ≤ now
  · have hrest : alarms.filter (fun x => decide (x.2 = tick) && decide (now < x.2)) = [] := by
      rw [List.filter_eq_nil_iff]
      intro x _ hx
      simp only [Bool.and_eq_true, decide_eq_true_eq] at hx
      omega
    rw [hrest, List.append_nil]
    refine List.filter_congr fun x _ => ?_
    rw [decide_eq_decide]
    omega
  · have hnone : alarms.filter (fun x => decide (x.2 = tick ∧ x.2 ≤ now)) = [] := by
      rw [List.filter_eq_nil_iff]
      intro x _ hx
      simp only [decide_eq_true_eq] at hx
      omega
    rw [hnone, List.nil_append]
    refine List.filter_congr fun x _ => ?_
    rw [← Bool.decide_and, decide_eq_decide]
    omega

end Due

namespace Core

variable {α : Type} {k k' m : Core} {g : Stage} {t : ThreadId} {u : Unit} {now n : Nat}
  {σ : ThreadState} {woken : List (ThreadId × Option Nat)} {N : Set (Seat × ThreadId)}

/-- Those of `ts` that have a tick, with it. -/
def alarmsOf (wake : ThreadId → Option Nat) (ts : List ThreadId) : List (ThreadId × Nat) :=
  dated (ts.map fun t => (t, wake t))

/-- The sleepers and their ticks, in the order in which they went to sleep. -/
def alarms (k : Core) : List (ThreadId × Nat) := alarmsOf k.seating.wakeAt k.sleepers.entries

section

variable {wake wake' : ThreadId → Option Nat} {ts ts' : List ThreadId} {tick : Nat}

theorem mem_alarmsOf : (t, tick) ∈ alarmsOf wake ts ↔ t ∈ ts ∧ wake t = some tick := by
  simp only [alarmsOf, dated, List.mem_filterMap, List.mem_map, Option.map_eq_some_iff,
    Prod.mk.injEq]
  constructor
  · rintro ⟨_, ⟨v, hv, rfl⟩, _, hw, rfl, rfl⟩
    exact ⟨hv, hw⟩
  · rintro ⟨ht, hw⟩
    exact ⟨_, ⟨t, ht, rfl⟩, tick, hw, rfl, rfl⟩

theorem alarmsOf_append : alarmsOf wake (ts ++ ts') = alarmsOf wake ts ++ alarmsOf wake ts' := by
  simp [alarmsOf, dated]

theorem alarmsOf_cons (ht : wake t = some tick) :
    alarmsOf wake (t :: ts) = (t, tick) :: alarmsOf wake ts := by
  simp [alarmsOf, dated, ht]

theorem alarmsOf_congr (h : ∀ v ∈ ts, wake' v = wake v) : alarmsOf wake' ts = alarmsOf wake ts :=
  congrArg dated (List.map_congr_left fun v hv => by rw [h v hv])

end

theorem alarms_congr (h : k'.dorm = k.dorm) : k'.alarms = k.alarms := by
  have hs : k'.sleepers = k.sleepers := congrArg Prod.fst h
  have hw : k'.seating.wakeAt = k.seating.wakeAt := congrArg Prod.snd h
  rw [alarms, alarms, hs, hw]

/-- A tick is changed for nobody else. -/
theorem wakeAt_mapThread {v : ThreadId} (f : Thread → Thread) (hv : v ≠ t) :
    (k.mapThread t f).seating.wakeAt v = k.seating.wakeAt v := by
  show ((k.mapThread t f).threads[v]?).bind Thread.wakeAt = _
  rw [getElem?_mapThread, if_neg hv]
  rfl

/-! ## Steps that leave the sleepers alone -/

theorem Respects.keeps_dorm {x : CoreM α} (hx : Respects (Restful N) x) : Keeps dorm x :=
  fun k _ _ h => ((hx k).ok h).dorm

theorem dorm_of_seating (hs : k'.seating.queue .sleep = k.seating.queue .sleep)
    (hw : k'.seating.wakeAt = k.seating.wakeAt) : k'.dorm = k.dorm :=
  Prod.ext (congrArg Queue.mk hs) hw

theorem Quiet.dorm (h : Quiet k k') : k'.dorm = k.dorm :=
  dorm_of_seating (by rw [h.seating]) (by rw [h.seating])

/-- A turn ends, and whoever dies was not asleep. -/
theorem dorm_endTurn (hd : σ = .dying → k'.current ≠ k.current ∧ k.seating.wakeAt k.current = none)
    (h : endTurn σ k = .ok u k') : k'.dorm = k.dorm := by
  obtain ⟨m, t, hq, -, hlive, ha⟩ := endTurn_alike h
  have hc : ∃ th, m.threads[m.current]? = some th := by
    unfold endTurn at h
    simp only [get_bind_eq_ok, demand_bind_eq_ok, ask_bind_eq_ok, thread_eq_ok_iff] at h
    obtain ⟨-, th, hth, -⟩ := h
    exact ⟨th, by rw [hq.threads, hq.current, hth]⟩
  have ht : k'.current = t := congrArg Seating.current ha.seating
  have hseat : k'.seating = m.seating.turn σ t := by
    rw [ha.seating]
    refine seating_turned_of hlive hc (fun hσ => ?_) fun hσ => ?_
    · rw [hq.current, ← ht]
      exact (hd hσ).1.symm
    · rw [hq.seating, hq.current]
      exact (hd hσ).2
  rw [← hq.dorm]
  refine dorm_of_seating ?_ ?_
  · rw [hseat]
    simp [Seating.turn]
  · rw [hseat]
    rfl

theorem keeps_dorm_endTurn (hσ : σ ≠ .dying) : Keeps dorm (endTurn σ) :=
  fun _ _ _ h => dorm_endTurn (fun hd => absurd hd hσ) h

theorem discreet_dorm : Discreet fun _ => Keeps dorm := discreet_of_quiet fun _ _ => Quiet.dorm

theorem keeps_dorm_block : Keeps dorm block :=
  discreet_dorm.closes.block (keeps_dorm_endTurn (by decide))

theorem keeps_dorm_yieldNow : Keeps dorm yieldNow :=
  discreet_dorm.closes.yieldNow (fun t => (rests_enqueueReady (N := ∅) t).keeps_dorm)
    (keeps_dorm_endTurn (by decide)) (keeps_dorm_endTurn (by decide))

theorem keeps_dorm_preempt : Keeps dorm preempt :=
  discreet_dorm.closes.preempt (rests_request (N := ∅)).keeps_dorm keeps_dorm_yieldNow

theorem keeps_dorm_setPriority (p : Priority) : Keeps dorm (setPriority p) :=
  discreet_dorm.closes.setPriority p
    (fun t => Respects.keeps_dorm (N := ∅) <| rests_changeThread t fun _ => rfl)
    (fun t => (rests_refreshPriority (N := ∅) t).keeps_dorm) keeps_dorm_preempt

theorem keeps_dorm_up (s : ObjectId) : Keeps dorm (up s) :=
  discreet_dorm.closes.up s (rests_wakeOne (N := ∅) s).keeps_dorm keeps_dorm_preempt

theorem keeps_dorm_release (l : ObjectId) : Keeps dorm (release l) :=
  discreet_dorm.closes.release l
    (fun t => (rests_passOn (N := ∅) l t).keeps_dorm) keeps_dorm_preempt

theorem keeps_dorm_reportFork : Keeps dorm reportFork :=
  discreet_dorm.closes.reportFork (fun t f => (rests_changeFamily (N := ∅) t f).keeps_dorm)
    keeps_dorm_up

theorem keeps_dorm_down (s : ObjectId) : Keeps dorm (down s) := by
  have hchange : ∀ f : Semaphore → Semaphore, Keeps dorm (changeSemaphore s f) := by
    intro f k _ k' h
    obtain ⟨-, rfl⟩ := changeSemaphore_eq_ok.mp h
    rfl
  exact discreet_dorm.closes.down s (hchange _) (fun _ => hchange _)
    (keeps_dorm_endTurn (by decide))

theorem keeps_dorm_acquire (l : ObjectId) : Keeps dorm (acquire l) :=
  discreet_dorm.closes.acquire l (fun t => (rests_setHolder (N := ∅) l t).keeps_dorm)
    (fun _ _ => (rests_waitForLock (N := Set.univ) (Set.mem_univ _)).keeps_dorm)
    (keeps_dorm_endTurn (by decide))

theorem keeps_dorm_await (c l : ObjectId) : Keeps dorm (await c l) := by
  have hchange : ∀ f : Condition → Condition, Keeps dorm (changeCondition c f) := by
    intro f k _ k' h
    obtain ⟨-, rfl⟩ := changeCondition_eq_ok.mp h
    rfl
  exact discreet_dorm.closes.await c l (hchange _) (fun _ => hchange _)
    (fun t => (rests_passOn (N := ∅) l t).keeps_dorm) (keeps_dorm_endTurn (by decide))

theorem keeps_dorm_awaitFork (child : ThreadId) : Keeps dorm (awaitFork child) :=
  discreet_dorm.closes.awaitFork child keeps_dorm_down

theorem keeps_dorm_awaitExit (child : ThreadId) : Keeps dorm (awaitExit child) :=
  discreet_dorm.awaitExit child (fun parent => (rests_collect (N := ∅) parent child).keeps_dorm)
    keeps_dorm_down

theorem keeps_dorm_setHandler (on : Bool) : Keeps dorm (onMachine (Machine.setHandler on)) := by
  intro k _ k' h
  obtain ⟨-, rfl⟩ := setHandler_eq_ok.mp h
  rfl

theorem keeps_dorm_enterHandler : Keeps dorm enterHandler :=
  discreet_dorm.enterHandler (rests_mask (N := ∅)).keeps_dorm (keeps_dorm_setHandler true)

theorem keeps_dorm_leaveHandler (was : Bool) : Keeps dorm (leaveHandler was) :=
  discreet_dorm.leaveHandler was (keeps_dorm_setHandler false) (keeps_modify fun _ => rfl)
    (keeps_dorm_endTurn (by decide)) keeps_dorm_yieldNow (rests_unmask (N := ∅) was).keeps_dorm

/-- A new thread is not asleep. -/
theorem Sound.dorm_spawn (hk : k.Sound g) {name : String} {priority : Priority} {task : Option Task}
    {a : Except Refusal ThreadId} (h : Core.spawn name priority task k = .ok a k') :
    k'.dorm = k.dorm := by
  unfold Core.spawn checkPriority at h
  simp only [demand_bind_eq_ok, ask_bind_eq_ok] at h
  obtain ⟨-, th, -, h⟩ := h
  obtain ⟨r, m, hm, h⟩ := bind_eq_ok.mp h
  have hdorm : m.dorm = k.dorm := by
    rcases register_eq_ok hm with ⟨refusal, rfl, hq⟩ | ⟨n, page, hq, rfl, rfl⟩
    · exact hq.dorm
    · rw [← hq.dorm]
      refine dorm_of_seating ?_ ?_
      · rw [seating_enlist_of_fresh (hk.quiet hq).fresh]
        rfl
      · rw [seating_enlist_of_fresh (hk.quiet hq).fresh]
        rfl
  rw [← hdorm]
  cases r with
  | error refusal =>
    exact ((rests_say (N := ∅) _).keeps_dorm.bind fun _ => keeps_pure _) _ _ _ h
  | ok t =>
    exact ((rests_adopt (N := ∅) _ _).keeps_dorm.bind fun _ =>
      (rests_say (N := ∅) _).keeps_dorm.bind fun _ =>
      (rests_unblock (N := ∅) _).keeps_dorm.bind fun _ => keeps_dorm_preempt.bind fun _ =>
      keeps_pure _) _ _ _ h

/-- The thread that exits is not asleep. -/
theorem Sound.dorm_exit (hk : k.Sound g) (hg : g.state = .running) (hs : k.Steered .running)
    (h : Core.exit k = .ok u k') : k'.dorm = k.dorm := by
  have hid : ∀ th, k.running = .ok th → th.id = k.current := fun th hr =>
    hs.current_id (running_eq_ok.mp hr).1
  obtain ⟨m₁, m₂, m₃, -, -, h₁, hq, he, hq'⟩ := Core.exit_eq_ok hid h
  have hm₁ : m₁.dorm = k.dorm := (rests_leaveFamily (N := ∅) _).keeps_dorm _ _ _ h₁
  have hm₂ : m₂.dorm = k.dorm := hq.dorm.trans hm₁
  have hcurrent : m₂.current = k.current :=
    hq.current.trans (((rests_leaveFamily (N := ∅) _) k).ok h₁).current
  have hawake : k.seating.wakeAt k.current = none := by
    have hstands := (hg ▸ hk.seating).current_stands Seat.state_ne_running .sleep
    rw [← Option.not_isSome_iff_eq_none, hk.seating.wakeAt_iff]
    exact hstands
  rw [hq'.dorm, dorm_endTurn (fun _ => ⟨?_, ?_⟩) he, hm₂]
  · rw [hcurrent, ← hq'.current]
    exact hs.exit h
  · rw [hcurrent]
    exact (congrFun (congrArg Prod.snd hm₂) _).trans hawake

/-! ## A sweep -/

/-- The step `wakeDue`, with another answer: who is woken, and the tick of each. -/
def sweep (now : Nat) : (n : Nat) → CoreM (List (ThreadId × Option Nat))
  | 0 => return []
  | n + 1 => do
    match ← ask earliestSleeper with
    | none => return []
    | some t =>
      let th ← ask (thread t)
      if th.wakeAt.any fun tick => now < tick then return []
      modify fun k => { k with sleepers := k.sleepers.remove t }
      changeThread t fun th => { th with wakeAt := none }
      unblock t
      say (.wakes t now)
      return (t, th.wakeAt) :: (← sweep now n)

theorem wakeDue_eq (now n : Nat) : wakeDue now n = List.length <$> sweep now n := by
  induction n with
  | zero => rfl
  | succ n ih =>
    unfold wakeDue sweep
    rw [map_bind]
    refine bind_congr fun next => ?_
    cases next with
    | none => rfl
    | some t =>
      simp only [map_bind]
      refine bind_congr fun th => ?_
      split
      · rfl
      · simp only [map_bind, ih, bind_map_left, map_pure, List.length_cons]

/-- How early a thread is to wake. -/
def earliness (k : Core) (t : ThreadId) : (WithBot Nat)ᵒᵈ :=
  match k.seating.wakeAt t with
  | none => OrderDual.toDual (⊥ : WithBot Nat)
  | some tick => OrderDual.toDual (WithBot.some tick)

theorem earlier_eq (k : Core) :
    k.earlier = fun t v => decide (k.earliness v < k.earliness t) := by
  funext t v
  have hwakeAt : ∀ u, (k.threads[u]?).bind Thread.wakeAt = k.seating.wakeAt u := fun _ => rfl
  unfold earlier earliness
  rw [hwakeAt, hwakeAt]
  cases k.seating.wakeAt t <;> cases k.seating.wakeAt v <;>
    simp only [OrderDual.toDual_lt_toDual, WithBot.coe_lt_coe, WithBot.bot_lt_coe, not_lt_bot,
      decide_true, decide_false]

theorem earliness_lt {v : ThreadId} {a b : Nat} (ht : k.seating.wakeAt t = some a)
    (hv : k.seating.wakeAt v = some b) : k.earliness v < k.earliness t ↔ a < b := by
  simp only [earliness, ht, hv, OrderDual.toDual_lt_toDual, WithBot.coe_lt_coe]

/-- The core once `t` has left the sleepers, without a tick. -/
def roused (k : Core) (t : ThreadId) : Core :=
  ({ k with sleepers := k.sleepers.remove t } : Core).mapThread t fun th =>
    { th with wakeAt := none }

/-- The sleeper that is woken first has the least tick, and those before it have greater ones. -/
theorem Sound.foremost_alarm (hk : k.Sound g) (h : k.sleepers.foremost k.earlier = some t) :
    ∃ tick before after, k.seating.wakeAt t = some tick ∧ k.alarms = before ++ (t, tick) :: after ∧
      (∀ x ∈ before, tick < x.2) ∧ (∀ x ∈ after, tick ≤ x.2) ∧
      (k.roused t).alarms = before ++ after := by
  rw [earlier_eq] at h
  obtain ⟨before, after, hsplit, hbefore, hafter⟩ := Queue.foremostOf_eq_some h
  have ht : t ∈ k.seating.queue .sleep := Queue.mem_of_foremostOf h
  obtain ⟨tick, htick⟩ := Option.isSome_iff_exists.mp ((hk.seating.wakeAt_iff t).mpr ht)
  have hnodup : (before ++ t :: after).Nodup := hsplit ▸ hk.seating.nodup .sleep
  rw [List.nodup_append', List.nodup_cons] at hnodup
  obtain ⟨-, ⟨hta, -⟩, hdisjoint⟩ := hnodup
  have htb : t ∉ before := fun hb => hdisjoint hb List.mem_cons_self
  refine ⟨tick, alarmsOf k.seating.wakeAt before, alarmsOf k.seating.wakeAt after, htick, ?_,
    fun x hx => ?_, fun x hx => ?_, ?_⟩
  · rw [alarms, hsplit, alarmsOf_append, alarmsOf_cons htick]
  · obtain ⟨hx, hw⟩ := mem_alarmsOf.mp hx
    exact (earliness_lt htick hw).mp (hbefore _ hx)
  · obtain ⟨hx, hw⟩ := mem_alarmsOf.mp hx
    exact Nat.le_of_not_lt fun hlt =>
      absurd (hafter _ hx) (not_le.mpr ((earliness_lt hw htick).mpr hlt))
  · -- The others keep their ticks.
    have hsame : ∀ ts : List ThreadId, t ∉ ts →
        alarmsOf (k.roused t).seating.wakeAt ts = alarmsOf k.seating.wakeAt ts :=
      fun ts hts => alarmsOf_congr fun v hv => wakeAt_mapThread _ fun he => hts (he ▸ hv)
    show alarmsOf _ (k.sleepers.entries.erase t) = _
    rw [hsplit, List.erase_append_right _ htb, List.erase_cons_head, alarmsOf_append,
      hsame before htb, hsame after hta]

/-- A sleeper that was roused and unblocked is ready, and nobody else has changed. -/
theorem Sound.roused (hk : k.Sound g) (ht : t ∈ k.sleepers.entries) {th : Thread}
    (hth : k.threads[t]? = some th) (h : Core.unblock t (k.roused t) = .ok u k') :
    k'.Sound g ∧ k'.dorm = (k.roused t).dorm ∧ k'.seating.state t = some .ready ∧
      ∀ v, k.seating.state v = some .ready → k'.seating.state v = some .ready := by
  have hseat : (k.roused t).seating =
      (k.seating.setQueue .sleep (k.seating.queue .sleep |>.erase t)).setWakeAt t none := by
    unfold Core.roused
    rw [seating_wakeAt (k := { k with sleepers := k.sleepers.remove t }) hth, seating_sleepers]
    rfl
  have hstands : (k.roused t).seating.Stands t := by
    rw [hseat]
    exact hk.seating.stands_of_leave (p := .sleep) ht
  refine ⟨(hk.wake hth).unblock hstands h, (rests_unblock (N := ∅) t).keeps_dorm _ _ _ h,
    (unblock_state h).2, fun v hv => ?_⟩
  obtain ⟨-, m, th', hq, hth', -, hq'⟩ := unblock_eq_ok h
  rw [hq'.seating, seating_ready, seating_state hth']
  have hm : m.seating.state v = some .ready := by
    rw [hq.seating, hseat]
    exact hv
  simp only [Seating.setQueue, Seating.setState, Function.update_apply, hm, ite_self]

/-- A sweep has woken those of the sleepers that were due, and nobody else. -/
structure Swept (now : Nat) (k : Core) (woken : List (ThreadId × Nat)) (k' : Core) : Prop where
  due : Due now k.alarms woken
  alarms : k'.alarms = k.alarms.filter fun x => now < x.2
  woken : ∀ x ∈ k.alarms, x.2 ≤ now → k'.seating.state x.1 = some .ready
  ready : ∀ v, k.seating.state v = some .ready → k'.seating.state v = some .ready

/-- Nobody was due. -/
theorem swept_nil (h : ∀ x ∈ k.alarms, now < x.2) : Swept now k [] k where
  due := .nil h
  alarms := (List.filter_eq_self.mpr fun x hx => decide_eq_true (h x hx)).symm
  woken := fun x hx hd => absurd hd (Nat.not_le.mpr (h x hx))
  ready := fun _ hv => hv

theorem swept_of_empty (h : k.sleepers.entries = []) : Swept now k [] k := by
  refine swept_nil fun x hx => ?_
  rw [alarms, h] at hx
  cases hx

theorem Swept.congr {woken : List (ThreadId × Nat)} {n n' : Core} (h : Swept now n woken n')
    (hk : k.seating = n.seating) (hk' : k'.seating = n'.seating) : Swept now k woken k' := by
  have halarms : k.alarms = n.alarms := alarms_congr (dorm_of_seating (by rw [hk]) (by rw [hk]))
  have halarms' : k'.alarms = n'.alarms :=
    alarms_congr (dorm_of_seating (by rw [hk']) (by rw [hk']))
  refine ⟨halarms ▸ h.due, ?_, ?_, ?_⟩
  · rw [halarms, halarms', h.alarms]
  · rw [halarms, hk']
    exact h.woken
  · rw [hk, hk']
    exact h.ready

/-- The first was due, and then the others were seen to. -/
theorem swept_cons {tick : Nat} {before after woken : List (ThreadId × Nat)}
    (hk : k.alarms = before ++ (t, tick) :: after) (hb : ∀ x ∈ before, tick < x.2)
    (ha : ∀ x ∈ after, tick ≤ x.2) (hdue : tick ≤ now) (hm : m.alarms = before ++ after)
    (ht : m.seating.state t = some .ready)
    (hready : ∀ v, k.seating.state v = some .ready → m.seating.state v = some .ready)
    (h : Swept now m woken k') : Swept now k ((t, tick) :: woken) k' := by
  obtain ⟨hd, halarms, hwoken, hready'⟩ := h
  rw [hm] at hd halarms hwoken
  refine ⟨hk ▸ .cons hb ha hdue hd, ?_, fun x hx hx' => ?_, fun v hv => hready' v (hready v hv)⟩
  · rw [halarms, hk, List.filter_append, List.filter_append,
      List.filter_cons_of_neg (by simpa using hdue)]
  · rw [hk, List.mem_append, List.mem_cons] at hx
    rcases hx with hx | rfl | hx
    · exact hwoken x (List.mem_append_left _ hx) hx'
    · exact hready' t ht
    · exact hwoken x (List.mem_append_right _ hx) hx'

/-- **A sweep.** It wakes those that are due, in order, and nobody else. -/
theorem Sound.sweep (hk : k.Sound g) (hn : k.sleepers.entries.length ≤ n)
    (h : Core.sweep now n k = .ok woken k') : k'.Sound g ∧ Swept now k (dated woken) k' := by
  induction n generalizing k woken with
  | zero =>
    obtain ⟨rfl, rfl⟩ := pure_eq_ok.mp h
    exact ⟨hk, swept_of_empty (List.length_eq_zero_iff.mp (Nat.le_zero.mp hn))⟩
  | succ n ih =>
    unfold Core.sweep earliestSleeper checkLive at h
    simp only [ask_bind_eq_ok, except_bind_ok, demand_ok, except_pure_ok] at h
    obtain ⟨next, ⟨_, -, hnext⟩, h⟩ := h
    cases next with
    | none =>
      obtain ⟨rfl, rfl⟩ := pure_eq_ok.mp h
      exact ⟨hk, swept_of_empty (Queue.foremostOf_eq_none_iff.mp hnext)⟩
    | some t =>
      have hmem : t ∈ k.sleepers.entries := Queue.mem_of_foremostOf hnext
      obtain ⟨tick, before, after, hwake, halarms, hbefore, hafter, hrest⟩ :=
        hk.foremost_alarm hnext
      simp only [ask_bind_eq_ok, thread_eq_ok_iff] at h
      obtain ⟨th, hth, h⟩ := h
      have htick : th.wakeAt = some tick :=
        (congrArg (Option.bind · Thread.wakeAt) hth).symm.trans hwake
      rw [htick, Option.any_some] at h
      split at h
      · -- The least tick is to come.
        rename_i hlater
        obtain ⟨rfl, rfl⟩ := pure_eq_ok.mp h
        have hlater : now < tick := of_decide_eq_true hlater
        refine ⟨hk, swept_nil fun x hx => ?_⟩
        rw [halarms, List.mem_append, List.mem_cons] at hx
        rcases hx with hx | rfl | hx
        · exact hlater.trans (hbefore x hx)
        · exact hlater
        · exact hlater.trans_le (hafter x hx)
      · rename_i hlater
        have hdue : tick ≤ now := by simpa using hlater
        simp only [modify_bind_eq_ok, changeThread_bind_eq_ok] at h
        simp only [bind_eq_ok, pure_eq_ok] at h
        obtain ⟨-, _, m, hm, _, m', hm', rest, m'', hsweep, rfl, rfl⟩ := h
        obtain ⟨hs, hdorm, ht, hready⟩ := hk.roused hmem hth hm
        have hq := quiet_say hm'
        have hsleepers : m'.sleepers = k.sleepers.remove t :=
          congrArg Prod.fst (hq.dorm.trans hdorm)
        have hlength : m'.sleepers.entries.length ≤ n := by
          rw [hsleepers]
          show (k.sleepers.entries.erase t).length ≤ n
          rw [List.length_erase_of_mem hmem]
          omega
        have hm'' : m'.alarms = before ++ after := (alarms_congr (hq.dorm.trans hdorm)).trans hrest
        obtain ⟨hs', hswept⟩ := ih (hs.quiet hq) hlength hsweep
        exact ⟨hs', swept_cons halarms hbefore hafter hdue hm'' (hq.seating ▸ ht)
          (fun v hv => hq.seating ▸ hready v hv) hswept⟩

/-! ## The sweep of the timer -/

/-- The step `wakeSleepers`, with the answer of `sweep`. -/
def sweepAll (now : Nat) : CoreM (List (ThreadId × Option Nat)) := do
  let woken ← masked do sweep now (← get).sleepers.size
  if 0 < woken.length then preempt
  return woken

theorem wakeSleepers_eq (now : Nat) : wakeSleepers now = List.length <$> sweepAll now := by
  have hmasked : masked (do wakeDue now (← get).sleepers.size) =
      List.length <$> masked (do sweep now (← get).sleepers.size) := by
    simp only [masked, wakeDue_eq, ← map_bind, bind_map_left]
    simp only [map_bind, map_pure]
  unfold wakeSleepers sweepAll
  rw [hmasked, bind_map_left, map_bind]
  refine bind_congr fun woken => ?_
  split
  · rw [map_bind]
    exact bind_congr fun _ => rfl
  · rfl

/-- The step `timerInterrupt`, with the answer of `sweep`. -/
def timerSweep : CoreM (List (ThreadId × Option Nat)) :=
  handleInterrupt do
    let now := (← get).machine.ticks
    countTick
    countSlice
    sweepAll now

theorem timerInterrupt_eq : timerInterrupt = (fun _ => ()) <$> timerSweep := by
  unfold timerInterrupt timerSweep handleInterrupt
  simp only [wakeSleepers_eq, map_bind, bind_map_left, bind_assoc, map_pure, pure_bind]

theorem Sound.sweepAll (hk : k.Sound g) (hg : g.handler = true)
    (h : Core.sweepAll now k = .ok woken k') : k'.Sound g ∧ Swept now k (dated woken) k' := by
  unfold Core.sweepAll at h
  rw [bind_eq_ok] at h
  obtain ⟨woken', n, hn, h⟩ := h
  obtain ⟨m, m', hq, hw, hq'⟩ := masked_eq_ok hn
  rw [get_bind_eq_ok] at hw
  obtain ⟨hs, hswept⟩ := (hk.quiet hq).sweep le_rfl hw
  have hsound : n.Sound g := hs.quiet hq'
  -- In a handler the yield is left to the return.
  have hpreempt : ∀ {v}, Core.preempt n = .ok v k' → k' = n ∨
      k' = { n with yieldPending := true } := by
    intro v h
    unfold Core.preempt at h
    rw [ask_bind_eq_ok] at h
    obtain ⟨b, -, h⟩ := h
    split at h
    · rw [get_bind_eq_ok, if_pos (hsound.handler.trans hg), modify_eq_ok] at h
      exact .inr h
    · exact .inl (pure_eq_ok.mp h).2.symm
  have hk' : woken = woken' ∧ (k' = n ∨ k' = { n with yieldPending := true }) := by
    split at h
    · simp only [bind_eq_ok, pure_eq_ok] at h
      obtain ⟨_, n', hp, rfl, rfl⟩ := h
      exact ⟨rfl, hpreempt hp⟩
    · obtain ⟨rfl, rfl⟩ := pure_eq_ok.mp h
      exact ⟨rfl, .inl rfl⟩
  obtain ⟨rfl, rfl | rfl⟩ := hk'
  · exact ⟨hsound, hswept.congr hq.seating.symm hq'.seating⟩
  · exact ⟨hsound.withPending true, hswept.congr hq.seating.symm hq'.seating⟩

/-- Who is ready stays awake on the return from a handler. -/
theorem awake_leaveHandler {was : Bool} {v : ThreadId} (hv : k.seating.state v = some .ready)
    (hc : v ≠ k.current) (h : leaveHandler was k = .ok u k') : k'.Awake v := by
  let m : Core := { k.cleared with yieldPending := false }
  have hready : m.seating.state v = some .ready := hv
  unfold leaveHandler at h
  rw [bind_eq_ok] at h
  obtain ⟨_, _, hm, h⟩ := h
  obtain ⟨-, rfl⟩ := setHandler_eq_ok.mp hm
  rw [get_bind_eq_ok, modify_bind_eq_ok, get_bind_eq_ok] at h
  split at h
  · rw [bind_eq_ok] at h
    obtain ⟨_, n, hn, h⟩ := h
    exact (Awake.endTurn (.inl hready) hc hn).quiet (quiet_unmask h)
  · split at h
    · rw [bind_eq_ok] at h
      obtain ⟨_, n, hn, h⟩ := h
      exact (awake_yieldNow hready hn).quiet (quiet_unmask h)
    · exact Awake.quiet (.inl hready) (quiet_unmask h)

theorem ticks_enterHandler {was : Bool} (h : enterHandler k = .ok was k') :
    k'.machine.ticks = k.machine.ticks := by
  unfold enterHandler at h
  simp only [bind_eq_ok, setHandler_eq_ok, pure_eq_ok] at h
  obtain ⟨_, m, hm, _, _, ⟨-, rfl⟩, -, rfl⟩ := h
  rw [onMachine_eq_ok] at hm
  obtain ⟨w, hw, rfl⟩ := hm
  unfold Machine.mask at hw
  simp only [get_bind_eq_ok, modify_bind_eq_ok, pure_eq_ok] at hw
  obtain ⟨-, rfl⟩ := hw
  rfl

/-- **The timer.** Its interrupt wakes those whose tick has come, in order, and nobody else. -/
theorem Sound.timerSweep (hk : k.Sound g) (h : Core.timerSweep k = .ok woken k') :
    Due k.machine.ticks k.alarms (dated woken) ∧
      k'.alarms = k.alarms.filter (fun x => k.machine.ticks < x.2) ∧
      ∀ x ∈ k.alarms, x.2 ≤ k.machine.ticks → k'.Awake x.1 := by
  unfold Core.timerSweep handleInterrupt at h
  rw [bind_eq_ok] at h
  obtain ⟨was, m, hm, h⟩ := h
  obtain ⟨-, hs, -⟩ := hk.enterHandler hm
  rw [bind_eq_ok] at h
  obtain ⟨woken', n, hn, h⟩ := h
  rw [get_bind_eq_ok] at hn
  simp only [bind_eq_ok] at hn
  obtain ⟨_, m₁, h₁, _, m₂, h₂, h₃⟩ := hn
  have hq := quiet_countTick h₁
  have hsl := (hs.quiet hq).countSlice rfl h₂
  obtain ⟨hs', hdue, halarms, hready, -⟩ := hsl.sound.sweepAll rfl h₃
  simp only [bind_eq_ok, pure_eq_ok] at h
  obtain ⟨_, n', hn', rfl, rfl⟩ := h
  have hdorm : m₂.alarms = k.alarms := alarms_congr <| by
    rw [rests_countSlice (N := ∅).keeps_dorm _ _ _ h₂, hq.dorm, keeps_dorm_enterHandler _ _ _ hm]
  rw [hdorm, ticks_enterHandler hm] at hdue halarms hready
  refine ⟨hdue, (alarms_congr (keeps_dorm_leaveHandler _ _ _ _ hn')).trans halarms,
    fun x hx hd => ?_⟩
  refine awake_leaveHandler (hready x hx hd) (fun he => ?_) hn'
  have hrunning : n.seating.state n.current = some .running := hs'.seating.current_running
  rw [← he, hready x hx hd] at hrunning
  cases hrunning

/-! ## Going to sleep -/

/-- Whoever goes to sleep is the last of the sleepers. Neither the idle thread nor a tick that has
come puts anybody there. -/
theorem Sound.alarms_sleepUntil (hk : k.Sound g) (hg : g.state = .running) {tick : Nat}
    (h : Core.sleepUntil tick k = .ok u k') : k'.alarms = k.alarms ++
      if k.current ≠ k.idle ∧ k.machine.ticks < tick then [(k.current, tick)] else [] := by
  unfold Core.sleepUntil at h
  simp only [outsideHandler_bind_eq_ok, ask_bind_eq_ok, get_bind_eq_ok] at h
  obtain ⟨-, th, hr, h⟩ := h
  have hid : th.id = k.current := (hk.running_eq hr).1.trans hk.current.symm
  rw [hid] at h
  split at h
  · rename_i hstays
    obtain ⟨-, rfl⟩ := pure_eq_ok.mp h
    rw [if_neg, List.append_nil]
    rintro ⟨hi, ht⟩
    exact hstays.elim hi (Nat.not_le.mpr ht)
  · rename_i hsleeps
    rw [not_or, Nat.not_le] at hsleeps
    rw [if_pos hsleeps]
    obtain ⟨m, m', hq, h, hq'⟩ := masked_eq_ok h
    simp only [changeThread_bind_eq_ok, ask_bind_eq_ok, modify_bind_eq_ok,
      Queue.push_eq_ok_iff] at h
    obtain ⟨⟨mth, hmth⟩, sleepers, ⟨-, hpush⟩, h⟩ := h
    simp only [bind_eq_ok] at h
    obtain ⟨_, n, hn, h⟩ := h
    rw [alarms_congr hq'.dorm, alarms_congr (keeps_dorm_endTurn (by decide) _ _ _ h),
      alarms_congr (quiet_say hn).dorm]
    have hstands := (hg ▸ hk.seating).current_stands Seat.state_ne_running .sleep
    have hwake : (m.mapThread k.current fun th => { th with wakeAt := some tick }).seating.wakeAt
        k.current = some tick := by
      rw [seating_wakeAt hmth]
      exact Function.update_self ..
    show alarmsOf _ sleepers.entries = _
    rw [hpush, alarmsOf_append]
    show alarmsOf (m.mapThread k.current _).seating.wakeAt _ ++
      alarmsOf (m.mapThread k.current _).seating.wakeAt _ = _
    rw [alarmsOf_cons hwake, ← alarms_congr hq.dorm]
    refine congrArg (· ++ _) (alarmsOf_congr fun v hv => wakeAt_mapThread _ ?_)
    rintro rfl
    have hsleepers : m.sleepers = k.sleepers := congrArg Prod.fst hq.dorm
    exact hstands (show _ ∈ k.sleepers.entries from hsleepers ▸ hv)

end Core

end ThreadCore
