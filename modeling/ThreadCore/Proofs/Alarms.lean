import ThreadCore.Proofs.Handoffs
import ThreadCore.Proofs.Sweeps

/-!
# Sleepers wake on time

A run that leaves the waking to the interrupts of the timer (`Session.Punctual`). Some of its calls
are of many ticks at once, each with an interrupt, so the log is spelled out first
(`Session.spelledOut`): what is left are calls that put their caller to sleep, interrupts of the
timer, and transitions that have nothing to do with sleep (`Session.leads_stirs`).

Who sleeps is so determined by the log: those who went to sleep and have not heard the timer at
their tick (`Asleep`). And since whoever goes to sleep has a tick that is to come, while whoever was
woken had one that had come, the threads are woken in the order of their ticks, over all interrupts
of the run (`Session.logged_punctual`).
-/

namespace ThreadCore

variable {log : List Entry} {e : Entry} {t : ThreadId} {tick : Nat}

/-! ## What a transition has to do with sleep -/

namespace Entry

/-- The caller, if it is not the idle thread and the tick is to come. -/
def asleepUntil (e : Entry) (tick : Nat) : Option (ThreadId × Nat) :=
  if e.caller ≠ e.before.core.idle ∧ e.before.core.machine.ticks < tick then some (e.caller, tick)
    else none

/-- Whom the transition puts to sleep, and until when. -/
def slept (e : Entry) : Option (ThreadId × Nat) :=
  match e.deed with
  | .call (.sleepUntil tick) _ => e.asleepUntil tick
  | .call (.sleepFor ticks) _ =>
    e.asleepUntil (Word.addSaturating e.before.core.machine.ticks ticks)
  | _ => none

/-- Whether the transition is an interrupt of the timer when that has reached the tick. -/
def rings (e : Entry) (tick : Nat) : Bool :=
  match e.deed with
  | .call .timer _ => tick ≤ e.before.core.machine.ticks
  | _ => false

/-- Those whom an interrupt of the timer wakes, in the order in which it does
(`Core.timerInterrupt_eq`), and the tick that each has slept until. -/
def woken (e : Entry) : List (ThreadId × Nat) :=
  match e.deed with
  | .call .timer _ =>
    match Core.timerSweep e.before.core with
    | .ok woken _ => dated woken
    | .error _ _ => []
  | _ => []

/-- An interrupt of the timer: it wakes those whose tick has come, in order, and nobody else. -/
structure Chimes (e : Entry) : Prop where
  rings : ∀ tick, e.rings tick = decide (tick ≤ e.before.core.machine.ticks)
  slept : e.slept = none
  due : Due e.before.core.machine.ticks e.before.core.alarms e.woken
  alarms : e.after.core.alarms =
    e.before.core.alarms.filter fun x => e.before.core.machine.ticks < x.2
  awake : ∀ x ∈ e.before.core.alarms, x.2 ≤ e.before.core.machine.ticks → e.after.core.Awake x.1

/-- A transition that wakes nobody, and at most puts its caller to sleep. -/
structure Silent (e : Entry) : Prop where
  rings : ∀ tick, e.rings tick = false
  woken : e.woken = []
  alarms : e.after.core.alarms = e.before.core.alarms ++ e.slept.toList
  later : ∀ x ∈ e.slept, e.before.core.machine.ticks < x.2

end Entry

/-- Who went to sleep, in order, and until when. -/
def bedtimes : List Entry → List (ThreadId × Nat)
  | [] => []
  | e :: log => bedtimes log ++ e.slept.toList

/-- Who was woken, in order, and the tick that each had slept until. -/
def wakings : List Entry → List (ThreadId × Nat)
  | [] => []
  | e :: log => wakings log ++ e.woken

/-- `t` went to sleep until `tick`, and the timer has not rung for that tick since. -/
def Asleep (log : List Entry) (t : ThreadId) (tick : Nat) : Prop :=
  ∃ later e earlier, log = later ++ e :: earlier ∧ e.slept = some (t, tick) ∧
    ∀ x ∈ later, x.rings tick = false

theorem asleep_cons : Asleep (e :: log) t tick ↔
    e.slept = some (t, tick) ∨ e.rings tick = false ∧ Asleep log t tick := by
  constructor
  · rintro ⟨later, e', earlier, hlog, hslept, hsilent⟩
    cases later with
    | nil =>
      obtain ⟨rfl, -⟩ := List.cons.inj hlog
      exact .inl hslept
    | cons x later =>
      obtain ⟨rfl, hrest⟩ := List.cons.inj hlog
      exact .inr ⟨hsilent _ List.mem_cons_self, later, e', earlier, hrest, hslept,
        fun y hy => hsilent y (List.mem_cons_of_mem _ hy)⟩
  · rintro (hslept | ⟨he, later, e', earlier, rfl, hslept, hsilent⟩)
    · exact ⟨[], e, log, rfl, hslept, fun x hx => absurd hx List.not_mem_nil⟩
    · refine ⟨e :: later, e', earlier, rfl, hslept, fun x hx => ?_⟩
      rcases List.mem_cons.mp hx with rfl | hx
      · exact he
      · exact hsilent x hx

namespace Core

variable {k : Core} {g : Stage}

/-- `t` is blocked and among the sleepers, to be woken at `tick`. -/
structure Sleeps (k : Core) (t : ThreadId) (tick : Nat) : Prop where
  blocked : k.seating.state t = some .blocked
  mem : t ∈ k.sleepers
  wakeAt : k.seating.wakeAt t = some tick

/-- `t` is ready or runs, is not among the sleepers and has no tick. -/
structure IsUp (k : Core) (t : ThreadId) : Prop where
  awake : k.Awake t
  not_mem : t ∉ k.sleepers
  wakeAt : k.seating.wakeAt t = none

theorem Sound.sleeps (hk : k.Sound g) (hg : g.state = .running) (h : (t, tick) ∈ k.alarms) :
    k.Sleeps t tick := by
  obtain ⟨hmem, hwake⟩ := mem_alarmsOf.mp h
  obtain ⟨th, hth, hs⟩ := hk.state_of_mem hg (p := .sleep) hmem
  exact ⟨(state_eq hth).trans (congrArg some hs), hmem, hwake⟩

theorem Sound.isUp (hk : k.Sound g) (hg : g.state = .running) (h : k.Awake t) : k.IsUp t := by
  have hmem : t ∉ k.sleepers := by
    intro hmem
    obtain ⟨th, hth, hs⟩ := hk.state_of_mem hg (p := .sleep) hmem
    have hstate : k.seating.state t = some .blocked := (state_eq hth).trans (congrArg some hs)
    rcases h with h | h
    · cases hstate.symm.trans h
    · cases hstate.symm.trans h
  refine ⟨h, hmem, ?_⟩
  rw [← Option.not_isSome_iff_eq_none, hk.seating.wakeAt_iff]
  exact hmem

end Core

namespace Session

variable {s s' : Session} {c : Call} {a : Answer} {d : Deed} {frames : List Bool}

/-! ## Punctual runs -/

/-- A disciplined call that leaves the waking to the interrupts of the timer. -/
structure Punctual (s : Session) (c : Call) : Prop extends Disciplined s c where
  sweep : ∀ now, c ≠ .wakeSleepers now

/-- Besides, it is no call of many ticks. -/
structure Elementary (s : Session) (c : Call) : Prop extends Punctual s c where
  tick : ∀ n, c ≠ .tick n

/-- What `n` ticks consist of. -/
def beats (n : Nat) : List Call := (List.replicate n [.advance 1, .timer]).flatten

/-- Whether the call is one that ticks consist of. -/
def isBeat (c : Call) : Bool := c = .advance 1 ∨ c = .timer

theorem Elementary.of_isBeat (hc : isBeat c = true) : Elementary s c := by
  rcases of_decide_eq_true hc with rfl | rfl
  · exact ⟨⟨⟨nofun, nofun, fun _ h => h⟩, nofun⟩, nofun⟩
  · exact ⟨⟨⟨nofun, nofun, fun _ h => h⟩, nofun⟩, nofun⟩

/-- The log with each call of many ticks replaced by what it consists of. -/
def spelledOut : List Entry → List Entry
  | [] => []
  | e :: log =>
    match e.deed with
    | .call (.tick n) _ =>
      match replay (fun _ _ => isBeat) (spelledOut log) e.before (beats n) with
      | some (log', _) => log'
      | none => spelledOut log
    | _ => e :: spelledOut log

theorem replay_beats (log : List Entry) {n : Nat} {u : Unit} {k : Core}
    (h : Core.ticks n s.core = .ok u k) :
    ∃ log', replay (fun _ _ => isBeat) log s (beats n) = some (log', { s with core := k }) := by
  induction n generalizing s log with
  | zero =>
    obtain ⟨-, rfl⟩ := pure_eq_ok.mp h
    exact ⟨log, rfl⟩
  | succ n ih =>
    unfold Core.ticks Core.tick at h
    simp only [bind_eq_ok] at h
    obtain ⟨_, m', ⟨_, m, hm, hm'⟩, h⟩ := h
    have hadvance : execute (.advance 1) s =
        .ok (.done (.number m.machine.ticks)) { s with core := m } := by
      refine report_ok.mpr ⟨m.machine.ticks, m, ?_, rfl, rfl⟩
      unfold Core.advance
      exact bind_eq_ok.mpr ⟨_, m, hm, rfl⟩
    have htimer : execute .timer { s with core := m } =
        .ok (.done .nothing) { s with core := m' } :=
      report_ok.mpr ⟨_, m', hm', rfl, rfl⟩
    have hbeats : beats (n + 1) = .advance 1 :: .timer :: beats n := by
      simp [beats, List.replicate_succ]
    obtain ⟨log', hlog'⟩ := ih (s := { s with core := m' })
      (⟨_, .call .timer (.done .nothing), { s with core := m' }⟩ ::
        ⟨s, .call (.advance 1) (.done (.number m.machine.ticks)), { s with core := m }⟩ :: log) h
    refine ⟨log', ?_⟩
    rw [hbeats, replay, if_pos (by decide), hadvance]
    show replay _ _ _ _ = _
    rw [replay, if_pos (by decide), htimer]
    exact hlog'

/-- A punctual run has its log spelled out. -/
theorem Logged.spelledOut (h : Logged (fun _ => Punctual) log frames s) :
    Logged (fun _ => Elementary) (Session.spelledOut log) frames s := by
  induction h with
  | boot hb hk => exact .boot hb hk
  | @call log frames s s' c a _ hp he ih =>
    by_cases hc : ∃ n, c = .tick n
    · obtain ⟨n, rfl⟩ := hc
      obtain ⟨_, k, hk, -, rfl⟩ := report_ok.mp he
      obtain ⟨log', hlog'⟩ := replay_beats (Session.spelledOut log) hk
      unfold Session.spelledOut
      simp only [hlog']
      exact logged_replay (fun _ _ _ => .of_isBeat) ih hlog'
    · have hel : Elementary s c := ⟨hp, fun n hn => hc ⟨n, hn⟩⟩
      unfold Session.spelledOut
      split
      · rename_i n _ hd
        cases hd
        exact absurd rfl (hel.tick n)
      · exact ih.call hel he
  | enter _ he ih => exact ih.enter he
  | leave _ he ih => exact ih.leave he

/-! ## What a transition does to the sleepers -/

/-- Whether the call puts somebody to sleep or wakes sleepers. -/
def isStirring : Call → Bool
  | .sleepUntil _ | .sleepFor _ | .wakeSleepers _ | .timer | .tick _ => true
  | _ => false

/-- Other calls leave the sleepers alone. -/
theorem execute_dorm (hk : s.core.InOrder true) (hs : s.core.Steered .running)
    (hc : isStirring c = false) (h : execute c s = .ok a s') : s'.core.dorm = s.core.dorm := by
  obtain hquiet | ⟨hq, α, e, r, hp, hx⟩ := execute_step h
  · exact hquiet.dorm
  have hrest : Core.Respects (Core.Restful ∅) e.step → s'.core.dorm = s.core.dorm :=
    fun hr => hr.keeps_dorm _ _ _ hx
  cases hp with
  | create _ _ | spawn _ _ _ => exact hk.dorm_spawn hx
  | exit => exact hk.dorm_exit rfl hs hx
  | yield => exact Core.keeps_dorm_yieldNow _ _ _ hx
  | block => exact Core.keeps_dorm_block _ _ _ hx
  | unblock t => exact hrest (Core.rests_unblock t)
  | setPriority p => exact Core.keeps_dorm_setPriority p _ _ _ hx
  | overwrite _ _ _ =>
    obtain ⟨stack, -, hx⟩ := Core.ask_bind_eq_ok.mp hx
    have hseat : s'.core.seating = s.core.seating :=
      (Core.changeThread_eq_ok.mp hx).2 ▸ Core.seating_mapThread (fun _ => rfl) fun _ => rfl
    exact Core.dorm_of_seating (by rw [hseat]) (by rw [hseat])
  | yieldOnReturn => exact hrest Core.rests_yieldOnReturn
  | setHandler _ =>
    rw [(Core.setHandler_eq_ok.mp hx).2]
    rfl
  | newSemaphore value => exact hrest (Core.rests_newSemaphore value)
  | newLock => exact hrest Core.rests_newLock
  | newCondition => exact hrest Core.rests_newCondition
  | down _ => exact Core.keeps_dorm_down _ _ _ _ hx
  | tryDown _ => exact hrest (Core.rests_tryDown _)
  | up _ => exact Core.keeps_dorm_up _ _ _ _ hx
  | destroySemaphore _ => exact hrest (Core.rests_destroySemaphore _)
  | acquire _ => exact Core.keeps_dorm_acquire _ _ _ _ hx
  | tryAcquire _ => exact hrest (Core.rests_tryAcquire _)
  | release _ => exact Core.keeps_dorm_release _ _ _ _ hx
  | destroyLock _ => exact hrest (Core.rests_destroyLock _)
  | await _ _ => exact Core.keeps_dorm_await _ _ _ _ _ hx
  | signal _ _ => exact hrest (Core.rests_signal _ _)
  | broadcast _ _ => exact hrest (Core.rests_broadcast _ _)
  | destroyCondition _ => exact hrest (Core.rests_destroyCondition _)
  | setExitStatus status => exact hrest (Core.rests_setExitStatus status)
  | reportFork => exact Core.keeps_dorm_reportFork _ _ _ hx
  | awaitFork child => exact Core.keeps_dorm_awaitFork child _ _ _ hx
  | awaitExit child => exact Core.keeps_dorm_awaitExit child _ _ _ hx
  | tryCollect child => exact hrest (Core.rests_tryCollect child)
  | ask ha => cases hq.symm.trans ha.isQuiet
  | sleepUntil _ | sleepFor _ | wakeSleepers _ | timer | tick _ => cases hc
  | _ => cases hq

theorem silent_of_dorm (hr : ∀ tick, e.rings tick = false) (hw : e.woken = [])
    (hslept : e.slept = none) (hdorm : e.after.core.dorm = e.before.core.dorm) : e.Silent := by
  refine ⟨hr, hw, ?_, fun x hx => ?_⟩
  · rw [hslept, Core.alarms_congr hdorm]
    exact (List.append_nil _).symm
  · rw [hslept] at hx
    cases hx

theorem silent_of_sleepUntil {u : Unit} (hk : e.before.core.InOrder true)
    (hr : ∀ tick, e.rings tick = false) (hw : e.woken = []) (hslept : e.slept = e.asleepUntil tick)
    (h : Core.sleepUntil tick e.before.core = .ok u e.after.core) : e.Silent := by
  have halarms := hk.alarms_sleepUntil rfl h
  unfold Entry.asleepUntil Entry.caller at hslept
  by_cases hsleeps : e.before.core.current ≠ e.before.core.idle ∧ e.before.core.machine.ticks < tick
  · rw [if_pos hsleeps] at hslept halarms
    refine ⟨hr, hw, ?_, fun x hx => ?_⟩
    · rw [hslept, halarms]
      rfl
    · rw [hslept] at hx
      exact Option.some.inj hx ▸ hsleeps.2
  · rw [if_neg hsleeps] at hslept halarms
    refine ⟨hr, hw, ?_, fun x hx => ?_⟩
    · rw [hslept, halarms]
      rfl
    · rw [hslept] at hx
      cases hx

theorem chimes_of_timer {u : Unit} (hk : s.core.InOrder true)
    (h : Core.timerInterrupt s.core = .ok u s'.core) : Entry.Chimes ⟨s, .call .timer a, s'⟩ := by
  rw [Core.timerInterrupt_eq, map_eq_pure_bind] at h
  obtain ⟨woken, k, hk', h⟩ := bind_eq_ok.mp h
  obtain ⟨-, rfl⟩ := pure_eq_ok.mp h
  obtain ⟨hdue, halarms, hawake⟩ := hk.timerSweep hk'
  have hwoken : Entry.woken ⟨s, .call .timer a, s'⟩ = dated woken := by
    unfold Entry.woken
    simp only [hk']
  exact ⟨fun _ => rfl, rfl, hwoken ▸ hdue, halarms, hawake⟩

/-- What a transition has to do with sleep. -/
theorem leads_stirs (hk : s.core.InOrder true) (hs : s.core.Steered .running)
    (hel : ∀ c a, d = .call c a → Elementary s c) (h : Leads s d s') :
    Entry.Chimes ⟨s, d, s'⟩ ∨ Entry.Silent ⟨s, d, s'⟩ := by
  cases h with
  | enter he =>
    obtain ⟨k, hk', rfl⟩ := onCore_eq_ok.mp he
    exact .inr (silent_of_dorm (fun _ => rfl) rfl rfl (Core.keeps_dorm_enterHandler _ _ _ hk'))
  | leave he =>
    obtain ⟨_, k, hk', rfl⟩ := act_eq_ok he
    exact .inr (silent_of_dorm (fun _ => rfl) rfl rfl (Core.keeps_dorm_leaveHandler _ _ _ _ hk'))
  | @call c a _ he =>
    have hc := hel c a rfl
    by_cases hstir : isStirring c = true
    · cases c with
      | sleepUntil tick =>
        obtain ⟨_, k, hk', rfl⟩ := act_eq_ok he
        exact .inr (silent_of_sleepUntil hk (fun _ => rfl) rfl rfl hk')
      | sleepFor ticks =>
        obtain ⟨_, k, hk', rfl⟩ := act_eq_ok he
        rw [Core.sleepFor, get_bind_eq_ok] at hk'
        exact .inr (silent_of_sleepUntil hk (fun _ => rfl) rfl rfl hk')
      | timer =>
        obtain ⟨_, k, hk', rfl⟩ := act_eq_ok he
        exact .inl (chimes_of_timer hk hk')
      | wakeSleepers now => exact absurd rfl (hc.sweep now)
      | tick n => exact absurd rfl (hc.tick n)
      | _ => cases hstir
    · rw [Bool.not_eq_true] at hstir
      have hcalm : (∀ tick, Entry.rings ⟨s, .call c a, s'⟩ tick = false) ∧
          Entry.woken ⟨s, .call c a, s'⟩ = [] ∧ Entry.slept ⟨s, .call c a, s'⟩ = none := by
        cases c <;> first | exact ⟨fun _ => rfl, rfl, rfl⟩ | cases hstir
      exact .inr (silent_of_dorm hcalm.1 hcalm.2.1 hcalm.2.2 (execute_dorm hk hs hstir he))

/-! ## Over a run -/

/-- How those who sleep, those who went to sleep and those who were woken belong together. -/
structure OnSchedule (log : List Entry) (k : Core) : Prop where
  /-- Whoever went to sleep and has not heard the timer sleeps. -/
  asleep : ∀ t tick, Asleep log t tick → (t, tick) ∈ k.alarms
  /-- Those who were woken had ticks that have come, those who sleep have ticks that are later. -/
  past : ∀ x ∈ wakings log, x.2 ≤ k.machine.ticks ∧ ∀ y ∈ k.alarms, x.2 < y.2
  ordered : (wakings log).Pairwise fun x y => x.2 ≤ y.2
  /-- Of those with the same tick the first to go to sleep are the first to be woken. -/
  fair : ∀ tick, (bedtimes log).filter (fun x => x.2 = tick) =
    (wakings log).filter (fun x => x.2 = tick) ++ k.alarms.filter fun x => x.2 = tick

/-- An interrupt of the timer keeps the schedule. -/
theorem OnSchedule.chimes (h : OnSchedule log e.before.core) (hc : e.Chimes)
    (hticks : e.before.core.machine.ticks ≤ e.after.core.machine.ticks) :
    OnSchedule (e :: log) e.after.core := by
  have hrest : ∀ {x}, x ∈ e.after.core.alarms ↔
      x ∈ e.before.core.alarms ∧ e.before.core.machine.ticks < x.2 := by
    simp [hc.alarms]
  constructor
  · intro t tick ht
    rcases asleep_cons.mp ht with ht | ⟨hr, ht⟩
    · rw [hc.slept] at ht
      cases ht
    · rw [hc.rings, decide_eq_false_iff_not, Nat.not_le] at hr
      exact hrest.mpr ⟨h.asleep t tick ht, hr⟩
  · intro x hx
    rcases List.mem_append.mp hx with hx | hx
    · obtain ⟨hp, hl⟩ := h.past x hx
      exact ⟨hp.trans hticks, fun y hy => hl y (hrest.mp hy).1⟩
    · have hp := (hc.due.mem_iff.mp hx).2
      exact ⟨hp.trans hticks, fun y hy => hp.trans_lt (hrest.mp hy).2⟩
  · refine List.pairwise_append.mpr ⟨h.ordered, hc.due.ordered, fun x hx y hy => ?_⟩
    exact ((h.past x hx).2 y (hc.due.mem_iff.mp hy).1).le
  · intro tick
    show (bedtimes log ++ e.slept.toList).filter _ = (wakings log ++ e.woken).filter _ ++ _
    rw [hc.slept, Option.toList_none, List.append_nil, h.fair, List.filter_append,
      List.append_assoc, hc.due.fair_rest, hc.alarms]

/-- So does any other transition. -/
theorem OnSchedule.silent (h : OnSchedule log e.before.core) (hs : e.Silent)
    (hticks : e.before.core.machine.ticks ≤ e.after.core.machine.ticks) :
    OnSchedule (e :: log) e.after.core := by
  have hwakings : wakings (e :: log) = wakings log := by
    rw [wakings, hs.woken, List.append_nil]
  constructor
  · intro t tick ht
    rw [hs.alarms]
    rcases asleep_cons.mp ht with ht | ⟨-, ht⟩
    · exact List.mem_append_right _ (by rw [ht]; exact List.mem_singleton_self _)
    · exact List.mem_append_left _ (h.asleep t tick ht)
  · intro x hx
    rw [hwakings] at hx
    obtain ⟨hp, hl⟩ := h.past x hx
    refine ⟨hp.trans hticks, fun y hy => ?_⟩
    rw [hs.alarms, List.mem_append, Option.mem_toList] at hy
    rcases hy with hy | hy
    · exact hl y hy
    · exact hp.trans_lt (hs.later y hy)
  · exact hwakings ▸ h.ordered
  · intro tick
    rw [hwakings, bedtimes, List.filter_append, h.fair, hs.alarms, List.filter_append,
      List.append_assoc]

theorem onSchedule_boot {setup : Setup} {config : Config} {k : Core}
    (h : Core.boot (setup.core config) = .ok (.ok ()) k) : OnSchedule [] k := by
  have hnone : k.alarms = [] := by
    refine List.eq_nil_iff_forall_not_mem.mpr fun ⟨t, tick⟩ ht => ?_
    have hmem : t ∈ k.seating.queue .sleep := (Core.mem_alarmsOf.mp ht).1
    have hpasses := (Core.passes_boot (N := ∅) _).ok h
    rcases hpasses.joins .sleep t (by simp) hmem with (hm | hm) | ⟨⟨l, hl⟩, -⟩
    · cases hm
    · exact hm
    · cases hl
  refine ⟨?_, nofun, .nil, fun tick => ?_⟩
  · rintro t tick ⟨later, e, earlier, hlog, -⟩
    exact absurd hlog (by simp)
  · rw [hnone]
    rfl

theorem Logged.inOrder_of_elementary (h : Logged (fun _ => Elementary) log frames s) :
    s.core.InOrder true :=
  Reached.inOrder (h.reached fun _ _ _ hel => hel.toDisciplined)

/-- **The schedule.** It is kept in every state of a run that is spelled out. -/
theorem Logged.onSchedule (h : Logged (fun _ => Elementary) log frames s) :
    OnSchedule log s.core := by
  refine h.invariant (P := fun log s => OnSchedule log s.core) (fun _ _ _ _ => onSchedule_boot)
    fun log frames s d s' hs ih hl hel => ?_
  have hticks :=
    (leads_passes (N := Set.univ) hs.steered (fun _ _ _ _ _ => Set.mem_univ _) hl).ticks
  rcases leads_stirs hs.inOrder_of_elementary hs.steered hel hl with hc | hc
  · exact ih.chimes hc hticks
  · exact ih.silent hc hticks

/-- In a run whose log is spelled out, sleepers wake on time. -/
structure OnTime (log : List Entry) (frames : List Bool) (s : Session) : Prop where
  elementary : Logged (fun _ => Elementary) log frames s
  /-- Every transition is an interrupt of the timer that wakes those whose tick has come, or wakes
  nobody. Who has gone to sleep is blocked and among the sleepers, with the tick, and is ready or
  runs after the first interrupt of the timer that finds the tick reached. -/
  transitions : ∀ later x earlier, log = later ++ x :: earlier → (x.Chimes ∨ x.Silent) ∧ ∀ t tick,
    (Asleep (x :: earlier) t tick → x.after.core.Sleeps t tick) ∧
    (Asleep earlier t tick → x.rings tick = true → x.after.core.IsUp t)
  /-- The ticks of those who are woken do not decrease. -/
  ordered : (wakings log).Pairwise fun x y => x.2 ≤ y.2
  /-- Those with the same tick are woken in the order in which they went to sleep. -/
  fair : ∀ tick, (bedtimes log).filter (fun x => x.2 = tick) =
    (wakings log).filter (fun x => x.2 = tick) ++ s.core.alarms.filter fun x => x.2 = tick

/-- **Sleepers wake on time.** Take any punctual run, with its log spelled out. Whoever goes to
sleep sleeps until the first interrupt of the timer that finds the tick reached, and is awake right
after it. Over the whole run the threads are woken in the order of their ticks, and in the order in
which they went to sleep among equal ticks. -/
theorem logged_punctual (h : Logged (fun _ => Punctual) log frames s) :
    OnTime (spelledOut log) frames s := by
  have hel := h.spelledOut
  refine ⟨hel, fun later x earlier hlog => ?_, hel.onSchedule.ordered, hel.onSchedule.fair⟩
  rw [hlog] at hel
  obtain ⟨_, _, hbefore, hl, hafter⟩ := hel.of_append
  have hstirs : x.Chimes ∨ x.Silent :=
    leads_stirs hbefore.inOrder_of_elementary hbefore.steered (fun _ _ => hafter.allowed_of_cons) hl
  refine ⟨hstirs, fun t tick => ⟨fun ht => ?_, fun ht hr => ?_⟩⟩
  · exact hafter.inOrder_of_elementary.sleeps rfl (hafter.onSchedule.asleep t tick ht)
  · rcases hstirs with hc | hc
    · rw [hc.rings, decide_eq_true_eq] at hr
      exact hafter.inOrder_of_elementary.isUp rfl
        (hc.awake (t, tick) (hbefore.onSchedule.asleep t tick ht) hr)
    · rw [hc.rings] at hr
      cases hr

/-- Whether the call is plain, not made by the idle thread, and no sweep. -/
def isPunctual (s : Session) (c : Call) : Bool :=
  s.isPlain c && match c with
    | .wakeSleepers _ => false
    | _ => true

theorem Punctual.of_isPunctual (hc : isPunctual s c = true) : Punctual s c := by
  obtain ⟨hplain, hsweep⟩ := Bool.and_eq_true_iff.mp hc
  obtain ⟨hc, hi⟩ := isPlain_iff.mp hplain
  refine ⟨.plain hc hi, ?_⟩
  rintro now rfl
  cases hsweep

/-- Three threads go to sleep, the first until the latest tick. It is woken last, and the others,
which have the same tick, in the order in which they went to sleep. -/
theorem logged_punctual_three : ∃ log s, Logged (fun _ => Punctual) log [] s ∧
    bedtimes (spelledOut log) = [(3, 5), (4, 2), (5, 2)] ∧
    wakings (spelledOut log) = [(4, 2), (5, 2), (3, 5)] ∧
    OnTime (spelledOut log) [] s := by
  have hrun : (replayFrom (fun _ => isPunctual) ⟨none, none, none, false, none⟩
      [.create "late" 40, .sleepUntil 5, .create "first" 40, .sleepUntil 2, .create "second" 40,
        .sleepFor 2, .tick 5]).any (fun r => bedtimes (spelledOut r.1) = [(3, 5), (4, 2), (5, 2)] ∧
          wakings (spelledOut r.1) = [(4, 2), (5, 2), (3, 5)]) = true := by
    decide +kernel
  obtain ⟨⟨log, s⟩, hs, hrun⟩ := (Option.any_eq_true _ _).mp hrun
  obtain ⟨hbed, hwoken⟩ := of_decide_eq_true hrun
  have hlog : Logged (fun _ => Punctual) log [] s :=
    logged_replayFrom (fun _ _ _ => Punctual.of_isPunctual) hs
  exact ⟨log, s, hlog, hbed, hwoken, logged_punctual hlog⟩

end Session

end ThreadCore
