import ThreadCore.Proofs.Neutrality
import ThreadCore.Proofs.Rousing
import ThreadCore.Proofs.Slices

/-!
# Equals take turns

The thread at work and the ready threads of its priority take turns (`Core.Rota`): a yield sends the
one at work to the end of the list and the first of the others to work (`Sound.yieldNow_rota`), and
leaves the less urgent threads where they are. A tick of the timer counts the slice, and yields when
the slice is over (`Sound.tick_eq`). So each of them gets a whole slice, in this order, and then it
is the first one's turn again (`Session.reached_rota`).

A tick halts when there is no room for it in the words that count it.
-/

namespace ThreadCore

/-- A halt for want of room for a tick, in the count of the timer or among the ticks outside the
idle thread. -/
def HaltsLate {σ α : Type} (core : σ → Core) (r : EStateM.Result Halt σ α) : Prop :=
  ∃ s, r = .error .overflow s ∧ (Word.greatest ≤ (core s).machine.ticks ∨ (core s).usage.Full)

namespace Core

variable {α : Type} {k k' m : Core} {g : Stage} {t : ThreadId} {u : Unit} {was : Bool}
  {p : Priority} {equals others : List ThreadId} {n : Nat}

/-- The threads `equals` take turns at priority `p`. The first is at work, the others are ready, in
this order. No ready thread is more urgent, and `others` are those less urgent, in the order of the
queue. -/
structure Rota (p : Priority) (equals others : List ThreadId) (k : Core) : Prop where
  working : k.current ≠ k.idle
  priority : k.priorityOf k.current = p
  equals : k.current :: k.ready.entries.filter (fun t => k.priorityOf t = p) = equals
  others : k.ready.entries.filter (fun t => k.priorityOf t < p) = others
  top : ∀ t ∈ k.ready.entries, k.priorityOf t ≤ p

/-! ## A yield -/

/-- The core once the thread at work has joined the ready queue. -/
def linedUp (k : Core) : Core := { k with ready := ⟨k.ready.entries ++ [k.current]⟩ }

theorem current_mem_linedUp : k.current ∈ k.linedUp.ready.entries :=
  List.mem_append_right _ List.mem_cons_self

/-- The thread at work has lined up, and the one to run next runs. -/
theorem Sound.yieldNow_passes (hk : k.Sound g) (hg : g.state = .running) (hi : k.current ≠ k.idle)
    (h : Core.yieldNow k = .ok u k') :
    ∃ t, t ≠ k.idle ∧ Passed k.linedUp k' t := by
  unfold Core.yieldNow at h
  simp only [outsideHandler_bind_eq_ok, ask_bind_eq_ok] at h
  obtain ⟨-, th, hr, h⟩ := h
  obtain ⟨hid, -⟩ := hk.running_eq hr
  obtain ⟨m, m', hq, h, hq'⟩ := masked_eq_ok h
  have hm := hk.quiet hq
  have hi' : m.current ≠ m.idle := by rwa [hq.current, hq.idle]
  rw [get_bind_eq_ok, hid, ← hm.current, if_neg hi', bind_eq_ok] at h
  obtain ⟨_, n, hn, h⟩ := h
  obtain ⟨-, rfl⟩ := enqueueReady_eq_ok.mp hn
  obtain ⟨t, hp, -⟩ := (hm.lineUp hg hi').endTurn (by simp) (by simp) h
  have hready : m.ready.entries ++ [m.current] = k.ready.entries ++ [k.current] := by
    rw [hq.ready, hq.current]
  have hpriority : ∀ s, m.priorityOf s = k.priorityOf s := fun s => by
    rw [priorityOf_eq, priorityOf_eq, hq.waits]
  have hchooses : k.linedUp.Chooses t :=
    hp.chooses.congr (congrArg Queue.mk hready) hq.idle (congrArg Waits.priority hq.waits)
  have hne : t ≠ k.idle := by
    rcases hchooses with hsome | ⟨hnil, -⟩
    · rcases List.mem_append.mp (Queue.mem_of_foremostOf hsome) with hmem | hmem
      · exact hk.ne_idle_of_mem (p := .ready) hmem
      · exact List.mem_singleton.mp hmem ▸ hi
    · exact absurd (hnil ▸ current_mem_linedUp) List.not_mem_nil
  refine ⟨t, hne, hchooses, hq'.current.trans hp.current, hq'.idle.trans (hp.idle.trans hq.idle),
    ?_, fun s hs => ?_, hq'.handler.trans (hp.handler.trans hq.handler)⟩
  · rw [hq'.ready, hp.ready]
    exact congrArg (·.erase t) hready
  · rw [priorityOf_eq, hq'.waits, ← priorityOf_eq]
    exact (hp.priority s (hready ▸ hs)).trans (hpriority s)

/-- The first of the equals goes to the end. -/
theorem Rota.passed (hr : k.Rota p equals others) (hi : t ≠ k.idle)
    (hp : Passed k.linedUp k' t) :
    k'.Rota p (equals.rotate 1) others := by
  have htop : ∀ s ∈ k.ready.entries ++ [k.current], k.priorityOf s ≤ p := by
    intro s hs
    rcases List.mem_append.mp hs with hs | hs
    · exact hr.top s hs
    · rw [List.mem_singleton.mp hs, hr.priority]
  rcases hp.chooses.foremost with ⟨hnil, -⟩ | ⟨before, after, hsplit, hb, -⟩
  · exact absurd (hnil ▸ current_mem_linedUp) List.not_mem_nil
  have hsplit : k.ready.entries ++ [k.current] = before ++ t :: after := hsplit
  have hb : ∀ s ∈ before, k.priorityOf s < k.priorityOf t := hb
  have ht : k.priorityOf t = p := by
    refine le_antisymm (htop t (by rw [hsplit]; simp)) ?_
    rw [← hr.priority]
    exact hp.chooses.priority_le current_mem_linedUp
  have hrest : k'.ready.entries = before ++ after := by
    have htb : t ∉ before := fun h => lt_irrefl _ (hb t h)
    rw [hp.ready]
    show (k.ready.entries ++ [k.current]).erase t = _
    rw [hsplit, List.erase_append_right _ htb, List.erase_cons_head]
  have hmem : ∀ s ∈ before ++ after, s ∈ k.ready.entries ++ [k.current] := by
    intro s hs
    rw [hsplit, List.mem_append, List.mem_cons]
    exact (List.mem_append.mp hs).imp id .inr
  have hpriority : ∀ s ∈ before ++ after, k'.priorityOf s = k.priorityOf s := fun s hs =>
    hp.priority s (.inr (hmem s hs))
  refine ⟨?_, ?_, ?_, ?_, ?_⟩
  · rwa [hp.current, hp.idle]
  · rw [hp.current, hp.priority t (.inl rfl)]
    exact ht
  · have hnone : before.filter (fun s => decide (k.priorityOf s = p)) = [] := by
      rw [List.filter_eq_nil_iff]
      intro s hs he
      exact (hb s hs).ne ((of_decide_eq_true he).trans ht.symm)
    have hqueue := congrArg (List.filter fun s => decide (k.priorityOf s = p)) hsplit
    rw [List.filter_append, List.filter_append, hnone,
      List.filter_cons_of_pos (by simpa using hr.priority),
      List.filter_cons_of_pos (by simpa using ht), List.filter_nil, List.nil_append] at hqueue
    rw [hp.current, hrest,
      List.filter_congr fun s hs => by rw [hpriority s hs], List.filter_append, hnone,
      List.nil_append, ← hqueue, ← hr.equals, List.rotate_cons_succ, List.rotate_zero]
  · have hqueue := congrArg (List.filter fun s => decide (k.priorityOf s < p)) hsplit
    rw [List.filter_append, List.filter_append, List.filter_cons_of_neg (by simp [hr.priority]),
      List.filter_cons_of_neg (by simp [ht]), List.filter_nil, List.append_nil] at hqueue
    rw [hrest, List.filter_congr fun s hs => by rw [hpriority s hs], List.filter_append, ← hqueue]
    exact hr.others
  · intro s hs
    rw [hrest] at hs
    rw [hpriority s hs]
    exact htop s (hmem s hs)

/-- **A yield** lets the next of the equals work. -/
theorem Sound.yieldNow_rota (hk : k.Sound g) (hg : g.state = .running) (hr : k.Rota p equals others)
    (h : Core.yieldNow k = .ok u k') : k'.Rota p (equals.rotate 1) others := by
  obtain ⟨t, hi, hp⟩ := hk.yieldNow_passes hg hr.working h
  exact hr.passed hi hp

/-! ## The clock -/

/-- The count of the timer and the settings. -/
def clock (k : Core) : Nat × Config := (k.machine.ticks, k.config)

theorem aloof_clock : Aloof clock :=
  ⟨fun _ _ => rfl, fun _ _ => rfl, fun _ _ => rfl, fun _ _ => rfl, fun _ _ => rfl, fun _ _ => rfl⟩

theorem clock_record (e : Event) : Keeps clock (record e) := keeps_modify fun _ => rfl

theorem clock_onMachine {step : MachineM α}
    (hs : ∀ w a w', step w = .ok a w' → w'.ticks = w.ticks) : Keeps clock (onMachine step) := by
  intro k a k' h
  obtain ⟨w, hw, rfl⟩ := onMachine_eq_ok.mp h
  exact congrArg (·, k.config) (hs _ _ _ hw)

theorem clock_freePage : Keeps clock (onMachine Machine.freePage) := by
  refine clock_onMachine fun w a w' h => ?_
  obtain rfl := Machine.freePage_eq_ok h
  rfl

theorem clock_switch (running next : Context) :
    Keeps clock (onMachine (Machine.switch running next)) := by
  refine clock_onMachine fun w a w' h => ?_
  unfold Machine.switch at h
  simp only [get_bind_eq_ok, demand_bind_eq_ok, modify_bind_eq_ok, pure_eq_ok] at h
  obtain ⟨-, -, -, rfl⟩ := h
  rfl

theorem clock_reclaim (n : Nat) : Keeps clock (reclaim n) :=
  aloof_clock.discreet.reclaim n (fun _ => keeps_modify fun _ => rfl)
    (fun _ => clock_record _) clock_freePage

theorem clock_takeNext : Keeps clock takeNext :=
  aloof_clock.discreet.takeNext fun _ => keeps_modify fun _ => rfl

theorem clock_switchTo (source target : ThreadId) : Keeps clock (switchTo source target) :=
  aloof_clock.discreet.switchTo source target (keeps_modify fun _ => rfl)
    (fun _ => keeps_modify fun _ => rfl)
    fun running resumed => aloof_clock.discreet.resume source target running resumed clock_record
      (clock_switch running resumed) fun _ => aloof_clock.changeThread target _

theorem clock_dispatch : Keeps clock dispatch :=
  aloof_clock.discreet.dispatch clock_takeNext (fun t => aloof_clock.changeThread t _)
    (fun _ => clock_record _) (keeps_modify fun _ => rfl) clock_switchTo

theorem clock_endTurn (σ : ThreadState) : Keeps clock (endTurn σ) :=
  aloof_clock.discreet.endTurn σ clock_reclaim
    (fun t => aloof_clock.changeThread t _) clock_dispatch

theorem clock_yieldNow : Keeps clock yieldNow :=
  aloof_clock.discreet.closes.yieldNow aloof_clock.enqueueReady (clock_endTurn .blocked)
    (clock_endTurn .ready)

/-! ## A tick -/

/-- The core once a tick has been counted, in the time of the machine, in the usage and in the
slice. -/
def ticked (k : Core) (usage : Usage) : Core :=
  { k with
    machine := { k.machine with ticks := k.machine.ticks + 1 }
    usage := usage
    slice := k.slice + 1 }

/-- **A tick.** If the slice is not over, the tick is counted and nothing else happens. If it is
over, the thread at work yields. -/
theorem Sound.tick_eq (hk : k.Sound g) (hg : g.state = .running) (hc : k.Clear was)
    (hi : k.current ≠ k.idle) (hslice : k.slice < Word.greatest)
    (hdue : ∀ x ∈ k.alarms, k.machine.ticks + 1 < x.2) :
    HaltsLate id (Core.tick k) ∨ ∃ usage,
      (k.slice + 1 < k.config.timeSlice → Core.tick k = .ok () (k.ticked usage)) ∧
      (k.config.timeSlice ≤ k.slice + 1 →
        Core.tick k = (Core.yieldNow >>= fun _ => onMachine (Machine.unmask was))
        { (k.ticked usage).hushed with yieldPending := false }) := by
  by_cases hticks : Word.greatest ≤ k.machine.ticks
  · have hadvance : onMachine Machine.advance k = .error .overflow k := by
      unfold onMachine Machine.advance
      rw [get_bind_eq, Word.next?_eq_none_iff.mpr hticks]
      rfl
    exact .inl ⟨k, bind_of_error hadvance, .inl hticks⟩
  let k₁ : Core := { k with machine := { k.machine with ticks := k.machine.ticks + 1 } }
  have hadvance : onMachine Machine.advance k = .ok (k.machine.ticks + 1) k₁ := by
    unfold onMachine Machine.advance
    rw [get_bind_eq, Word.next?_eq_some_iff.mpr ⟨Nat.lt_of_not_le hticks, rfl⟩]
    rfl
  have hk₁ : k₁.Sound g := hk.quiet ⟨rfl, rfl, rfl, rfl, rfl, rfl, rfl, rfl, rfl⟩
  have henter : Core.enterHandler k₁ = .ok was k₁.entered :=
    enterHandler_entered.mpr ⟨hc.handler, hc.flag.symm, rfl⟩
  have htick : Core.tick k = (do
      countTick
      Core.countSlice
      let _ ← Core.wakeSleepers (k.machine.ticks + 1)
      Core.leaveHandler was : CoreM Unit) k₁.entered := by
    unfold Core.tick Core.timerInterrupt handleInterrupt
    rw [bind_of_ok hadvance, bind_of_ok henter]
    simp only [bind_assoc, pure_bind, bind_pure_unit]
    rfl
  obtain ⟨th, hth, -⟩ := live_of_state hk.seating.current_running
  rcases Core.countTick_busy (k := k₁.entered) hi hth with ⟨m, hm, hfull⟩ | ⟨usage, husage, -⟩
  · exact .inl ⟨m, htick.trans (bind_of_error hm), .inr hfull⟩
  refine .inr ⟨usage, ?_⟩
  let ends := decide (k.config.timeSlice ≤ k.slice + 1)
  have hcount : Core.countSlice { k₁.entered with usage := usage } =
      .ok () { (k.ticked usage).entered with yieldPending := ends } := by
    refine countSlice_eq_ok.mpr ⟨hslice, ?_⟩
    show _ = { k₁.entered with
      usage := usage, slice := k.slice + 1, yieldPending := k.yieldPending || ends }
    rw [hc.pending, Bool.false_or]
    rfl
  have hsound : ({ (k.ticked usage).entered with yieldPending := ends } : Core).Sound
      { g with handler := true } :=
    ((hk.withMachine (k.ticked usage).entered.machine).withPending ends).quiet
      ⟨rfl, rfl, rfl, rfl, rfl, rfl, rfl, rfl, rfl⟩
  have hwake : Core.wakeSleepers (k.machine.ticks + 1)
      { (k.ticked usage).entered with yieldPending := ends } =
      .ok 0 { (k.ticked usage).entered with yieldPending := ends } :=
        hsound.wakeSleepers_none hg hdue
  have hleave : Core.tick k =
      Core.leaveHandler was { (k.ticked usage).entered with yieldPending := ends } := by
    rw [htick, bind_of_ok husage, bind_of_ok hcount, bind_of_ok hwake]
  have hyield := leaveHandler_entered (k := k.ticked usage) was hc.handler hi ends
  constructor
  · intro hlt
    have hends : ends = false := decide_eq_false (Nat.not_le.mpr hlt)
    have hcleared : (k.ticked usage).Clear was :=
      ⟨⟨hc.anchored.number, hc.anchored.sp, hc.anchored.apart⟩,
      hc.flag, hc.handler, hc.pending⟩
    rw [hleave, hends, hcleared.entered_pending]
    exact hcleared.leaveHandler hi
  · intro hle
    have hends : ends = true := decide_eq_true hle
    rw [hleave, hyield, hends]
    rfl

/-- A tick, while equals take turns. -/
theorem Sound.tick_rota (hk : k.Sound g) (hg : g.state = .running) (hp : g.terms.pristine = true)
    (hf : k.Fit false) (hc : k.Clear was) (hr : k.Rota p equals others)
    (hslice : k.slice < Word.greatest) (hdue : ∀ x ∈ k.alarms, k.machine.ticks + 1 < x.2) :
    HaltsLate id (Core.tick k) ∨ ∃ k', Core.tick k = .ok () k' ∧
      k'.clock = (k.machine.ticks + 1, k.config) ∧ k'.alarms = k.alarms ∧
      (k.slice + 1 < k.config.timeSlice → k'.slice = k.slice + 1 ∧ k'.Rota p equals others) ∧
      (k.config.timeSlice ≤ k.slice + 1 → k'.slice = 0 ∧ k'.Rota p (equals.rotate 1) others) := by
  rcases hk.tick_eq hg hc hr.working hslice hdue with hlate | ⟨usage, hgoes, hends⟩
  · exact .inl hlate
  refine .inr ?_
  rcases Nat.lt_or_ge (k.slice + 1) k.config.timeSlice with hlt | hle
  · exact ⟨_, hgoes hlt, rfl, rfl,
      fun _ => ⟨rfl, hr.working, hr.priority, hr.equals, hr.others, hr.top⟩,
      fun hle => absurd hlt (Nat.not_lt.mpr hle)⟩
  · let m : Core := { (k.ticked usage).hushed with yieldPending := false }
    have hq : Quiet k m := ⟨rfl, rfl, rfl, rfl, rfl, rfl, rfl, hc.pending.symm, rfl⟩
    have hm : m.Sound g := hk.quiet hq
    have hfm : m.Fit false := ⟨⟨⟨hf.inv.1.number, hf.inv.1.sp, hf.inv.1.apart⟩, nofun⟩, hf.books⟩
    have hrm : m.Rota p equals others := ⟨hr.working, hr.priority, hr.equals, hr.others, hr.top⟩
    obtain ⟨n, hn⟩ := hm.yieldNow_ok hg hp hfm hc.handler
    obtain ⟨k', hk'⟩ := unmask_ok was n
    have hrn := hm.yieldNow_rota hg hrm hn
    have hq' := quiet_unmask hk'
    have hslices : k'.slice = n.slice :=
      congrArg (fun x => x.1.slice) (aloof_gait.unmask was _ _ _ hk')
    have hpriority : ∀ t, k'.priorityOf t = n.priorityOf t := fun t => by
      rw [priorityOf_eq, priorityOf_eq, hq'.waits]
    refine ⟨k', (hends hle).trans ((bind_of_ok hn).trans hk'), ?_, ?_,
      fun hlt => absurd hle (Nat.not_le.mpr hlt), fun _ => ⟨hslices.trans (yieldNow_slice hn), ?_⟩⟩
    · exact (aloof_clock.unmask was _ _ _ hk').trans (clock_yieldNow _ _ _ hn)
    · have hdorm : n.dorm = m.dorm := keeps_dorm_yieldNow _ _ _ hn
      exact alarms_congr (hq'.dorm.trans hdorm)
    · obtain ⟨h₁, h₂, h₃, h₄, h₅⟩ := hrn
      constructor <;> simp only [hpriority, hq'.current, hq'.idle, hq'.ready] <;> assumption

theorem ticks_succ (n : Nat) : ticks (n + 1) = (ticks n >>= fun _ => tick : CoreM Unit) := by
  induction n with
  | zero =>
    show (tick >>= fun _ => pure () : CoreM Unit) = (pure () >>= fun _ => tick : CoreM Unit)
    rw [bind_pure_unit, pure_bind]
  | succ n ih =>
    show (tick >>= fun _ => ticks (n + 1) : CoreM Unit) =
      ((tick >>= fun _ => ticks n) >>= fun _ => tick)
    rw [ih, bind_assoc]

/-- Who is at work after `n` turns. -/
theorem Rota.current_eq (hr : k.Rota p (equals.rotate n) others) :
    equals[n % equals.length]? = some k.current := by
  have hlength : 0 < equals.length := by
    rw [← List.length_rotate equals n, ← hr.equals]
    exact Nat.succ_pos _
  rw [← List.head?_rotate (Nat.mod_lt n hlength), List.rotate_mod, ← hr.equals]
  rfl

end Core

namespace Session

variable {s s' : Session} {p : Priority} {equals others : List ThreadId}

/-- A call in a disciplined run that leaves the handler flag to the handlers. -/
def Regular (s : Session) (c : Call) : Prop := Disciplined s c ∧ ∀ on, c ≠ .setHandler on

theorem Regular.plain {c : Call} (hc : isDelicate c = false) (hi : s.core.current ≠ s.core.idle) :
    Regular s c :=
  ⟨.plain hc hi, fun on h => by subst h; cases hc⟩

/-- What is allowed in one run may be allowed in another. -/
theorem Reached.mono {allowed permitted : Session → Call → Prop} {frames : List Bool}
    (hall : ∀ s c, allowed s c → permitted s c) (h : Reached allowed frames s) :
    Reached permitted frames s := by
  induction h with
  | boot hb hk => exact .boot hb hk
  | call _ ha he ih => exact ih.call (hall _ _ ha) he
  | enter _ he ih => exact ih.enter he
  | leave _ he ih => exact ih.leave he

/-- What is known between operations, when no handler runs. -/
theorem Reached.at_rest (h : Reached Regular [] s) : s.core.InOrder true ∧
    s.core.Clear s.core.machine.interruptsOn ∧ s.core.slice < s.core.config.timeSlice := by
  have hfree := h.mono fun _ _ hc => hc.2
  obtain ⟨log, hlog⟩ := hfree.exists_log
  exact ⟨(h.mono fun _ _ hc => hc.1).inOrder, hfree.clear hlog.sliced.handler, hlog.sliced.slice⟩

/-- The run of some ticks, while equals take turns: each of them gets a slice. -/
theorem ticks_rota (h : Reached Regular [] s) (hword : s.core.config.timeSlice ≤ Word.greatest)
    (hslice : s.core.slice = 0) (hr : s.core.Rota p equals others) (n : Nat)
    (hdue : ∀ x ∈ s.core.alarms, s.core.machine.ticks + n < x.2) :
    HaltsLate id (Core.ticks n s.core) ∨ ∃ k, Core.ticks n s.core = .ok () k ∧
      k.clock = (s.core.machine.ticks + n, s.core.config) ∧ k.alarms = s.core.alarms ∧
      k.slice = n % s.core.config.timeSlice ∧
      k.Rota p (equals.rotate (n / s.core.config.timeSlice)) others := by
  induction n with
  | zero =>
    refine .inr ⟨s.core, rfl, rfl, rfl, ?_, ?_⟩
    · rw [hslice, Nat.zero_mod]
    · rwa [Nat.zero_div, List.rotate_zero]
  | succ n ih =>
    rw [Core.ticks_succ]
    rcases ih fun x hx => (Nat.lt_succ_self _).trans (hdue x hx) with
      ⟨m, hm, hfull⟩ | ⟨k, hk, hclock, halarms, hcount, hrk⟩
    · exact .inl ⟨m, bind_of_error hm, hfull⟩
    rw [bind_of_ok hk]
    obtain ⟨hticks, hconfig⟩ := Prod.mk.inj hclock
    have he : execute (.tick n) s = .ok (.done .nothing) { s with core := k } :=
      bind_of_ok (onCore_eq_ok.mpr ⟨k, hk, rfl⟩)
    have hreached : Reached Regular [] { s with core := k } := h.call (.plain rfl hr.working) he
    obtain ⟨hsound, hclear, hlt⟩ := hreached.at_rest
    have hlt : k.slice < k.config.timeSlice := hlt
    have hdue' : ∀ x ∈ k.alarms, k.machine.ticks + 1 < x.2 := by
      rw [halarms, hticks]
      exact hdue
    have hword' : k.config.timeSlice ≤ Word.greatest := by rwa [hconfig]
    rcases hsound.tick_rota rfl rfl hreached.fit hclear hrk (hlt.trans_le hword') hdue' with
      hlate | ⟨k', hk', hclock', halarms', hgoes, hends⟩
    · exact .inl hlate
    refine .inr ⟨k', hk', ?_, halarms'.trans halarms, ?_⟩
    · rw [hclock', hticks, hconfig]
      rfl
    · rw [hcount, hconfig] at hgoes hends
      have hsum := Nat.mod_add_div n s.core.config.timeSlice
      rcases Nat.lt_or_ge (n % s.core.config.timeSlice + 1) s.core.config.timeSlice with
          hless | hmore
      · obtain ⟨hslice', hr'⟩ := hgoes hless
        obtain ⟨hdiv, hmod⟩ := (Nat.div_mod_unique (a := n + 1) (d := n / s.core.config.timeSlice)
          (by omega)).mpr ⟨by omega, hless⟩
        rw [hslice', hmod, hdiv]
        exact ⟨rfl, hr'⟩
      · obtain ⟨hslice', hr'⟩ := hends hmore
        have hpos : 0 < s.core.config.timeSlice := by
          rw [← hconfig]
          omega
        have hlast := Nat.mod_lt n hpos
        obtain ⟨hdiv, hmod⟩ := (Nat.div_mod_unique (a := n + 1) (c := 0)
          (d := n / s.core.config.timeSlice + 1) hpos).mpr ⟨by rw [Nat.mul_succ]; omega, hpos⟩
        rw [hslice', hmod, hdiv, ← List.rotate_rotate]
        exact ⟨rfl, hr'⟩

/-- Some yields, while equals take turns. -/
theorem yields_rota (h : Reached Regular [] s) (hslice : s.core.slice = 0)
    (hr : s.core.Rota p equals others) (n : Nat) :
    ∃ steps s', performAll s (List.replicate n (.call .yield)) = (steps, s', none) ∧
      s'.core.slice = 0 ∧ s'.core.Rota p (equals.rotate n) others := by
  induction n generalizing s equals with
  | zero => exact ⟨[], s, rfl, hslice, by rwa [List.rotate_zero]⟩
  | succ n ih =>
    obtain ⟨hsound, hclear, -⟩ := h.at_rest
    obtain ⟨k, hk⟩ := hsound.yieldNow_ok rfl rfl h.fit hclear.handler
    have he : execute .yield s = .ok (.done .nothing) { s with core := k } :=
      bind_of_ok (onCore_eq_ok.mpr ⟨k, hk, rfl⟩)
    obtain ⟨steps, s', hsteps, hslice', hr'⟩ := ih (h.call (.plain rfl hr.working) he)
      (Core.yieldNow_slice hk) (hsound.yieldNow_rota rfl hr hk)
    refine ⟨.call (s.recordOf (.ok (.done .nothing) { s with core := k })) :: steps, s', ?_,
      hslice', ?_⟩
    · rw [List.replicate_succ, performAll, perform, he]
      exact congrArg (fun r : List Step × Session × Option Halt => (_ :: r.1, r.2.1, r.2.2)) hsteps
    · rwa [List.rotate_rotate, Nat.add_comm] at hr'

/-- **Round robin.** Let a thread be at work whose slice, a word, has just begun, no ready thread be
more urgent, and nobody be due for a while. Then this thread and the ready threads of its priority,
in the order of the queue, get a slice each: the thread at work when a tick comes is the one whose
slice it is. After their slices the first of them is at work again, its slice has just begun, and
the order of the ready threads is as it was. Yields make the same round. A tick for which there is
no room in the words that count it is all that can come in between. -/
theorem reached_rota (h : Reached Regular [] s) (hword : s.core.config.timeSlice ≤ Word.greatest)
    (hslice : s.core.slice = 0) (hr : s.core.Rota p equals others)
    (hdue : ∀ x ∈ s.core.alarms,
      s.core.machine.ticks + equals.length * s.core.config.timeSlice < x.2) :
    (∀ n < equals.length * s.core.config.timeSlice, HaltsLate Session.core (execute (.tick n) s) ∨
      ∃ s', execute (.tick n) s = .ok (.done .nothing) s' ∧
        equals[n / s.core.config.timeSlice]? = some s'.core.current ∧
        s'.core.slice = n % s.core.config.timeSlice ∧
        s'.core.Rota p (equals.rotate (n / s.core.config.timeSlice)) others) ∧
    (HaltsLate Session.core (execute (.tick (equals.length * s.core.config.timeSlice)) s) ∨
      ∃ s', execute (.tick (equals.length * s.core.config.timeSlice)) s = .ok (.done .nothing) s' ∧
        s'.core.current = s.core.current ∧ s'.core.slice = 0 ∧ s'.core.Rota p equals others) ∧
    (∀ n < equals.length, ∃ steps s',
      performAll s (List.replicate n (.call .yield)) = (steps, s', none) ∧
      equals[n]? = some s'.core.current ∧ s'.core.slice = 0 ∧
        s'.core.Rota p (equals.rotate n) others) ∧
    ∃ steps s', performAll s (List.replicate equals.length (.call .yield)) = (steps, s', none) ∧
      s'.core.current = s.core.current ∧ s'.core.slice = 0 ∧ s'.core.Rota p equals others := by
  have hpos : 0 < s.core.config.timeSlice := Nat.zero_lt_of_lt h.at_rest.2.2
  have hticks : ∀ n ≤ equals.length * s.core.config.timeSlice,
      HaltsLate Session.core (execute (.tick n) s) ∨
      ∃ s', execute (.tick n) s = .ok (.done .nothing) s' ∧
        s'.core.slice = n % s.core.config.timeSlice ∧
        s'.core.Rota p (equals.rotate (n / s.core.config.timeSlice)) others := by
    intro n hn
    rcases ticks_rota h hword hslice hr n fun x hx =>
      (Nat.add_le_add_left hn _).trans_lt (hdue x hx) with
      ⟨m, hm, hfull⟩ | ⟨k, hk, -, -, hcount, hrk⟩
    · refine .inl ⟨{ s with core := m }, bind_of_error ?_, hfull⟩
      unfold onCore
      rw [hm]
    · exact .inr ⟨{ s with core := k }, bind_of_ok (onCore_eq_ok.mpr ⟨k, hk, rfl⟩), hcount, hrk⟩
  have hfirst : ∀ s' : Session, s'.core.Rota p equals others →
      s'.core.current = s.core.current := by
    intro s' hr'
    exact (List.cons.inj (hr'.equals.trans hr.equals.symm)).1
  refine ⟨fun n hn => ?_, ?_, fun n hn => ?_, ?_⟩
  · refine (hticks n hn.le).imp_right fun ⟨s', he, hcount, hr'⟩ => ⟨s', he, ?_, hcount, hr'⟩
    have hturn : n / s.core.config.timeSlice < equals.length := (Nat.div_lt_iff_lt_mul hpos).mpr hn
    rw [← hr'.current_eq, Nat.mod_eq_of_lt hturn]
  · refine (hticks _ le_rfl).imp_right fun ⟨s', he, hcount, hr'⟩ => ?_
    rw [Nat.mul_div_cancel _ hpos, List.rotate_length] at hr'
    rw [Nat.mul_mod_left] at hcount
    exact ⟨s', he, hfirst s' hr', hcount, hr'⟩
  · obtain ⟨steps, s', hsteps, hslice', hr'⟩ := yields_rota h hslice hr n
    refine ⟨steps, s', hsteps, ?_, hslice', hr'⟩
    rw [← hr'.current_eq, Nat.mod_eq_of_lt hn]
  · obtain ⟨steps, s', hsteps, hslice', hr'⟩ := yields_rota h hslice hr equals.length
    rw [List.rotate_length] at hr'
    exact ⟨steps, s', hsteps, hfirst s' hr', hslice', hr'⟩

/-- With slices of two ticks, threads 3, 4, 6 and 1 have had theirs after eight ticks. Thread 5,
which is less urgent, and thread 7, which sleeps, have not run. -/
theorem reached_rota_of_four : ∃ s s', Reached Regular [] s ∧ s.core.config.timeSlice = 2 ∧
    s.core.ready.entries = [4, 5, 6, 1] ∧ s.core.alarms = [(7, 100)] ∧
    s.core.Rota 31 [3, 4, 6, 1] [5] ∧
    execute (.tick 8) s = .ok (.done .nothing) s' ∧ s'.core.current = 3 ∧ s'.core.slice = 0 ∧
    s'.core.Rota 31 [3, 4, 6, 1] [5] ∧
    ∃ steps s'', performAll s (List.replicate 4 (.call .yield)) = (steps, s'', none) ∧
      s''.core.current = 3 ∧ s''.core.Rota 31 [3, 4, 6, 1] [5] := by
  have hrun : (afterBoot ⟨some 2, none, none, false, none⟩
      [.create "next" 31, .create "third" 31, .create "calm" 20, .create "last" 31,
        .create "sleeper" 40, .sleepUntil 100]).any (fun s =>
      decide ((s.core.config.timeSlice = 2 ∧ s.core.slice = 0 ∧ s.core.current = 3) ∧
        (s.core.ready.entries = [4, 5, 6, 1] ∧ s.core.alarms = [(7, 100)] ∧
          s.core.machine.ticks = 0) ∧
        s.core.current ≠ s.core.idle ∧ s.core.priorityOf s.core.current = 31 ∧
        s.core.current :: s.core.ready.entries.filter (fun t => s.core.priorityOf t = 31) =
          [3, 4, 6, 1] ∧
        s.core.ready.entries.filter (fun t => s.core.priorityOf t < 31) = [5] ∧
        ∀ t ∈ s.core.ready.entries, s.core.priorityOf t ≤ 31) &&
      succeeds (fun a _ => decide (a = .done .nothing)) (execute (.tick 8) s)) = true := by
    decide +kernel
  obtain ⟨s, hs, hrun⟩ := (Option.any_eq_true _ _).mp hrun
  rw [Bool.and_eq_true] at hrun
  obtain ⟨hbefore, hafter⟩ := hrun
  obtain ⟨⟨hconfig, hslice, hcurrent⟩, ⟨hready, halarms, hticks⟩, hworking, hpriority, hequals,
    hothers, htop⟩ := of_decide_eq_true hbefore
  obtain ⟨a, s', he, -⟩ := exists_of_succeeds hafter
  have hreached : Reached Regular [] s := reached_afterBoot (fun _ _ => Regular.plain) hs
  have hrota : s.core.Rota 31 [3, 4, 6, 1] [5] := ⟨hworking, hpriority, hequals, hothers, htop⟩
  have hround := reached_rota hreached (by rw [hconfig]; decide) hslice hrota (by
    rw [halarms, hticks, hconfig]
    simp)
  rw [hconfig] at hround
  obtain ⟨-, hend, -, steps, s'', hsteps, hfirst, -, hrota''⟩ := hround
  rcases hend with ⟨m, hm, -⟩ | ⟨m, hm, hfirst', hslice', hrota'⟩
  · cases hm.symm.trans he
  · exact ⟨s, m, hreached, hconfig, hready, halarms, hrota, hm, hfirst'.trans hcurrent, hslice',
      hrota', steps, s'', hsteps, hfirst.trans hcurrent, hrota''⟩

end Session

end ThreadCore
