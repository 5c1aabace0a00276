import ThreadCore.Core.Interrupt
import ThreadCore.Proofs.Queueing

/-!
# Interrupt handlers

Inside a handler nothing waits, so a thread that becomes ready may be more urgent than the thread at
work. The return from the handler restores the order: it ends the turn of the idle thread in any
case, and that of another thread if a yield was asked for (`Sound.leaveHandler`). The timer
interrupt is a handler that counts and wakes sleepers, and as a whole it is an operation like any
other (`Sound.timerInterrupt`).
-/

namespace ThreadCore.Core

variable {k k' k₁ k₂ : Core} {g : Stage} {u : Unit}

/-! ## The flag -/

theorem setHandler_eq_ok {on : Bool} : onMachine (Machine.setHandler on) k = .ok u k' ↔
    k.machine.inHandler ≠ on ∧ k' = { k with machine := { k.machine with inHandler := on } } := by
  rw [onMachine_eq_ok]
  unfold Machine.setHandler
  simp only [get_bind_eq_ok, demand_bind_eq_ok, modify_eq_ok]
  constructor
  · rintro ⟨m, ⟨hne, rfl⟩, rfl⟩
    exact ⟨hne, rfl⟩
  · rintro ⟨hne, rfl⟩
    exact ⟨_, ⟨hne, rfl⟩, rfl⟩

theorem Sound.withMachine (hk : k.Sound g) (m : Machine) :
    ({ k with machine := m } : Core).Sound { g with handler := m.inHandler } :=
  ⟨hk.current, hk.idle, rfl, hk.seating, hk.waits, hk.registered.of_eq rfl rfl rfl⟩

theorem Sound.withPending (hk : k.Sound g) (b : Bool) :
    ({ k with yieldPending := b } : Core).Sound g :=
  ⟨hk.current, hk.idle, hk.handler, hk.seating, hk.waits, hk.registered.of_eq rfl rfl rfl⟩

/-- Inside a handler, asking for a yield settles the order. -/
theorem settled_withPending (hh : k.machine.inHandler = true) :
    ({ k with yieldPending := true } : Core).Settled :=
  .inr ⟨hh, .inl rfl⟩

/-! ## Entering and leaving -/

theorem Sound.enterHandler (hk : k.Sound g) {was : Bool} (h : enterHandler k = .ok was k') :
    g.handler = false ∧ k'.Sound { g with handler := true } ∧ (k.Settled → k'.Settled) := by
  unfold Core.enterHandler at h
  simp only [bind_eq_ok, setHandler_eq_ok, pure_eq_ok] at h
  obtain ⟨_, m, hm, _, _, ⟨hne, rfl⟩, -, rfl⟩ := h
  have hq := quiet_mask hm
  have hh : k.machine.inHandler = false := by
    rw [← hq.handler]
    simpa using hne
  refine ⟨hk.handler ▸ hh, (hk.quiet hq).withMachine _, fun hs => .inl ?_⟩
  have ho := (hs.alike hq.alike).orderly (hq.handler.trans hh)
  exact ho

/-- **The return from a handler.** The order that the handler left to its return is restored. -/
theorem Sound.leaveHandler (hk : k.Sound g) (hg : g.state = .running) {was : Bool}
    (h : leaveHandler was k = .ok u k') :
    g.handler = true ∧ k'.Sound { g with current := k'.current, handler := false } ∧
      (k.Settled → k'.Orderly) := by
  unfold Core.leaveHandler at h
  rw [bind_eq_ok] at h
  obtain ⟨_, m, hm, h⟩ := h
  obtain ⟨hne, rfl⟩ := setHandler_eq_ok.mp hm
  have hh : k.machine.inHandler = true := by simpa using hne
  refine ⟨hk.handler ▸ hh, ?_⟩
  rw [get_bind_eq_ok, modify_bind_eq_ok, get_bind_eq_ok] at h
  have hm := (hk.withMachine { k.machine with inHandler := false }).withPending false
  have hserves : ∀ n : Core, Serves { g with handler := false } k n →
      onMachine (Machine.unmask was) n = .ok u k' →
      k'.Sound { g with current := k'.current, handler := false } ∧ (k.Settled → k'.Orderly) := by
    intro n hn hu
    have hn' := hn.quiet_right (quiet_unmask hu)
    exact ⟨hn'.sound, fun hs => (hn'.settled hs).orderly hn'.sound.handler⟩
  by_cases hi : k.current = k.idle
  · rw [if_pos hi, bind_eq_ok] at h
    obtain ⟨_, n, hn, h⟩ := h
    exact hserves n ((hm.stand hg _ (by decide)).serves_endTurn hg (by decide) (by simp) hn k) h
  · rw [if_neg hi] at h
    by_cases hp : k.yieldPending = true
    · rw [if_pos hp, bind_eq_ok] at h
      obtain ⟨_, n, hn, h⟩ := h
      obtain ⟨-, t, hs, ho, -⟩ := hm.yieldNow hg hn
      obtain rfl : n.current = t := hs.current
      exact hserves n ⟨hs, fun _ => .inl ho⟩ h
    · rw [if_neg hp] at h
      refine hserves _ ⟨hm.at_current, fun hs => ?_⟩ h
      -- Nothing was asked for, so nothing was to be done.
      rcases hs with ho | ⟨-, hy | hi'⟩
      · exact .inl ho
      · exact absurd hy hp
      · exact absurd hi' hi

/-! ## Operations one after the other -/

theorem Serves.trans (h : Serves g k k₁) (h' : Serves { g with current := k₁.current } k₁ k₂) :
    Serves g k k₂ :=
  ⟨h'.sound, fun hs => h'.settled (h.settled hs)⟩

theorem Sound.yieldOnReturn (hk : k.Sound g) (h : yieldOnReturn k = .ok u k') : Serves g k k' := by
  unfold Core.yieldOnReturn at h
  rw [get_bind_eq_ok, demand_bind_eq_ok, modify_eq_ok] at h
  obtain ⟨hh, rfl⟩ := h
  exact ⟨(hk.withPending true).at_current, fun _ => settled_withPending hh⟩

/-! ## The timer -/

theorem quiet_advance {n : Nat} (h : onMachine Machine.advance k = .ok n k') : Quiet k k' := by
  refine quiet_onMachine (fun m a m' hm => ?_) h
  unfold Machine.advance at hm
  rw [get_bind_eq_ok] at hm
  cases hn : Word.next? m.ticks with
  | none => simp [hn, throw_eq_ok] at hm
  | some now =>
    simp only [hn, modify_bind_eq_ok, pure_eq_ok] at hm
    obtain ⟨-, rfl⟩ := hm
    rfl

theorem quiet_advances {n r : Nat} (h : advance n k = .ok r k') : Quiet k k' := by
  induction n generalizing k with
  | zero =>
    rw [advance, get_bind_eq_ok, pure_eq_ok] at h
    exact h.2 ▸ .refl k
  | succ n ih =>
    rw [advance, bind_eq_ok] at h
    obtain ⟨_, m, hm, h⟩ := h
    exact (quiet_advance hm).trans (ih h)

theorem quiet_countTick (h : countTick k = .ok u k') : Quiet k k' := by
  unfold countTick at h
  rw [get_bind_eq_ok] at h
  split at h
  · simp only [bind_eq_ok, increment_eq_ok, modify_eq_ok] at h
    obtain ⟨_, _, ⟨-, -, rfl⟩, rfl⟩ := h
    exact ⟨rfl, rfl, rfl, rfl, rfl, rfl, rfl, rfl, rfl⟩
  · rw [ask_bind_eq_ok] at h
    obtain ⟨th, -, h⟩ := h
    split at h
    all_goals
      simp only [bind_eq_ok, increment_eq_ok, modify_eq_ok] at h
      obtain ⟨_, _, ⟨-, -, rfl⟩, rfl⟩ := h
      exact ⟨rfl, rfl, rfl, rfl, rfl, rfl, rfl, rfl, rfl⟩

theorem Sound.countSlice (hk : k.Sound g) (hh : g.handler = true) (h : countSlice k = .ok u k') :
    Serves g k k' := by
  unfold Core.countSlice at h
  rw [get_bind_eq_ok, bind_eq_ok] at h
  obtain ⟨slice, m, hm, h⟩ := h
  obtain ⟨-, -, rfl⟩ := increment_eq_ok.mp hm
  rw [modify_bind_eq_ok, get_bind_eq_ok] at h
  have hq : Quiet k { k with slice := slice } :=
    ⟨rfl, rfl, rfl, rfl, rfl, rfl, rfl, rfl, rfl⟩
  have hs := hk.quiet hq
  split at h
  · rw [modify_eq_ok] at h
    subst h
    exact ⟨(hs.withPending true).at_current, fun _ => settled_withPending (hs.handler.trans hh)⟩
  · obtain ⟨-, rfl⟩ := pure_eq_ok.mp h
    exact (hs.serves_alike (.refl _)).quiet_left hq

theorem Sound.timerInterrupt (hk : k.Sound g) (hg : g.state = .running)
    (h : timerInterrupt k = .ok u k') : Serves g k k' := by
  unfold Core.timerInterrupt handleInterrupt at h
  rw [bind_eq_ok] at h
  obtain ⟨was, m, hm, h⟩ := h
  obtain ⟨hg₀, hs, hset⟩ := hk.enterHandler hm
  rw [bind_eq_ok] at h
  obtain ⟨_, n, hn, h⟩ := h
  rw [get_bind_eq_ok] at hn
  simp only [bind_eq_ok, pure_eq_ok] at hn
  obtain ⟨_, m₁, h₁, _, m₂, h₂, _, m₃, h₃, -, rfl⟩ := hn
  have hq := quiet_countTick h₁
  have hsl := (hs.quiet hq).countSlice rfl h₂
  have hw := hsl.quiet_left hq |>.trans (hsl.sound.wakeSleepers hg h₃).1
  rw [bind_eq_ok] at h
  obtain ⟨_, n, hn, h⟩ := h
  obtain ⟨-, rfl⟩ := pure_eq_ok.mp h
  obtain ⟨-, hs', ho⟩ := hw.sound.leaveHandler hg hn
  refine ⟨?_, fun hs => .inl (ho (hw.settled (hset hs)))⟩
  have hg' : ({ g with current := n.current } : Stage) =
      { g with current := n.current, handler := false } := by rw [← hg₀]
  rw [hg']
  exact hs'

theorem Sound.tick (hk : k.Sound g) (hg : g.state = .running) (h : tick k = .ok u k') :
    Serves g k k' := by
  unfold Core.tick at h
  rw [bind_eq_ok] at h
  obtain ⟨_, m, hm, h⟩ := h
  have hq := quiet_advance hm
  exact ((hk.quiet hq).timerInterrupt hg h).quiet_left hq

theorem Sound.ticks {n : Nat} (hk : k.Sound g) (hg : g.state = .running)
    (h : ticks n k = .ok u k') : Serves g k k' := by
  induction n generalizing k g with
  | zero =>
    obtain ⟨-, rfl⟩ := pure_eq_ok.mp h
    exact hk.serves_alike (.refl k)
  | succ n ih =>
    rw [Core.ticks, bind_eq_ok] at h
    obtain ⟨_, m, hm, h⟩ := h
    have ht := hk.tick hg hm
    exact ht.trans (ih ht.sound hg h)

end ThreadCore.Core
