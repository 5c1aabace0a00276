import ThreadCore.Proofs.Dispatches
import ThreadCore.Proofs.Inheritance

/-!
# A contended lock raises the holders behind it

A thread that has to wait for a lock adds one edge to the graph of waits, from itself to the holder
of the lock. Effective priorities are the greatest base priorities along the chains, so the new edge
raises exactly those that its end leads to, and it raises them to the priority of the thread at its
beginning (`Waits.Sound.priority_of_edge`). Nobody else notices: what a contended acquisition does
to priorities, donors, the queue of the lock and the choice of the next thread is `Core.Contends`,
and every contended acquisition of a disciplined run does that (`reached_contends`).
-/

namespace ThreadCore

open Relation

/-- With one more edge, chains may also run through it, and they need it once. -/
theorem reflTransGen_insert {α : Type*} {R S : α → α → Prop} {x y a b : α}
    (h : ∀ a b, S a b ↔ R a b ∨ (a = x ∧ b = y)) :
    ReflTransGen S a b ↔ ReflTransGen R a b ∨ (ReflTransGen R a x ∧ ReflTransGen R y b) := by
  have hmono : ∀ c d, ReflTransGen R c d → ReflTransGen S c d :=
    ReflTransGen.mono fun c d hr => (h c d).mpr (.inl hr)
  constructor
  · intro hab
    induction hab using ReflTransGen.head_induction_on with
    | refl => exact .inl .refl
    | head h₁ _ ih =>
      rcases (h _ _).mp h₁ with hr | ⟨rfl, rfl⟩
      · exact ih.imp (.head hr) fun ⟨hx, hy⟩ => ⟨.head hr hx, hy⟩
      · exact .inr ⟨.refl, ih.elim id And.right⟩
  · rintro (hab | ⟨hax, hyb⟩)
    · exact hmono _ _ hab
    · exact (hmono _ _ hax).trans (.head ((h x y).mpr (.inr ⟨rfl, rfl⟩)) (hmono _ _ hyb))

namespace Waits

variable {v w : Waits} {t s : ThreadId}

/-- **A new edge.** An edge from `t` to `s` raises those that `s` leads to, to the priority of `t`,
and nobody else. -/
theorem Sound.priority_of_edge (hw : w.Sound) (hv : v.Sound)
    (hfw : {t | w.waitsFor t ≠ none}.Finite) (hfv : {t | v.waitsFor t ≠ none}.Finite)
    (hb : v.base = w.base) (he : ∀ a b, v.Awaits a b ↔ w.Awaits a b ∨ (a = t ∧ b = s))
    (a : ThreadId) :
    (ReflTransGen w.Awaits s a → v.priority a = max (w.priority a) (w.priority t)) ∧
      (¬ ReflTransGen w.Awaits s a → v.priority a = w.priority a) := by
  have hva := isGreatest_priority hv hfv a
  have hwa := isGreatest_priority hw hfw a
  have hwt := isGreatest_priority hw hfw t
  simp only [reflTransGen_insert he, hb] at hva
  constructor
  · intro hsa
    refine hva.unique ?_
    convert hwa.union hwt using 1
    ext p
    simp only [hsa, and_true, or_and_right, exists_or, Set.mem_ofPred_eq, Set.mem_union]
  · intro hsa
    simp only [hsa, and_false, or_false] at hva
    exact hva.unique hwa

end Waits

namespace Core

variable {k k' : Core} {g : Stage} {t holder : ThreadId} {l : ObjectId} {u : Unit}

/-- Who waits for whom does not depend on whose turn it is. -/
theorem endTurn_waits {σ : ThreadState} (hσ : σ ≠ .dying) (h : endTurn σ k = .ok u k') :
    k'.waits = k.waits := by
  obtain ⟨m, t, hq, -, -, ha⟩ := endTurn_alike h
  rw [ha.waits, waits_turned_of_lives hσ, hq.waits]

/-- A thread that goes on living ends its turn, and the thread that was to run next runs. -/
theorem Sound.endTurn_turns (hk : k.Sound g) (hσ : g.state ≠ .dying)
    (h : Core.endTurn g.state k = .ok u k') :
    ∃ t, k.Chooses t ∧ k'.seating = k.seating.turn g.state t ∧ k'.waits = k.waits := by
  obtain ⟨m, t, hq, hch, hlive, ha⟩ := endTurn_alike h
  have hseat := seating_turned (hk.quiet hq) hlive hch fun hd => absurd hd hσ
  refine ⟨t, hch.congr hq.ready hq.idle (congrArg Waits.priority hq.waits), ?_, endTurn_waits hσ h⟩
  rw [ha.seating, hseat, hq.seating]

/-- A thread that sits nowhere and comes to wait for a lock raises those that the holder leads to,
and nobody else. -/
theorem Sound.waitForLock_raises (hk : k.Sound g) (hh : k.waits.holder l = some holder)
    (hb : k.seating.about g.state t = some .blocked) (hi : t ≠ k.idle) (ht : k.seating.Stands t)
    (h : Core.waitForLock t l holder k = .ok u k') (a : ThreadId) :
    (ReflTransGen k.waits.Awaits holder a →
        k'.waits.priority a = max (k.waits.priority a) (k.waits.priority t)) ∧
      (¬ ReflTransGen k.waits.Awaits holder a → k'.waits.priority a = k.waits.priority a) := by
  obtain ⟨hk', hw⟩ := hk.waitForLock hh hb hi ht h
  have hnone := hk.waitsFor_eq_none fun l' => ht (.lock l')
  refine hk.waits.priority_of_edge hk'.waits k.finite_waiting k'.finite_waiting ?_ ?_ a
  · rw [hw.waits]
    rfl
  · intro b c
    rw [hw.waits]
    exact Waits.awaits_enqueue hh hnone

/-! ## A contended acquisition -/

/-- The running thread of `k` waits for lock `l`, which `holder` holds, and another thread runs. -/
structure Contends (k k' : Core) (l : ObjectId) (holder : ThreadId) : Prop where
  /-- Whoever the holder leads to, itself included, is raised to the priority of the waiter. -/
  raised : ∀ t th cth, k.threads[t]? = some th → k.threads[k.current]? = some cth →
    ReflTransGen k.Awaits holder t →
    ∃ th', k'.threads[t]? = some th' ∧ th'.priority = max th.priority cth.priority
  kept : ∀ t th, k.threads[t]? = some th → ¬ ReflTransGen k.Awaits holder t →
    ∃ th', k'.threads[t]? = some th' ∧ th'.priority = th.priority
  donors : ∀ t th, k.threads[t]? = some th → ∃ th', k'.threads[t]? = some th' ∧
    th'.donors.entries =
      if t = holder then th.donors.entries ++ [k.current] else th.donors.entries
  blocked : ∃ th, k'.threads[k.current]? = some th ∧ th.state = .blocked ∧ th.waitsFor = some l
  queued : ∃ o o', k.objects.locks[l]? = some o ∧ k'.objects.locks[l]? = some o' ∧
    o'.holder = some holder ∧ o'.waiters.entries = o.waiters.entries ++ [k.current]
  /-- The next thread is the foremost of the ready ones by the new priorities. -/
  dispatched : (k.ready.entries = [] ∧ k'.ready.entries = [] ∧ k'.current = k.idle) ∨
    ∃ before after, k.ready.entries = before ++ k'.current :: after ∧
      k'.ready.entries = before ++ after ∧
      (∀ u ∈ before, k'.priorityOf u < k'.priorityOf k'.current) ∧
      ∀ u ∈ after, k'.priorityOf u ≤ k'.priorityOf k'.current

/-- A live thread as the views show it. -/
theorem exists_thread {x : ThreadState} (h : k.seating.state t = some x) :
    ∃ th, k.threads[t]? = some th ∧ th.state = x ∧ th.waitsFor = k.waits.waitsFor t ∧
      th.donors.entries = k.waits.donors t ∧ th.priority = k.waits.priority t := by
  obtain ⟨th, hth, hx⟩ := live_of_state h
  exact ⟨th, hth, hx, by simp [waits, hth], by simp [waits, hth], by simp [waits, hth]⟩

/-- A thread that ends its turn is in its new state, and the others live as before. -/
theorem live_turn {s : Seating} {σ x : ThreadState} {a : ThreadId} (hσ : σ ≠ .dying)
    (ha : s.state a = some x) : ∃ y, (s.turn σ t).state a = some y := by
  simp only [Seating.turn, Function.update_apply, if_neg hσ]
  split_ifs
  · exact ⟨_, rfl⟩
  · exact ⟨_, rfl⟩
  · exact ⟨x, ha⟩

/-- The foremost of the ready threads runs next, and the others stay ready in their order. -/
theorem Chooses.erase (h : k.Chooses t) :
    (k.ready.entries = [] ∧ k.ready.entries.erase t = [] ∧ t = k.idle) ∨
      ∃ before after, k.ready.entries = before ++ t :: after ∧
        k.ready.entries.erase t = before ++ after ∧
        (∀ u ∈ before, k.priorityOf u < k.priorityOf t) ∧
        ∀ u ∈ after, k.priorityOf u ≤ k.priorityOf t := by
  refine h.foremost.imp (fun ⟨he, ht⟩ => ⟨he, by simp [he], ht⟩) ?_
  rintro ⟨before, after, he, hb, ha⟩
  have hnot : t ∉ before := fun hm => lt_irrefl _ (hb t hm)
  refine ⟨before, after, he, ?_, hb, ha⟩
  rw [he, List.erase_append_right _ hnot, List.erase_cons_head]

/-- In `n` the running thread of `k` has lined up for lock `l`, and then its turn has ended: thread
`t` runs. -/
structure LinesUp (k n k' : Core) (l : ObjectId) (holder t : ThreadId) : Prop where
  seating : n.seating = k.seating.setQueue (.lock l) (k.seating.queue (.lock l) ++ [k.current])
  waits : n.waits = { k.waits.enqueue k.current l holder with priority := n.waits.priority }
  raised : ∀ a, (ReflTransGen k.waits.Awaits holder a →
      n.waits.priority a = max (k.waits.priority a) (k.waits.priority k.current)) ∧
    (¬ ReflTransGen k.waits.Awaits holder a → n.waits.priority a = k.waits.priority a)
  chosen : n.Chooses t
  turned : k'.seating = n.seating.turn .blocked t
  settled : k'.waits = n.waits

/-- What an acquisition of a held lock does: the running thread lines up and is blocked, and the
thread that is chosen by the raised priorities runs. -/
theorem Sound.acquire_held (hk : k.Sound g) (hg : g.state = .running) (hi : k.current ≠ k.idle)
    (hh : k.waits.holder l = some holder) (h : Core.acquire l k = .ok u k') :
    ∃ n t, LinesUp k n k' l holder t := by
  unfold Core.acquire at h
  simp only [outsideHandler_bind_eq_ok, ask_bind_eq_ok] at h
  obtain ⟨-, th, hr, h⟩ := h
  obtain ⟨hid, hth⟩ := hk.running_eq hr
  obtain ⟨m, m', hq, h, hq'⟩ := masked_eq_ok h
  simp only [ask_bind_eq_ok, lock_eq_ok_iff] at h
  obtain ⟨o, ho, h⟩ := h
  have hoh : o.holder = some holder := (holder_lock ho).symm.trans (hq.waits ▸ hh)
  simp only [hoh, demand_bind_eq_ok] at h
  simp only [bind_eq_ok] at h
  obtain ⟨-, _, n, hn, _, n', hn', h⟩ := h
  rw [hid, ← hk.current] at hn
  rw [← hk.current] at hth
  have hm := (hk.quiet hq).stand hg .blocked (by decide)
  have hstands : m.seating.Stands k.current := by
    rw [hq.seating]
    exact hk.seating.current_stands fun p => hg ▸ p.state_ne_running
  have hb : m.seating.about .blocked k.current = some .blocked := by
    rw [← hq.current]
    exact about_current m _
  have hmh : m.waits.holder l = some holder := hq.waits ▸ hh
  have hidle : k.current ≠ m.idle := by rwa [hq.idle]
  have hmth : m.threads[k.current]? = some th := by rwa [hq.threads]
  obtain ⟨j, hj, hc⟩ := hm.waitForLock_carried hmh hmth hstands hn
  obtain ⟨hns, hw⟩ := hm.waitForLock hmh hb hidle hstands hn
  have hraises := hm.waitForLock_raises hmh hb hidle hstands hn
  obtain ⟨t, hch, hseat, hwaits⟩ := (hns.quiet (quiet_say hn')).endTurn_turns (by simp) h
  have hqn := quiet_say hn'
  refine ⟨n, t, ?_, ?_, ?_, ?_, ?_, ?_⟩
  · rw [hc.unmoved.seating, hj.seating, hq.seating]
  · have hnw := hw.waits
    rwa [hq.waits] at hnw
  · rwa [hq.waits] at hraises
  · exact hch.congr hqn.ready hqn.idle (congrArg Waits.priority hqn.waits)
  · rw [hq'.seating, hseat, hqn.seating]
  · rw [hq'.waits, hwaits, hqn.waits]

namespace LinesUp

variable {n : Core} {a : ThreadId} {th : Thread}

theorem ready (h : LinesUp k n k' l holder t) : n.ready.entries = k.ready.entries :=
  congrArg (fun s : Seating => s.queue .ready) h.seating

/-- The threads live on, as the views show them. -/
theorem live (h : LinesUp k n k' l holder t) (hth : k.threads[a]? = some th) :
    ∃ th', k'.threads[a]? = some th' ∧ th'.donors.entries = k'.waits.donors a ∧
      th'.priority = k'.waits.priority a := by
  have ha : n.seating.state a = some th.state := by
    rw [h.seating]
    exact state_eq hth
  obtain ⟨y, hy⟩ := live_turn (t := t) (σ := .blocked) (by decide) ha
  rw [← h.turned] at hy
  obtain ⟨th', hth', -, -, hd, hp⟩ := exists_thread hy
  exact ⟨th', hth', hd, hp⟩

/-- The thread that lines up is a new donor of the holder, and of nobody else. -/
theorem donors (h : LinesUp k n k' l holder t) (hth : k.threads[a]? = some th) :
    k'.waits.donors a = if a = holder then th.donors.entries ++ [k.current]
      else th.donors.entries := by
  have hd : k.waits.donors a = th.donors.entries := by simp [Core.waits, hth]
  rw [h.settled, h.waits, ← hd]
  simp only [Waits.enqueue, Waits.setDonors, Function.update_apply]
  split_ifs with ha
  · rw [ha]
  · rfl

theorem blocked (h : LinesUp k n k' l holder t) (hne : k.current ≠ t) :
    ∃ th, k'.threads[k.current]? = some th ∧ th.state = .blocked ∧ th.waitsFor = some l := by
  have hc : n.seating.current = k.current := congrArg Seating.current h.seating
  have hstate : k'.seating.state k.current = some .blocked := by
    rw [h.turned]
    simp [Seating.turn, hc, hne]
  obtain ⟨th, hth, hs, hwf, -⟩ := exists_thread hstate
  refine ⟨th, hth, hs, ?_⟩
  rw [hwf, h.settled, h.waits]
  simp [Waits.enqueue, Waits.setDonors, Waits.setWaitsFor]

theorem queued (h : LinesUp k n k' l holder t) (hh : k.waits.holder l = some holder) :
    ∃ o o', k.objects.locks[l]? = some o ∧ k'.objects.locks[l]? = some o' ∧
      o'.holder = some holder ∧ o'.waiters.entries = o.waiters.entries ++ [k.current] := by
  have hh' : k'.waits.holder l = some holder := by
    rw [h.settled, h.waits]
    exact hh
  obtain ⟨o, ho, -⟩ := Option.bind_eq_some_iff.mp hh
  obtain ⟨o', ho', hoh⟩ := Option.bind_eq_some_iff.mp hh'
  refine ⟨o, o', ho, ho', hoh, ?_⟩
  rw [← waiters_lock ho, ← waiters_lock ho', h.settled, h.waits]
  simp [Waits.enqueue, Waits.setDonors, Waits.setWaitsFor, Waits.setWaiters]

/-- The thread that runs next was the foremost of the ready ones, by the new priorities. -/
theorem dispatched (h : LinesUp k n k' l holder t) :
    (k.ready.entries = [] ∧ k'.ready.entries = [] ∧ k'.current = k.idle) ∨
      ∃ before after, k.ready.entries = before ++ k'.current :: after ∧
        k'.ready.entries = before ++ after ∧
        (∀ u ∈ before, k'.priorityOf u < k'.priorityOf k'.current) ∧
        ∀ u ∈ after, k'.priorityOf u ≤ k'.priorityOf k'.current := by
  have hcurrent : k'.current = t := congrArg Seating.current h.turned
  have hidle : n.idle = k.idle := congrArg Seating.idle h.seating
  have hready : k'.ready.entries = n.ready.entries.erase t := by
    have hqueue := congrArg (fun s : Seating => s.queue .ready) h.turned
    simp only [Seating.turn, Function.update_self] at hqueue
    exact hqueue
  have hprio : ∀ a, k'.priorityOf a = n.priorityOf a := by
    intro a
    rw [priorityOf_eq, priorityOf_eq, h.settled]
  rw [← h.ready, hready, hcurrent, ← hidle]
  simp only [hprio]
  exact h.chosen.erase

end LinesUp

/-- **A contended acquisition.** It raises the holders behind the lock and nobody else. -/
theorem Sound.acquire_contends (hk : k.Sound g) (hg : g.state = .running) (hi : k.current ≠ k.idle)
    (hh : k.waits.holder l = some holder) (h : Core.acquire l k = .ok u k') :
    k.Contends k' l holder := by
  obtain ⟨n, t, hup⟩ := hk.acquire_held hg hi hh h
  have hprio : ∀ {a th}, k.threads[a]? = some th → k.waits.priority a = th.priority := by
    intro a th hth
    simp [Core.waits, hth]
  have hne : k.current ≠ t := by
    rintro rfl
    rcases hup.chosen.mem with hm | hm
    · rw [hup.ready] at hm
      exact hk.seating.current_stands (fun p => hg ▸ p.state_ne_running) .ready hm
    · exact hi (hm.trans (congrArg Seating.idle hup.seating))
  constructor
  · intro a th cth hth hcth hreach
    obtain ⟨th', hth', -, hp⟩ := hup.live hth
    rw [awaits_eq] at hreach
    exact ⟨th', hth', by rw [hp, hup.settled, (hup.raised a).1 hreach, hprio hth, hprio hcth]⟩
  · intro a th hth hreach
    obtain ⟨th', hth', -, hp⟩ := hup.live hth
    rw [awaits_eq] at hreach
    exact ⟨th', hth', by rw [hp, hup.settled, (hup.raised a).2 hreach, hprio hth]⟩
  · intro a th hth
    obtain ⟨th', hth', hd, -⟩ := hup.live hth
    exact ⟨th', hth', hd.trans (hup.donors hth)⟩
  · exact hup.blocked hne
  · exact hup.queued hh
  · exact hup.dispatched

end Core

namespace Session

open ThreadCore.Core (Contends)

variable {s s' : Session} {a : Answer} {i : Nat} {l : ObjectId} {o : Lock} {holder : ThreadId}
  {frames : List Bool}

/-- An acquisition of a lock that another thread holds succeeds, or it halts with a deadlock. -/
theorem acquire_outcome (hk : s.core.InOrder true) (hf : s.core.Fit false)
    (hl : s.locks[i]? = some l) (ho : s.core.objects.locks[l]? = some o)
    (hh : o.holder = some holder) (hne : holder ≠ s.core.current)
    (hc : s.core.current ≠ s.core.idle) (hout : s.core.machine.inHandler = false) :
    (∃ a s', execute (.acquire i) s = .ok a s') ∨
      ∃ via s', execute (.acquire i) s = .error (.deadlock s.core.current via) s' := by
  have hholder : s.core.waits.holder l = some holder := (Core.holder_lock ho).trans hh
  by_cases hto : ReflTransGen s.core.Awaits holder s.core.current
  · exact .inr ((acquire_halts_iff hk hl ho hh hne hc hout).mpr hto)
  · rw [Core.awaits_eq] at hto
    obtain ⟨k, hx⟩ := hk.acquire_ok rfl rfl hf hout hc hholder hne hto
    exact .inl ⟨_, _, (resolve_of_some hl).trans (report_ok.mpr ⟨(), k, hx, rfl, rfl⟩)⟩

/-- **A contended acquisition raises exactly the chain.** In every state of a disciplined run, when
the running thread, not the idle one, acquires a lock that another thread holds, the holders that
the lock leads to get the greater of their own and its effective priority, and everybody else keeps
their own. The thread is blocked at the end of the queue of the lock, as a donor of the holder only,
and the next thread is chosen by the new priorities. Outside a handler this is what happens, unless
the acquisition halts with a deadlock. -/
theorem reached_contends (h : Reached Disciplined frames s) (hc : s.core.current ≠ s.core.idle)
    (hl : s.locks[i]? = some l) (ho : s.core.objects.locks[l]? = some o)
    (hh : o.holder = some holder) :
    (∀ a s', execute (.acquire i) s = .ok a s' → Contends s.core s'.core l holder) ∧
    (holder ≠ s.core.current → s.core.machine.inHandler = false →
      (∃ a s', execute (.acquire i) s = .ok a s') ∨
        ∃ via s', execute (.acquire i) s = .error (.deadlock s.core.current via) s') := by
  constructor
  · intro a s' he
    rw [show execute (.acquire i) s = _ from resolve_of_some hl] at he
    obtain ⟨_, k, hk, rfl⟩ := act_eq_ok he
    exact h.inOrder.acquire_contends rfl hc ((Core.holder_lock ho).trans hh) hk
  · intro hne hout
    exact acquire_outcome h.inOrder h.fit hl ho hh hne hc hout

/-- Thread 4 waits for a lock of thread 3, which waits for a lock of thread 1: both are raised, and
thread 1, at the end of the chain, runs next. -/
theorem reached_contends_nested : ∃ s s' a o, Reached Disciplined [] s ∧ s.core.current = 4 ∧
    s.core.objects.locks[(2 : ObjectId)]? = some o ∧ o.holder = some 3 ∧
    [1, 3, 4].map s.core.priorityOf = [35, 35, 40] ∧
    execute (.acquire 1) s = .ok a s' ∧ Contends s.core s'.core 2 3 ∧
    [1, 3, 4].map s'.core.priorityOf = [40, 40, 40] ∧ s'.core.current = 1 := by
  have hrun : (afterBoot ⟨none, none, none, false, none⟩
      [.newLock, .newLock, .acquire 0, .create "mid" 35, .acquire 1, .acquire 0,
        .create "high" 40]).any (fun s =>
        decide (s.core.current = 4 ∧ s.core.current ≠ s.core.idle ∧ s.locks[1]? = some 2 ∧
          s.core.machine.inHandler = false ∧
          (s.core.objects.locks[(2 : ObjectId)]?).bind Lock.holder = some 3 ∧
          [1, 3, 4].map s.core.priorityOf = [35, 35, 40]) &&
        succeeds (fun _ s' => [1, 3, 4].map s'.core.priorityOf = [40, 40, 40] ∧ s'.core.current = 1)
          (execute (.acquire 1) s)) = true := by
    decide +kernel
  obtain ⟨s, hs, hrun⟩ := (Option.any_eq_true _ _).mp hrun
  obtain ⟨hbefore, hafter⟩ := Bool.and_eq_true_iff.mp hrun
  obtain ⟨hcurrent, hidle, hl, hout, hh, hprio⟩ := of_decide_eq_true hbefore
  obtain ⟨o, ho, hh⟩ := Option.bind_eq_some_iff.mp hh
  obtain ⟨a, s', he, hafter⟩ := exists_of_succeeds hafter
  obtain ⟨hprio', hcurrent'⟩ := of_decide_eq_true hafter
  have hreach := reached_afterBoot (fun _ _ => Disciplined.plain) hs
  obtain ⟨hcontends, hoccurs⟩ := reached_contends hreach hidle hl ho hh
  -- Both answers are possible by the theorem, and the run shows which it is.
  obtain ⟨a₁, s₁, he₁⟩ := (hoccurs (by rw [hcurrent]; decide) hout).resolve_right (by
    rintro ⟨via, s₁, herr⟩
    rw [he] at herr
    cases herr)
  exact ⟨s, s₁, a₁, o, hreach, hcurrent, ho, hh, hprio, he₁, hcontends a₁ s₁ he₁, by
    rw [he] at he₁
    cases he₁
    exact ⟨hprio', hcurrent'⟩⟩

end Session

end ThreadCore
