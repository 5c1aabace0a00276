import ThreadCore.Proofs.Soundness

/-!
# Turns

What the scheduler does. When a turn ends, the thread that is served next is the first, in the order
of arrival, of the ready threads of greatest effective priority (`Core.Chooses`), and the state
after that obeys the rules with this thread at work (`Sound.endTurn`).

No ready thread is more urgent than the thread at work, once its turn has begun (`Core.Orderly`). A
handler may leave this to its return (`Core.Settled`).
-/

namespace ThreadCore

/-- A foremost entry: those before it are outranked by it, and those behind it do not outrank it. -/
theorem Queue.foremostOf_eq_some {α : Type} [LinearOrder α] {rank : ThreadId → α}
    {ts : List ThreadId} {t : ThreadId}
    (h : foremostOf (fun a b => decide (rank b < rank a)) ts = some t) :
    ∃ before after, ts = before ++ t :: after ∧ (∀ u ∈ before, rank u < rank t) ∧
      ∀ u ∈ after, rank u ≤ rank t := by
  induction ts generalizing t with
  | nil => simp [foremostOf] at h
  | cons v ts ih =>
    cases hts : foremostOf (fun a b => decide (rank b < rank a)) ts with
    | none =>
      simp only [foremostOf, hts, Option.some.injEq] at h
      subst h
      rw [foremostOf_eq_none_iff] at hts
      exact ⟨[], [], by simp [hts], by simp, by simp⟩
    | some w =>
      obtain ⟨before, after, hsplit, hb, ha⟩ := ih hts
      simp only [foremostOf, hts, decide_eq_true_eq] at h
      split at h
      · rename_i hlt
        cases h
        refine ⟨v :: before, after, by simp [hsplit], ?_, ha⟩
        intro x hx
        rcases List.mem_cons.mp hx with rfl | hx
        · exact hlt
        · exact hb x hx
      · rename_i hle
        cases h
        refine ⟨[], ts, rfl, by simp, ?_⟩
        intro x hx
        rw [hsplit, List.mem_append, List.mem_cons] at hx
        have hw := not_lt.mp hle
        rcases hx with hx | rfl | hx
        · exact (hb x hx).le.trans hw
        · exact hw
        · exact (ha x hx).trans hw

namespace Core

variable {k k' : Core} {g : Stage} {t s : ThreadId} {u : Unit}

/-! ## The choice of the next thread -/

/-- `t` is to run next. -/
def Chooses (k : Core) (t : ThreadId) : Prop :=
  k.ready.foremost k.outranks = some t ∨ k.ready.entries = [] ∧ t = k.idle

theorem Chooses.mem (h : k.Chooses t) : t ∈ k.ready.entries ∨ t = k.idle :=
  h.imp Queue.mem_of_foremostOf And.right

/-- **The choice.** The thread that runs next is the idle thread if none is ready. Else it is a
ready thread that is more urgent than those ahead of it and no less urgent than those behind it. -/
theorem Chooses.foremost (h : k.Chooses t) :
    (k.ready.entries = [] ∧ t = k.idle) ∨
      ∃ before after, k.ready.entries = before ++ t :: after ∧
        (∀ u ∈ before, k.priorityOf u < k.priorityOf t) ∧
        ∀ u ∈ after, k.priorityOf u ≤ k.priorityOf t := by
  rcases h with h | h
  · have h : Queue.foremostOf (fun a b => decide (k.priorityOf b < k.priorityOf a))
        k.ready.entries = some t := h
    exact .inr (Queue.foremostOf_eq_some h)
  · exact .inl h

theorem Chooses.priority_le (h : k.Chooses t) (hs : s ∈ k.ready.entries) :
    k.priorityOf s ≤ k.priorityOf t := by
  rcases h.foremost with ⟨he, -⟩ | ⟨before, after, he, hb, ha⟩
  · simp [he] at hs
  · rw [he, List.mem_append, List.mem_cons] at hs
    rcases hs with hs | rfl | hs
    · exact (hb s hs).le
    · exact le_rfl
    · exact ha s hs

theorem priorityOf_eq (k : Core) (t : ThreadId) : k.priorityOf t = k.waits.priority t := by
  simp only [priorityOf, waits]
  cases k.threads[t]? <;> rfl

theorem Chooses.congr (h : k'.Chooses t) (hr : k'.ready = k.ready) (hi : k'.idle = k.idle)
    (hp : k'.waits.priority = k.waits.priority) : k.Chooses t := by
  have ho : k'.outranks = k.outranks := by
    funext a b
    simp only [outranks, priorityOf_eq, hp]
  unfold Chooses at h
  rwa [hr, hi, ho] at h

theorem takeNext_eq_ok (h : takeNext k = .ok t k') :
    k.Chooses t ∧ k' = { k with ready := k.ready.remove t } := by
  unfold takeNext at h
  simp only [ask_bind_eq_ok, mostUrgent_eq_ok] at h
  obtain ⟨o, ⟨-, ho⟩, h⟩ := h
  cases o with
  | some s =>
    simp only [modify_bind_eq_ok, pure_eq_ok] at h
    obtain ⟨rfl, rfl⟩ := h
    exact ⟨.inl ho, rfl⟩
  | none =>
    simp only [get_bind_eq_ok, pure_eq_ok] at h
    obtain ⟨rfl, rfl⟩ := h
    have he : k.ready.entries = [] := Queue.foremostOf_eq_none_iff.mp ho
    have hr : k.ready.remove k.idle = k.ready := by
      cases hq : k.ready
      simp_all [Queue.remove]
    exact ⟨.inr ⟨he, rfl⟩, by rw [hr]⟩

/-! ## The switch -/

theorem quiet_switch {a b : Context} {r : Context × Option String}
    (h : onMachine (Machine.switch a b) k = .ok r k') : Quiet k k' := by
  refine quiet_onMachine (fun m _ m' hm => ?_) h
  unfold Machine.switch at hm
  simp only [get_bind_eq_ok, demand_bind_eq_ok, modify_bind_eq_ok, pure_eq_ok] at hm
  obtain ⟨-, -, -, rfl⟩ := hm
  rfl

/-- The saved context of a thread is of no consequence. -/
theorem alike_context (k : Core) (t : ThreadId) (c : Context) :
    Alike k (k.mapThread t fun th => { th with context := c }) :=
  ⟨seating_mapThread (fun _ => rfl) fun _ => rfl,
    waits_mapThread (fun _ => rfl) (fun _ => rfl) (fun _ => rfl) fun _ => rfl,
    fun _ h => h.mapThread (fun _ => rfl) (fun _ => rfl) fun _ => rfl, rfl, rfl⟩

/-- What a switch does once the thread it leaves is gone: the context of `t` is loaded. -/
def resume (s t : ThreadId) (running resumed : Context) : CoreM Unit := do
  record (.switched s t)
  let (context, entry) ← onMachine (Machine.switch running resumed)
  changeThread t fun th => { th with context := context }
  match entry with
  | some label => record (.launched label)
  | none => pure ()

/-- Loading a context has no consequences. -/
theorem alike_resume {running resumed : Context} (h : resume s t running resumed k = .ok u k') :
    Alike k k' := by
  simp only [resume, bind_eq_ok, changeThread_eq_ok] at h
  obtain ⟨_, k₁, h₁, r, k₂, h₂, _, _, ⟨-, rfl⟩, h⟩ := h
  refine (((quiet_record h₁).trans (quiet_switch h₂)).alike.trans (alike_context k₂ t r.1)).trans ?_
  cases he : r.2 with
  | some label =>
    simp only [he] at h
    exact (quiet_record h).alike
  | none =>
    simp only [he] at h
    exact (pure_eq_ok.mp h).2 ▸ .refl _

/-- `s` leaves the processor to `t`. -/
def left (k : Core) (s t : ThreadId) (dies : Prop) [Decidable dies] : Core :=
  { k with current := t, threads := if dies then k.threads.erase s else k.threads }

theorem switchTo_eq_ok (h : switchTo s t k = .ok u k') :
    ∃ th, k.threads[s]? = some th ∧ Alike (k.left s t (th.state = .dying)) k' := by
  unfold switchTo at h
  rw [modify_bind_eq_ok, bind_eq_ok] at h
  obtain ⟨_, k₁, h₁, h⟩ := h
  have hq := quiet_say h₁
  simp only [ask_bind_eq_ok, thread_eq_ok_iff] at h
  obtain ⟨th, hth, h⟩ := h
  refine ⟨th, hq.threads ▸ hth, ?_⟩
  unfold left
  split at h
  · rename_i hdying
    simp only [modify_bind_eq_ok, ask_bind_eq_ok] at h
    obtain ⟨resumed, -, h⟩ := h
    rw [if_pos hdying]
    refine Alike.trans (Quiet.alike ?_) (alike_resume h)
    exact ⟨congrArg (·.erase s) hq.threads, hq.nextThread, hq.current, hq.idle, hq.ready,
      hq.sleepers, hq.objects, hq.pending, hq.handler⟩
  · rename_i hdying
    simp only [ask_bind_eq_ok] at h
    obtain ⟨resumed, -, h⟩ := h
    rw [if_neg hdying]
    exact hq.alike.trans (alike_resume h)

/-! ## The end of a turn -/

/-- A note about a task, if it has a label, changes nothing for what follows. -/
theorem note_eq_ok {α : Type} {label? : Option String} {event : String → Event} {rest : CoreM α}
    {a : α}
    (h : (match label? with
      | some label => record (event label) >>= fun _ => rest
      | none => rest) k = .ok a k') : ∃ m, Quiet k m ∧ rest m = .ok a k' := by
  cases label? with
  | some label =>
    obtain ⟨_, m, hm, h⟩ := bind_eq_ok.mp h
    exact ⟨m, quiet_record hm, h⟩
  | none => exact ⟨k, .refl k, h⟩

theorem dispatch_eq_ok (h : dispatch k = .ok u k') :
    ∃ t th src m, k.Chooses t ∧ k.threads[t]? = some th ∧ k.threads[k.current]? = some src ∧
      src.state ≠ .running ∧
      Quiet (({ k with ready := k.ready.remove t } : Core).mapThread t
        fun th => { th with state := .running }) m ∧
      if k.current = t then k' = m else switchTo k.current t m = .ok () k' := by
  unfold dispatch at h
  rw [get_bind_eq_ok, bind_eq_ok] at h
  obtain ⟨t, _, h₁, h⟩ := h
  obtain ⟨hch, rfl⟩ := takeNext_eq_ok h₁
  rw [get_bind_eq_ok, demand_bind_eq_ok] at h
  simp only [ask_bind_eq_ok, demand_bind_eq_ok, thread_eq_ok_iff, changeThread_bind_eq_ok] at h
  obtain ⟨-, src, hsrc, hrun, th, hth, -, -, h⟩ := h
  obtain ⟨m, hq, h⟩ := note_eq_ok h
  rw [modify_bind_eq_ok] at h
  refine ⟨t, th, src, { m with slice := 0 }, hch, hth, hsrc, hrun,
    hq.trans ⟨rfl, rfl, rfl, rfl, rfl, rfl, rfl, rfl, rfl⟩, ?_⟩
  split at h
  · rename_i hne
    rwa [if_neg hne]
  · rename_i he
    rw [if_pos (not_not.mp he)]
    exact (pure_eq_ok.mp h).2.symm

/-- What a dispatch leaves behind, up to what no view shows. -/
theorem dispatch_alike (h : dispatch k = .ok u k') :
    ∃ t src th, k.Chooses t ∧ k.threads[t]? = some th ∧ k.threads[k.current]? = some src ∧
      src.state ≠ .running ∧
      Alike ((({ k with ready := k.ready.remove t } : Core).mapThread t
        fun th => { th with state := .running }).left k.current t
          (src.state = .dying ∧ k.current ≠ t)) k' := by
  obtain ⟨t, th, src, m, hch, hth, hsrc, hrun, hq, hrest⟩ := dispatch_eq_ok h
  refine ⟨t, src, th, hch, hth, hsrc, hrun, ?_⟩
  split at hrest
  · rename_i he
    subst hrest
    have : (({ k with ready := k.ready.remove t } : Core).mapThread t
        fun th => { th with state := .running }).left k.current t
          (src.state = .dying ∧ k.current ≠ t) =
        ({ k with ready := k.ready.remove t } : Core).mapThread t
          fun th => { th with state := .running } := by
      subst he
      simp [left, mapThread]
    rw [this]
    exact hq.alike
  · rename_i hne
    obtain ⟨src', hsrc', ha⟩ := switchTo_eq_ok hrest
    have : src' = src := by
      rw [hq.threads, getElem?_mapThread, if_neg hne] at hsrc'
      exact Option.some.inj (hsrc'.symm.trans hsrc)
    subst this
    refine Alike.trans (Quiet.alike ?_) ha
    by_cases hd : src'.state = .dying
    · simp only [left, hd, hne, ne_eq, not_false_eq_true, and_self, if_true]
      exact ⟨congrArg (·.erase k.current) hq.threads, hq.nextThread, rfl, hq.idle, hq.ready,
        hq.sleepers, hq.objects, hq.pending, hq.handler⟩
    · simp only [left, hd, false_and, if_false]
      exact ⟨hq.threads, hq.nextThread, rfl, hq.idle, hq.ready, hq.sleepers, hq.objects,
        hq.pending, hq.handler⟩

/-! ## A thread that is gone -/

theorem seating_erase (hw : k.seating.wakeAt s = none) :
    ({ k with threads := k.threads.erase s } : Core).seating = k.seating.setState s none := by
  have hw' : (k.threads[s]?).bind Thread.wakeAt = none := hw
  unfold seating Seating.setState
  congr 1 <;> funext t <;>
    simp only [Std.ExtTreeMap.getElem?_erase, compare_eq_iff_eq, Function.update_apply] <;>
    split <;> simp_all [eq_comm]

theorem waits_erase (hw : k.waits.waitsFor s = none) (hd : k.waits.donors s = []) :
    ({ k with threads := k.threads.erase s } : Core).waits = k.waits.rebase s 0 := by
  have hdue : (k.waits.setBase s 0).due s = 0 := by
    simp [Waits.due, Waits.setBase, hd]
  have hw' : (k.threads[s]?).bind Thread.waitsFor = none := hw
  have hd' : ((k.threads[s]?).map fun th => th.donors.entries).getD [] = [] := hd
  unfold Waits.rebase
  rw [hdue]
  unfold waits Waits.setPriority Waits.setBase
  congr 1 <;> funext t <;>
    simp only [Std.ExtTreeMap.getElem?_erase, compare_eq_iff_eq, Function.update_apply] <;>
    grind

/-- Nothing depends on the thread at work: it holds no lock and is nobody's parent, and it is not
the idle thread. -/
structure Leaving (k : Core) : Prop where
  not_idle : k.current ≠ k.idle
  holder : ∀ l, k.waits.holder l ≠ some k.current
  parent : ∀ c, k.parentOf c ≠ some k.current

theorem Leaving.mapThread (h : k.Leaving) {f : Thread → Thread}
    (hf : ∀ th, (f th).family = th.family) : (k.mapThread t f).Leaving := by
  refine ⟨h.not_idle, h.holder, fun c hc => ?_⟩
  have hp : (k.mapThread t f).parentOf c = k.parentOf c :=
    bind_getElem?_mapThread (fun th => by rw [hf]) c
  exact h.parent c (hp.symm.trans hc)

theorem Registered.erase {terms : Terms} (h : k.Registered terms) (hl : k.Leaving) :
    ({ k with threads := k.threads.erase k.current } : Core).Registered terms := by
  obtain ⟨h₁, h₂, h₃, h₄, h₅, h₆⟩ := h
  have hlive : ∀ t, (k.threads.erase k.current)[t]? =
      if t = k.current then none else k.threads[t]? := by
    intro t
    simp only [Std.ExtTreeMap.getElem?_erase, compare_eq_iff_eq]
    exact if_congr eq_comm rfl rfl
  refine ⟨?_, ?_, ?_, h₄, h₅, h₆⟩
  · intro t th ht
    rw [hlive] at ht
    split at ht
    · cases ht
    · exact h₁ t th ht
  · intro c p hc hns
    simp only [parentOf, recordOf, hlive] at hc ⊢
    split at hc
    · cases hc
    · have hpc : p ≠ k.current := fun e => hl.parent c (e ▸ hc)
      rw [if_neg hpc]
      exact h₂ c p hc hns
  · intro l t ht
    have htc : t ≠ k.current := fun e => hl.holder l (e ▸ ht)
    rw [hlive, if_neg htc]
    exact h₃ l t ht

/-- The current thread ends its turn in state `σ`, and `t` runs. -/
def turned (k : Core) (σ : ThreadState) (t : ThreadId) : Core :=
  ((({ k with ready := k.ready.remove t } : Core).mapThread k.current
    fun th => { th with state := σ }).mapThread t fun th => { th with state := .running }).left
      k.current t (σ = .dying ∧ k.current ≠ t)

theorem endTurn_alike {σ : ThreadState} (h : endTurn σ k = .ok u k') :
    ∃ m t, Quiet k m ∧ m.Chooses t ∧ (∃ th, m.threads[t]? = some th) ∧ Alike (m.turned σ t) k' := by
  unfold endTurn at h
  simp only [get_bind_eq_ok, demand_bind_eq_ok, ask_bind_eq_ok, thread_eq_ok_iff] at h
  obtain ⟨-, th, hth, -, h⟩ := h
  rw [bind_eq_ok] at h
  obtain ⟨_, m, hm, h⟩ := h
  have hq := quiet_reclaim hm
  rw [changeThread_bind_eq_ok, ← hq.current] at h
  obtain ⟨⟨th', hth'⟩, h⟩ := h
  obtain ⟨t, src, tth, hch, htth, hsrc, -, ha⟩ := dispatch_alike h
  have hsrc' : src = { th' with state := σ } := by
    have := getElem?_mapThread m m.current m.current fun th => { th with state := σ }
    rw [if_pos rfl, hth'] at this
    exact Option.some.inj (hsrc.symm.trans this)
  have hlive : ∃ th, m.threads[t]? = some th := by
    rw [getElem?_mapThread] at htth
    split at htth
    · rename_i he
      exact he ▸ ⟨th', hth'⟩
    · exact ⟨tth, htth⟩
  have hchoice : m.Chooses t := by
    have hw := waits_mapThread (k := m) (t := m.current) (f := fun th => { th with state := σ })
      (fun _ => rfl) (fun _ => rfl) (fun _ => rfl) fun _ => rfl
    exact hch.congr rfl rfl (congrArg Waits.priority hw)
  subst hsrc'
  exact ⟨m, t, hq, hchoice, hlive, ha⟩

/-- Who ends a turn without being ready does not run next, except for the idle thread. -/
theorem current_ne_of_endTurn {σ : ThreadState} (hready : k.current ∉ k.ready.entries)
    (hi : k.current ≠ k.idle) (he : endTurn σ k = .ok u k') : k'.current ≠ k.current := by
  obtain ⟨m, t, hq, hch, -, ha⟩ := endTurn_alike he
  have hcurrent : k'.current = t := congrArg Seating.current ha.seating
  rw [hcurrent]
  rintro rfl
  rcases hch.mem with hmem | hmem
  · rw [hq.ready] at hmem
    exact hready hmem
  · exact hi (hmem.trans hq.idle)

section Turned

variable {σ : ThreadState} (hk : k.Sound g) (hlive : ∃ th, k.threads[t]? = some th)

include hk in
/-- A thread that may be chosen while the current one is dying is another one. -/
theorem Chooses.ne_current (h : k.Chooses t) (hd : g.state = .dying) (hl : k.Leaving) :
    k.current ≠ t := by
  rintro rfl
  rcases h.mem with hm | hi
  · exact hk.seating.current_stands (fun p => hd ▸ p.state_ne_dying) .ready hm
  · exact hl.not_idle hi

include hlive in
/-- The seating after a turn, if a thread that dies was not to wake at a tick and another one
runs. -/
theorem seating_turned_of (hc : ∃ th, k.threads[k.current]? = some th)
    (hne : σ = .dying → k.current ≠ t) (hwake : σ = .dying → k.seating.wakeAt k.current = none) :
    (k.turned σ t).seating = k.seating.turn σ t := by
  obtain ⟨cth, hc⟩ := hc
  have hready := seating_ready (k := k) (k.ready.remove t)
  let k₁ : Core := { k with ready := k.ready.remove t }
  have h₁ : k₁.threads[k.current]? = some cth := hc
  have hs₁ := seating_state h₁ σ
  let k₂ := k₁.mapThread k.current fun th => { th with state := σ }
  obtain ⟨th, hth⟩ : ∃ th, k₂.threads[t]? = some th := by
    obtain ⟨th, hth⟩ := hlive
    rw [getElem?_mapThread]
    split
    · exact ⟨_, by rw [h₁]; rfl⟩
    · exact ⟨th, hth⟩
  have hs₂ := seating_state hth .running
  let k₃ := k₂.mapThread t fun th => { th with state := .running }
  have hk₃ : k₃.seating = (((k.seating.setQueue .ready (k.ready.entries.erase t)).setState k.current
      (some σ)).setState t (some .running)) :=
    (hs₂.trans (congrArg (·.setState t (some .running)) hs₁)).trans (by rw [hready]; rfl)
  by_cases hd : σ = .dying
  · have hne := hne hd
    have hwake : k₃.seating.wakeAt k.current = none := by
      rw [hk₃]
      exact hwake hd
    have he := seating_erase hwake
    have : (k.turned σ t).seating =
        { ({ k₃ with threads := k₃.threads.erase k.current } : Core).seating with current :=
          t } := by
      simp only [turned, left, hd, hne, ne_eq, not_false_eq_true, and_self, if_true, k₃, k₂, k₁]
      rfl
    rw [this, he, hk₃]
    simp only [Seating.setState, Seating.setQueue, Seating.turn, hd, if_true]
    congr 1
    funext v
    simp only [Function.update_apply]
    have : k.seating.current = k.current := rfl
    grind
  · have : (k.turned σ t).seating = { k₃.seating with current := t } := by
      simp only [turned, left, hd, false_and, if_false, k₃, k₂, k₁]
      rfl
    rw [this, hk₃]
    simp only [Seating.setState, Seating.setQueue, Seating.turn, hd, if_false]
    rfl

include hk hlive in
theorem seating_turned (h : k.Chooses t) (hl : g.state = .dying → k.Leaving) :
    (k.turned g.state t).seating = k.seating.turn g.state t := by
  refine seating_turned_of hlive hk.live_current (fun hd => h.ne_current hk hd (hl hd)) fun hd => ?_
  have hno := hk.seating.current_stands (fun p => hd ▸ p.state_ne_dying) .sleep
  have hiff := hk.seating.wakeAt_iff k.seating.current
  show k.seating.wakeAt k.seating.current = none
  simpa [hno] using hiff

theorem waits_turned_of_lives {σ : ThreadState} (hσ : σ ≠ .dying) :
    (k.turned σ t).waits = k.waits := by
  let k₁ : Core := { k with ready := k.ready.remove t }
  let k₂ := k₁.mapThread k.current fun th => { th with state := σ }
  let k₃ := k₂.mapThread t fun th => { th with state := .running }
  have hk₂ : k₂.waits = k₁.waits :=
    waits_mapThread (fun _ => rfl) (fun _ => rfl) (fun _ => rfl) fun _ => rfl
  have hk₃ : k₃.waits = k₂.waits :=
    waits_mapThread (fun _ => rfl) (fun _ => rfl) (fun _ => rfl) fun _ => rfl
  have hw : k₃.waits = k.waits := hk₃.trans hk₂
  rw [← hw]
  simp only [turned, left, hσ, false_and, if_false, k₃, k₂, k₁]
  rfl

include hk in
theorem waits_turned (h : k.Chooses t) (hl : g.state = .dying → k.Leaving) :
    (k.turned g.state t).waits =
      if g.state = .dying then k.waits.rebase k.current 0 else k.waits := by
  let k₁ : Core := { k with ready := k.ready.remove t }
  let k₂ := k₁.mapThread k.current fun th => { th with state := g.state }
  let k₃ := k₂.mapThread t fun th => { th with state := .running }
  have hk₂ : k₂.waits = k₁.waits :=
    waits_mapThread (fun _ => rfl) (fun _ => rfl) (fun _ => rfl) fun _ => rfl
  have hk₃ : k₃.waits = k₂.waits :=
    waits_mapThread (fun _ => rfl) (fun _ => rfl) (fun _ => rfl) fun _ => rfl
  have hw : k₃.waits = k.waits := hk₃.trans hk₂
  split
  · rename_i hd
    have hne := h.ne_current hk hd (hl hd)
    have hwf := hk.waitsFor_eq_none
      fun l => hk.seating.current_stands (fun p => hd ▸ p.state_ne_dying) (.lock l)
    -- Whoever holds no lock has no donors.
    have hdon : k.waits.donors k.current = [] := by
      refine List.eq_nil_iff_forall_not_mem.mpr fun d hd' => ?_
      obtain ⟨l, -, hh⟩ := Waits.awaits_iff.mp ((hk.waits.wired.mem_donors _ _).mp hd')
      exact (hl hd).holder l hh
    have he := waits_erase (k := k₃) (s := k.current) (hw ▸ hwf) (hw ▸ hdon)
    rw [hw] at he
    rw [← he]
    simp only [turned, left, hd, hne, ne_eq, not_false_eq_true, and_self, if_true, k₃, k₂, k₁]
    rfl
  · rename_i hd
    exact waits_turned_of_lives hd

include hk in
theorem registered_turned (hl : g.state = .dying → k.Leaving) :
    (k.turned g.state t).Registered g.terms := by
  let k₁ : Core := { k with ready := k.ready.remove t }
  let k₂ := k₁.mapThread k.current fun th => { th with state := g.state }
  let k₃ := k₂.mapThread t fun th => { th with state := .running }
  have h₁ : k₁.Registered g.terms := hk.registered.of_eq rfl rfl rfl
  have h₂ : k₂.Registered g.terms := h₁.mapThread (fun _ => rfl) (fun _ => rfl) fun _ => rfl
  have h₃ : k₃.Registered g.terms := h₂.mapThread (fun _ => rfl) (fun _ => rfl) fun _ => rfl
  have hthreads : (k.turned g.state t).threads =
      if g.state = .dying ∧ k.current ≠ t then k₃.threads.erase k.current else k₃.threads := rfl
  by_cases hd : g.state = .dying ∧ k.current ≠ t
  · rw [if_pos hd] at hthreads
    obtain ⟨hi, hh, hp⟩ := hl hd.1
    have hl₁ : k₁.Leaving := ⟨hi, hh, hp⟩
    have hl₂ : k₂.Leaving := hl₁.mapThread fun _ => rfl
    have hl₃ : k₃.Leaving := hl₂.mapThread fun _ => rfl
    exact (h₃.erase hl₃).of_eq hthreads rfl rfl
  · rw [if_neg hd] at hthreads
    exact h₃.of_eq hthreads rfl rfl

end Turned

/-- The processor has passed to `t`, the thread that was to run next. -/
structure Passed (k k' : Core) (t : ThreadId) : Prop where
  chooses : k.Chooses t
  current : k'.current = t
  idle : k'.idle = k.idle
  ready : k'.ready.entries = k.ready.entries.erase t
  priority : ∀ s, s = t ∨ s ∈ k.ready.entries → k'.priorityOf s = k.priorityOf s
  handler : k'.machine.inHandler = k.machine.inHandler

/-- **The end of a turn.** The current thread goes on in the state it was about to be in, and the
thread that was to run next runs. -/
theorem Sound.endTurn (hk : k.Sound g) (hσ : g.state ≠ .running)
    (hl : g.state = .dying → k.Leaving) (h : endTurn g.state k = .ok u k') :
    ∃ t, k.Passed k' t ∧ k'.Sound { g with current := t, state := .running } := by
  obtain ⟨m, t, hq, hch, hlive, ha⟩ := endTurn_alike h
  have hm := hk.quiet hq
  have hlm : g.state = .dying → m.Leaving := by
    intro hd
    obtain ⟨h₁, h₂, h₃⟩ := hl hd
    constructor
    · rwa [hq.current, hq.idle]
    · rwa [hq.waits, hq.current]
    · intro c
      rw [parentOf, hq.threads, hq.current]
      exact h₃ c
  have hseat := ha.seating.trans (seating_turned hm hlive hch hlm)
  have hwaits := ha.waits.trans (waits_turned hm hch hlm)
  have hcurrent : k'.current = t := congrArg Seating.current hseat
  have hidle : k'.idle = m.idle := congrArg Seating.idle hseat
  have hready : k'.ready.entries = m.ready.entries.erase t := by
    have := congrArg (fun s : Seating => s.queue .ready) hseat
    simp only [Seating.turn, Function.update_self] at this
    exact this
  have hhandler : k'.machine.inHandler = m.machine.inHandler := ha.handler
  refine ⟨t, ⟨?_, hcurrent, hidle.trans hq.idle, ?_, ?_, hhandler.trans hq.handler⟩, ?_⟩
  · exact hch.congr hq.ready hq.idle (congrArg Waits.priority hq.waits)
  · rw [hready, hq.ready]
  · intro s hs
    rw [priorityOf_eq, priorityOf_eq, ← hq.waits, hwaits]
    split
    · rename_i hd
      -- The dying thread is neither ready nor chosen.
      have hne : s ≠ m.current := by
        rintro rfl
        rcases hs with rfl | hs
        · exact hch.ne_current hm hd (hlm hd) rfl
        · rw [← hq.ready] at hs
          exact hm.seating.current_stands (fun p => hd ▸ p.state_ne_dying) .ready hs
      show Function.update _ _ _ _ = _
      rw [Function.update_of_ne hne]
      rfl
    · rfl
  · refine ⟨hcurrent, hidle.trans hm.idle, hhandler.trans hm.handler, ?_, ?_, ?_⟩
    · rw [hseat]
      exact hm.seating.turn hσ hch.mem fun hd => (hlm hd).not_idle
    · rw [hwaits]
      split
      · rename_i hd
        exact hm.waits.rebase (hm.waitsFor_eq_none
          fun l => hm.seating.current_stands (fun p => hd ▸ p.state_ne_dying) (.lock l)) 0
      · exact hm.waits
    · exact ha.registered _ (registered_turned hm hlm)

end Core

end ThreadCore
