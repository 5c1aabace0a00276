import ThreadCore.Proofs.Onward
import ThreadCore.Proofs.Units

/-!
# Scheduling without discipline

A run may unblock threads that wait, let the idle thread wait, move the handler flag and overwrite
stacks. Then little is left of the rules of the wait queues, but the scheduler itself is not led
astray: the current thread is the only one that runs, the ready queue holds the threads that are
ready, and the idle thread is not among them (`Core.Steady`). Every move keeps this
(`Steered.move`), and it is all that the choice of the next thread depends on (`Core.Selects`).
-/

namespace ThreadCore

/-- Whether a thread was looked up that is not live. -/
def Halt.isLost : Halt → Bool
  | .notRegistered _ | .danglingEntry => true
  | _ => false

namespace Seating

variable {s : Seating} {σ : ThreadState} {t : ThreadId} {p : Seat}

/-- What the scheduler sees of the seating: the ready queue. -/
def readyOnly (s : Seating) : Seating :=
  { s with queue := fun p => if p = .ready then s.queue .ready else [], wakeAt := fun _ => none }

theorem readyOnly_setState (s : Seating) (t : ThreadId) (o : Option ThreadState) :
    (s.setState t o).readyOnly = s.readyOnly.setState t o := rfl

theorem readyOnly_setReady (s : Seating) (ts : List ThreadId) :
    (s.setQueue .ready ts).readyOnly = s.readyOnly.setQueue .ready ts := by
  simp only [readyOnly, setQueue, Function.update_self, mk.injEq, true_and, and_true]
  funext q
  simp only [Function.update_apply]
  split <;> simp_all

theorem mem_readyOnly : t ∈ s.readyOnly.queue p ↔ p = .ready ∧ t ∈ s.queue .ready := by
  simp only [readyOnly]
  split <;> simp_all

/-- If everybody is seated by the rules, then so are those in the ready queue. -/
theorem Sound.readyOnly (h : s.Sound σ) : s.readyOnly.Sound σ := by
  refine ⟨h.current_running, h.other_state, h.idle_live, fun p => ?_, fun t p q hp hq => ?_,
    fun t p ht => ?_, fun t ht => ?_, fun p hp => ?_, fun t => ?_⟩
  · by_cases hp : p = .ready
    · simpa [Seating.readyOnly, hp] using h.nodup .ready
    · simp [Seating.readyOnly, hp]
  · rw [(mem_readyOnly.mp hp).1, (mem_readyOnly.mp hq).1]
  · obtain ⟨rfl, ht⟩ := mem_readyOnly.mp ht
    exact h.seated t .ready ht
  · exact mem_readyOnly.mpr ⟨rfl, h.ready_seated t ht⟩
  · exact h.idle_stands .ready (mem_readyOnly.mp hp).2
  · simp [Seating.readyOnly]

end Seating

namespace Core

variable {α β : Type} {k k' m : Core} {σ : ThreadState} {t : ThreadId} {u : Unit} {e : Halt}

/-! ## The rules of the scheduler -/

/-- The scheduler is in order, while the current thread is about to be in state `σ`, and threads
have the numbers that were given to them. -/
structure Steered (k : Core) (σ : ThreadState) : Prop where
  seating : k.seating.readyOnly.Sound σ
  number : ∀ t th, k.threads[t]? = some th → th.id = t ∧ t < k.nextThread

/-- One thread runs, which is the current one. The ready queue holds each ready thread once and
nobody else. The idle thread is live and never ready. No live thread has exited. -/
structure Steady (k : Core) : Prop where
  running : k.runningThreads = [k.current]
  current : ∃ th, k.threads[k.current]? = some th ∧ th.state = .running
  alone : ∀ (t : ThreadId) (th : Thread), k.threads[t]? = some th → th.state = .running →
    t = k.current
  nodup : k.ready.entries.Nodup
  ready_iff : ∀ t, t ∈ k.ready ↔ ∃ th, k.threads[t]? = some th ∧ th.state = .ready
  idle : ∃ th, k.threads[k.idle]? = some th ∧ th.state ≠ .ready
  idle_not_mem : k.idle ∉ k.ready
  not_dying : ∀ (t : ThreadId) (th : Thread), k.threads[t]? = some th → th.state ≠ .dying

theorem readyOnly_congr
    (hs : ∀ t : ThreadId, (k'.threads[t]?).map Thread.state = (k.threads[t]?).map Thread.state)
    (hr : k'.ready = k.ready) (hc : k'.current = k.current) (hi : k'.idle = k.idle) :
    k'.seating.readyOnly = k.seating.readyOnly := by
  unfold seating Seating.readyOnly
  simp only [hr, hc, hi, funext hs]

namespace Steered

theorem congr (h : k.Steered σ)
    (hs : ∀ t : ThreadId, (k'.threads[t]?).map Thread.state = (k.threads[t]?).map Thread.state)
    (hid : ∀ t : ThreadId, (k'.threads[t]?).map Thread.id = (k.threads[t]?).map Thread.id)
    (hr : k'.ready = k.ready) (hc : k'.current = k.current) (hi : k'.idle = k.idle)
    (hn : k'.nextThread = k.nextThread) : k'.Steered σ := by
  refine ⟨readyOnly_congr hs hr hc hi ▸ h.seating, fun t th ht => ?_⟩
  have hidt := hid t
  rw [ht] at hidt
  obtain ⟨th', ht', he⟩ := Option.map_eq_some_iff.mp hidt.symm
  rw [hn, ← he]
  exact h.number t th' ht'

theorem mapThread (h : k.Steered σ) {f : Thread → Thread} (hs : ∀ th, (f th).state = th.state)
    (hid : ∀ th, (f th).id = th.id) : (k.mapThread t f).Steered σ :=
  h.congr (map_getElem?_mapThread hs) (map_getElem?_mapThread hid) rfl rfl rfl rfl

theorem live_current (h : k.Steered σ) : ∃ th, k.threads[k.current]? = some th := by
  obtain ⟨th, hth, -⟩ := live_of_state h.seating.current_running
  exact ⟨th, hth⟩

theorem live_idle (h : k.Steered σ) : ∃ th, k.threads[k.idle]? = some th := by
  obtain ⟨x, hx⟩ := h.seating.idle_live
  obtain ⟨th, hth, -⟩ := live_of_state hx
  exact ⟨th, hth⟩

theorem live_ready (h : k.Steered σ) (ht : t ∈ k.ready.entries) :
    ∃ th, k.threads[t]? = some th := by
  by_cases htc : t = k.current
  · exact htc ▸ h.live_current
  · have hs := h.seating.seated t .ready (Seating.mem_readyOnly.mpr ⟨rfl, ht⟩)
    rw [Seating.about_of_ne htc] at hs
    obtain ⟨th, hth, -⟩ := live_of_state hs
    exact ⟨th, hth⟩

theorem current_id (h : k.Steered σ) {th : Thread} (hth : k.threads[k.current]? = some th) :
    th.id = k.current :=
  (h.number _ _ hth).1

theorem fresh (h : k.Steered σ) : k.threads[k.nextThread]? = none := by
  cases hth : k.threads[k.nextThread]? with
  | none => rfl
  | some th => exact absurd (h.number _ _ hth).2 (lt_irrefl _)

theorem idle_not_mem (h : k.Steered σ) : k.idle ∉ k.ready.entries := fun hi =>
  h.seating.idle_stands .ready (Seating.mem_readyOnly.mpr ⟨rfl, hi⟩)

theorem current_not_mem (h : k.Steered σ) (hσ : σ ≠ .ready) : k.current ∉ k.ready.entries := by
  intro hc
  have hs := h.seating.seated k.current .ready (Seating.mem_readyOnly.mpr ⟨rfl, hc⟩)
  rw [show k.seating.readyOnly.about σ k.current = some σ from Seating.about_current _ _] at hs
  exact hσ (Option.some.inj hs)

/-! ## Moves -/

theorem act (h : k.Steered .running) (ha : Act k k') : k'.Steered .running := by
  cases ha with
  | reassess t f hf =>
    exact h.mapThread (fun th => (congrArg Thread.state (hf th) :))
      fun th => (congrArg Thread.id (hf th) :)
  | overwrite t th stack => exact h.mapThread (fun _ => rfl) fun _ => rfl
  | family t f => exact h.mapThread (fun _ => rfl) fun _ => rfl
  | awaken t th hi hth hb hnot =>
    refine ⟨?_, fun v x hx => ?_⟩
    · rw [seating_ready, Seating.readyOnly_setReady, seating_state hth, Seating.readyOnly_setState]
      refine h.seating.makeReady (hb ▸ state_eq hth) hi fun p hp => ?_
      exact hnot (Seating.mem_readyOnly.mp hp).2
    · have hid := map_getElem?_mapThread (k := k) (t := t)
        (f := fun th => { th with state := .ready }) (g := Thread.id) (fun _ => rfl) v
      rw [show (k.mapThread t fun th => { th with state := .ready }).threads[v]? =
        some x from hx] at hid
      obtain ⟨x', hx', he⟩ := Option.map_eq_some_iff.mp hid.symm
      exact he ▸ h.number v x' hx'
  | _ => exact h.congr (fun _ => rfl) (fun _ => rfl) rfl rfl rfl rfl

theorem birth (h : k.Steered σ) (hb : Birth k k') : k'.Steered σ := by
  cases hb with
  | refused => exact h.congr (fun _ => rfl) (fun _ => rfl) rfl rfl rfl rfl
  | enlisted name priority entry task =>
    have hfresh := h.fresh
    constructor
    · have hseat : (k.pageTaken.enlist (.create k.nextThread (Name.clip name) priority
          (.blank (k.machine.handedOut + 1)) entry task)).seating =
          k.seating.setState k.nextThread (some .blocked) :=
        seating_enlist_of_fresh (k := k.pageTaken) hfresh
      refine (congrArg (fun s => Seating.Sound (Seating.readyOnly s) σ) hseat).mpr ?_
      rw [Seating.readyOnly_setState]
      exact h.seating.register (by simp [Seating.readyOnly, Core.seating, hfresh])
    · intro t th ht
      rw [getElem?_enlist] at ht
      split at ht
      · rename_i he
        obtain rfl := Option.some.inj ht
        exact ⟨he.symm, Nat.lt_succ_of_le (le_of_eq he)⟩
      · obtain ⟨hid, hlt⟩ := h.number t th ht
        exact ⟨hid, hlt.trans (Nat.lt_succ_self _)⟩

end Steered

/-! ## The end of a turn -/

/-- What the end of a turn does to the ready queue and to the states of threads. -/
theorem endTurn_readyOnly (hc : ∃ th, k.threads[k.current]? = some th)
    (h : endTurn σ k = .ok u k') :
    k.Chooses k'.current ∧ k'.seating.readyOnly = k.seating.readyOnly.turn σ k'.current := by
  obtain ⟨m, t, hq, hch, -, ha⟩ := endTurn_alike h
  have ht : k'.current = t := congrArg Seating.current ha.seating
  refine ⟨ht ▸ hch.congr hq.ready hq.idle (congrArg Waits.priority hq.waits), ?_⟩
  have hready : k'.ready.entries = k.ready.entries.erase k'.current := by
    rw [ht, ← hq.ready]
    exact congrArg (fun s : Seating => s.queue .ready) ha.seating
  have hidle : k'.idle = k.idle := (congrArg Seating.idle ha.seating).trans hq.idle
  have hstate : ∀ v, k'.seating.state v = (k.seating.readyOnly.turn σ k'.current).state v := by
    obtain ⟨th, hth⟩ := hc
    intro v
    rw [endTurn_state h]
    simp only [Seating.turn, Seating.readyOnly, Core.seating, Function.update_apply, hth]
    rfl
  simp only [Seating.readyOnly, Seating.turn, Seating.mk.injEq]
  refine ⟨funext hstate, ?_, trivial, rfl, hidle⟩
  funext q
  simp only [Function.update_apply]
  split
  · simp only [if_true]
    exact hready
  · rfl

/-- The end of a turn gives nobody another number. -/
theorem endTurn_number (h : endTurn σ k = .ok u k') : k'.nextThread = k.nextThread ∧
    ∀ (t : ThreadId) (th : Thread), k'.threads[t]? = some th →
      ∃ th', k.threads[t]? = some th' ∧ th'.id = th.id := by
  have he := endTurn_estate h
  have hnext : k'.nextThread = k.nextThread := by
    have := congrArg Estate.nextThread he
    split at this <;> exact this
  refine ⟨hnext, fun t th ht => ?_⟩
  have hties : k'.ties t = some (th.id, th.family) := by simp [ties, ht]
  have hold : k.ties t = some (th.id, th.family) := by
    have := congrFun (congrArg Estate.ties he) t
    split at this
    · rw [show k'.estate.ties t = k'.ties t from rfl, hties] at this
      simp only [Function.update_apply] at this
      split at this
      · cases this
      · exact this.symm
    · exact this.symm.trans hties
  obtain ⟨th', hth', heq⟩ := Option.map_eq_some_iff.mp hold
  exact ⟨th', hth', congrArg Prod.fst heq⟩

namespace Steered

/-- The current thread ends its turn in the state that it was about to be in. -/
theorem endTurn (h : k.Steered σ) (hσ : σ ≠ .running) (hd : σ = .dying → k.current ≠ k.idle)
    (he : Core.endTurn σ k = .ok u k') : k'.Steered .running := by
  obtain ⟨hch, hseat⟩ := endTurn_readyOnly h.live_current he
  obtain ⟨hnext, hnum⟩ := endTurn_number he
  constructor
  · rw [hseat]
    exact h.seating.turn hσ (hch.mem.imp_left fun hm => Seating.mem_readyOnly.mpr ⟨rfl, hm⟩) hd
  · intro t th ht
    obtain ⟨th', ht', hid⟩ := hnum t th ht
    rw [hnext, ← hid]
    exact h.number t th' ht'

/-- The current thread lines up behind the threads that are ready. -/
theorem lineUp (h : k.Steered .running) (hi : k.current ≠ k.idle)
    (he : enqueueReady k.current k = .ok u k') : k'.Steered .ready := by
  obtain ⟨-, rfl⟩ := enqueueReady_eq_ok.mp he
  refine ⟨?_, h.number⟩
  rw [seating_ready, Seating.readyOnly_setReady]
  exact h.seating.lineUp hi

theorem stand (h : k.Steered .running) (hσ : σ ≠ .ready) : k.Steered σ :=
  ⟨h.seating.stand hσ, h.number⟩

theorem current_ne_idle (h : k.Steered .running)
    (hi : ∀ th, k.threads[k.current]? = some th → th.id ≠ k.idle) : k.current ≠ k.idle := by
  obtain ⟨th, hth⟩ := h.live_current
  exact h.current_id hth ▸ hi th hth

theorem turn (h : k.Steered .running) (ht : Turn k k') : k'.Steered .running := by
  cases ht with
  | block he => exact (h.stand (by decide)).endTurn (by decide) (fun hd => by cases hd) he
  | lineUp hth hi hm he =>
    rw [h.current_id hth] at hi hm
    exact (h.lineUp hi hm).endTurn (by decide) (fun hd => by cases hd) he
  | die hi he =>
    exact (h.stand (by decide)).endTurn (by decide) (fun _ => h.current_ne_idle hi) he

/-- **Moves.** Every move keeps the scheduler in order. -/
theorem move (h : k.Steered .running) (hm : Move k k') : k'.Steered .running := by
  cases hm with
  | act ha => exact h.act ha
  | birth hb => exact h.birth hb
  | turn ht => exact h.turn ht
  | handler on => exact h.congr (fun _ => rfl) (fun _ => rfl) rfl rfl rfl rfl

theorem course (h : k.Steered .running) (hc : Course k k') : k'.Steered .running :=
  hc.keeps h fun _ _ => move

/-- Another thread runs after an exit. -/
theorem exit (h : k.Steered .running) (he : Core.exit k = .ok u k') : k'.current ≠ k.current := by
  have hid : ∀ th, k.running = .ok th → th.id = k.current := fun th hr =>
    h.current_id (running_eq_ok.mp hr).1
  obtain ⟨m₁, m₂, m₃, hi, -, h₁, hq, he, hq'⟩ := exit_eq_ok hid he
  have hacts := (makes_leaveFamily _ _).ok _ _ h₁
  obtain ⟨hcurrent, hidle, -⟩ := acts_stay hacts
  have hm₁ : m₁.Steered .running := h.course (course_of_acts hacts)
  have hcurrent₂ : m₂.current = k.current := hq.current.trans hcurrent
  rw [hq'.current, ← hcurrent₂]
  refine current_ne_of_endTurn ?_ ?_ he
  · rw [hq.ready, hq.current]
    exact hm₁.current_not_mem (by decide)
  · rwa [hcurrent₂, hq.idle, hidle]

theorem steady (h : k.Steered .running) : k.Steady := by
  have hc : k.seating.state k.current = some .running := h.seating.current_running
  obtain ⟨cth, hcth, hrun⟩ := live_of_state hc
  obtain ⟨ith, hith⟩ := h.live_idle
  have hother : ∀ t th, t ≠ k.current → k.threads[t]? = some th →
      th.state = .ready ∨ th.state = .blocked :=
    fun t th ht hth => h.seating.other_state t _ ht (state_eq hth)
  have halone : ∀ (t : ThreadId) (th : Thread), k.threads[t]? = some th → th.state = .running →
      t = k.current := by
    intro t th hth hr
    by_contra ht
    rcases hother t th ht hth with hx | hx <;> simp [hx] at hr
  have hready : ∀ t, t ∈ k.ready ↔ ∃ th, k.threads[t]? = some th ∧ th.state = .ready := by
    intro t
    constructor
    · intro ht
      have hne : t ≠ k.current := ne_of_mem_of_not_mem ht (h.current_not_mem (by decide))
      have hs := h.seating.seated t .ready (Seating.mem_readyOnly.mpr ⟨rfl, ht⟩)
      rw [Seating.about_of_ne hne] at hs
      obtain ⟨th, hth, hs⟩ := live_of_state hs
      exact ⟨th, hth, hs⟩
    · rintro ⟨th, hth, hs⟩
      have hne : t ≠ k.current := by
        rintro rfl
        rw [hcth, Option.some.injEq] at hth
        rw [← hth, hrun] at hs
        cases hs
      refine (Seating.mem_readyOnly.mp (h.seating.ready_seated t ?_)).2
      rw [Seating.about_of_ne hne]
      exact (state_eq hth).trans (congrArg some hs)
  refine ⟨?_, ⟨cth, hcth, hrun⟩, halone, ?_, hready, ⟨ith, hith, fun hs => ?_⟩, h.idle_not_mem, ?_⟩
  · exact runningThreads_of_alone hcth hrun (h.current_id hcth) halone
  · exact h.seating.nodup .ready
  · exact h.idle_not_mem ((hready k.idle).mpr ⟨ith, hith, hs⟩)
  · intro t th hth hd
    by_cases ht : t = k.current
    · rw [ht, hcth, Option.some.injEq] at hth
      rw [← hth, hrun] at hd
      cases hd
    · rcases hother t th ht hth with hx | hx <;> simp [hx] at hd

end Steered

/-! ## The choice of the next thread -/

/-- If the step halts, then not because a thread was looked up that is not live. -/
def Finds (x : CoreM α) (k : Core) : Prop := ∀ e k', x k = .error e k' → e.isLost = false

theorem finds_pure (a : α) : Finds (pure a) k := by
  intro e k' h
  cases h

theorem finds_modify (f : Core → Core) : Finds (modify f) k := by
  intro e k' h
  cases h

theorem Finds.bind {x : CoreM α} {g : α → CoreM β} (hx : Finds x k)
    (hg : ∀ a m, x k = .ok a m → Finds (g a) m) : Finds (x >>= g) k := by
  intro e k' h
  rcases bind_eq_error.mp h with h | ⟨a, m, hm, h⟩
  · exact hx e k' h
  · exact hg a m hm e k' h

theorem Finds.get_bind {g : Core → CoreM β} (hg : Finds (g k) k) : Finds (get >>= g) k := hg

theorem Finds.modify_bind {f : Core → Core} {g : PUnit → CoreM β} (hg : Finds (g ⟨⟩) (f k)) :
    Finds (modify f >>= g) k := hg

theorem Finds.demand_bind {p : Prop} [Decidable p] {g : Unit → CoreM β} (he : e.isLost = false)
    (hg : p → Finds (g ()) k) : Finds (demand p e >>= g) k := by
  refine Finds.bind (fun e' k' h => ?_) fun _ m h => ?_
  · unfold demand at h
    split at h
    · cases h
    · cases h
      exact he
  · obtain ⟨hp, rfl⟩ := demand_eq_ok.mp h
    exact hg hp

/-- A thread that is live is found. -/
theorem Finds.thread_bind {g : Thread → CoreM β} {th : Thread} (hth : k.threads[t]? = some th)
    (hg : Finds (g th) k) : Finds (ask (thread t) >>= g) k := by
  unfold Finds
  rw [ask_bind_of_ok (thread_eq_ok_iff.mpr hth)]
  exact hg

theorem Finds.changeThread_bind {f : Thread → Thread} {g : Unit → CoreM β} {th : Thread}
    (hth : k.threads[t]? = some th) (hg : Finds (g ()) (k.mapThread t f)) :
    Finds (changeThread t f >>= g) k := by
  unfold Finds
  rw [changeThread_bind_of_ok hth]
  exact hg

theorem finds_record (ev : Event) : Finds (record ev) k := finds_modify _

theorem finds_say (n : Notice) : Finds (say n) k := by
  refine .get_bind ?_
  split
  · exact finds_modify _
  · exact finds_pure _

theorem finds_onMachine {step : MachineM α}
    (h : ∀ w e w', step w = .error e w' → e.isLost = false) : Finds (onMachine step) k := by
  intro e k' he
  obtain ⟨w, hw, -⟩ := onMachine_eq_error he
  exact h _ e w hw

theorem finds_freePage : Finds (onMachine Machine.freePage) k := by
  refine finds_onMachine fun w e w' h => ?_
  rw [(Machine.freePage_eq_error h).1]
  rfl

theorem finds_switch (a b : Context) : Finds (onMachine (Machine.switch a b)) k := by
  refine finds_onMachine fun w e w' h => ?_
  have hdemand : ∀ {p : Prop} [Decidable p] {e' : Halt} {v v' : Machine}, e'.isLost = false →
      (demand p e' : MachineM Unit) v = .error e v' → e.isLost = false := by
    intro p _ e' v v' he' h
    unfold demand at h
    split at h
    · cases h
    · cases h
      exact he'
  unfold Machine.switch at h
  rw [get_bind_eq_error] at h
  rcases bind_eq_error.mp h with h | ⟨_, _, -, h⟩
  · exact hdemand rfl h
  rcases bind_eq_error.mp h with h | ⟨_, _, -, h⟩
  · exact hdemand rfl h
  · cases h

theorem finds_reclaim (n : Nat) : Finds (reclaim n) k := by
  induction n generalizing k with
  | zero => exact finds_pure ()
  | succ n ih =>
    refine .get_bind ?_
    split
    · exact finds_pure ()
    · exact .modify_bind <| (finds_say _).bind fun _ _ _ => (finds_record _).bind fun _ _ _ =>
        finds_freePage.bind fun _ _ _ => ih

theorem finds_resume {source : ThreadId} {running resumed : Context}
    (ht : ∃ th, k.threads[t]? = some th) : Finds (resume source t running resumed) k := by
  obtain ⟨th, hth⟩ := ht
  refine (finds_record _).bind fun _ m hm => (finds_switch _ _).bind fun r n hn => ?_
  have hlive : n.threads[t]? = some th := by
    rw [(quiet_switch hn).threads, (quiet_record hm).threads]
    exact hth
  refine .changeThread_bind hlive ?_
  split
  · exact finds_record _
  · exact finds_pure ()

theorem finds_switchTo {source : ThreadId} (hs : ∃ th, k.threads[source]? = some th)
    (ht : ∃ th, k.threads[t]? = some th) (hne : source ≠ t) : Finds (switchTo source t) k := by
  obtain ⟨th, hth⟩ := hs
  refine .modify_bind <| (finds_say _).bind fun _ m hm => ?_
  have hthreads : m.threads = k.threads := (quiet_say hm).threads
  have hth' : m.threads[source]? = some th := hthreads ▸ hth
  refine .thread_bind hth' ?_
  have hrest : ∀ n : Core, (∃ th, n.threads[t]? = some th) →
      Finds (ask (thread t) >>= fun resumed => resume source t th.context resumed.context) n := by
    rintro n ⟨th', hth'⟩
    exact .thread_bind hth' (finds_resume ⟨th', hth'⟩)
  split
  · refine .modify_bind (hrest _ ?_)
    obtain ⟨th', hth'⟩ := ht
    refine ⟨th', ?_⟩
    simp only [Std.ExtTreeMap.getElem?_erase, compare_eq_iff_eq, hne, if_false, hthreads]
    exact hth'
  · exact hrest m (hthreads ▸ ht)

theorem finds_note {label? : Option String} {event : String → Event} {rest : CoreM Unit}
    (h : ∀ m, Quiet k m → Finds rest m) : Finds (match label? with
      | some label => record (event label) >>= fun _ => rest
      | none => rest) k := by
  split
  · exact (finds_record _).bind fun _ m hm => h m (quiet_record hm)
  · exact h k (.refl k)

/-- A dispatch finds the threads it deals with, if those that may be chosen are live, and a thread
that dies is not chosen. -/
theorem finds_dispatch (hc : ∃ th, k.threads[k.current]? = some th)
    (hlive : ∀ t, k.Chooses t → ∃ th, k.threads[t]? = some th)
    (hready : ∀ t ∈ k.ready.entries, t ∈ k.threads) : Finds dispatch k := by
  refine .get_bind (Finds.bind (fun e k' h => ?_) fun t m hm => ?_)
  · unfold takeNext at h
    rcases bind_eq_error.mp h with h | ⟨o, m, -, h⟩
    · have hurgent : k.mostUrgent k.ready = .ok (k.ready.foremost k.outranks) :=
        mostUrgent_eq_ok.mpr ⟨hready, rfl⟩
      rw [(ask_eq_error_iff.mp h).1] at hurgent
      cases hurgent
    · cases o with
      | some t => cases h
      | none => cases h
  · obtain ⟨hch, rfl⟩ := takeNext_eq_ok hm
    obtain ⟨cth, hcth⟩ := hc
    obtain ⟨th, hth⟩ := hlive t hch
    refine .get_bind <| .demand_bind rfl fun _ => .thread_bind hcth <| .demand_bind rfl fun _ =>
      .thread_bind hth <| .demand_bind rfl fun _ => .changeThread_bind hth <|
      finds_note fun n hq => .modify_bind ?_
    have hkeep : ∀ {v : ThreadId}, (∃ x, k.threads[v]? = some x) → ∃ x, n.threads[v]? = some x := by
      rintro v ⟨x, hx⟩
      rw [hq.threads, getElem?_mapThread]
      split
      · have hleft : ({ k with ready := k.ready.remove t } : Core).threads[t]? = some th := hth
        exact ⟨_, by rw [hleft]; rfl⟩
      · exact ⟨x, hx⟩
    split
    · rename_i hne
      exact finds_switchTo (hkeep ⟨cth, hcth⟩) (hkeep ⟨th, hth⟩) hne
    · exact finds_pure ()

namespace Steered

/-- A thread that ends its turn is followed by one that is found. -/
theorem finds_endTurn (h : k.Steered σ) (x : ThreadState) : Finds (Core.endTurn x) k := by
  obtain ⟨cth, hcth⟩ := h.live_current
  refine .get_bind <| .demand_bind rfl fun _ => .get_bind <| .thread_bind hcth <|
    .demand_bind rfl fun _ => .get_bind <| (finds_reclaim _).bind fun _ m hm => ?_
  have hq := quiet_reclaim hm
  have hkeep : ∀ {v : ThreadId}, (∃ th, k.threads[v]? = some th) →
      ∃ th, (m.mapThread k.current fun th => { th with state := x }).threads[v]? = some th := by
    rintro v ⟨th, hth⟩
    rw [getElem?_mapThread, hq.threads, hcth]
    split
    · exact ⟨_, rfl⟩
    · exact ⟨th, hth⟩
  refine .changeThread_bind (hq.threads ▸ hcth) (finds_dispatch ?_ ?_ ?_)
  · exact hkeep ⟨cth, show k.threads[m.current]? = some cth by rw [hq.current]; exact hcth⟩
  · intro t hch
    rcases hch.mem with ht | ht
    · exact hkeep (h.live_ready (show t ∈ k.ready.entries from hq.ready ▸ ht))
    · exact hkeep (ht ▸ show ∃ th, k.threads[m.idle]? = some th from hq.idle.symm ▸ h.live_idle)
  · intro t ht
    obtain ⟨th, hth⟩ := hkeep (h.live_ready (show t ∈ k.ready.entries from hq.ready ▸ ht))
    rw [Std.ExtTreeMap.mem_iff_isSome_getElem?, hth]
    rfl

/-- If the idle thread runs next, then no thread is ready. -/
theorem ready_eq_nil (h : k.Steered σ) (he : Core.endTurn σ k = .ok u k')
    (hi : k'.current = k'.idle) : k'.ready.entries = [] := by
  obtain ⟨hch, hseat⟩ := endTurn_readyOnly h.live_current he
  have hidle : k'.idle = k.idle := congrArg Seating.idle hseat
  have hready : k'.ready.entries = k.ready.entries.erase k'.current := by
    have := congrArg (fun s : Seating => s.queue .ready) hseat
    simp only [Seating.readyOnly, Seating.turn, Function.update_self, if_true] at this
    exact this
  rcases hch with hf | ⟨hnil, -⟩
  · rw [hi, hidle] at hf
    exact absurd (Queue.mem_of_foremostOf hf) h.idle_not_mem
  · rw [hready, hnil]
    rfl

end Steered

/-- Whenever a turn ends, the next thread is found and live, and it is the idle thread only if no
other is ready. -/
structure Selects (k : Core) : Prop where
  finds : ∀ e k', Fault k e k' → e.isLost = false
  live : ∀ k', Turn k k' → (∃ th, k.threads[k'.current]? = some th ∧ th.state ≠ .dying) ∧
    ∃ th, k'.threads[k'.current]? = some th ∧ th.state = .running
  idle : ∀ k', Turn k k' → k'.current = k'.idle →
    ∀ (t : ThreadId) (th : Thread), k'.threads[t]? = some th → th.state ≠ .ready

theorem Chooses.live (h : k.Steered σ) (hch : k.Chooses t) : ∃ th, k.threads[t]? = some th :=
  hch.mem.elim h.live_ready fun hi => hi ▸ h.live_idle

theorem Steered.selects (h : k.Steered .running) : k.Selects := by
  constructor
  · intro e k' hf
    cases hf with
    | queuedTwice => rfl
    | overflow => rfl
    | block he => exact h.finds_endTurn _ _ _ he
    | lineUp hth hi he =>
      rw [h.current_id hth] at hi he
      refine Finds.bind (fun e k' hx => ?_) (fun _ m hm => (h.lineUp hi hm).finds_endTurn _) _ _ he
      rcases bind_eq_error.mp hx with hx | ⟨_, _, -, hx⟩
      · have hq := (ask_eq_error_iff.mp hx).1
        unfold Queue.push at hq
        split at hq
        · cases hq
          rfl
        · cases hq
      · cases hx
    | die hi he => exact h.finds_endTurn _ _ _ he
  · intro k' ht
    refine ⟨?_, (h.turn ht).steady.current⟩
    have hlive : ∃ th, k.threads[k'.current]? = some th := by
      cases ht with
      | block he => exact (endTurn_readyOnly h.live_current he).1.live h
      | lineUp hth hi hm he =>
        rw [h.current_id hth] at hi hm
        have hlined := h.lineUp hi hm
        obtain ⟨-, rfl⟩ := enqueueReady_eq_ok.mp hm
        obtain ⟨th, hth⟩ := (endTurn_readyOnly hlined.live_current he).1.live hlined
        exact ⟨th, hth⟩
      | die hi he => exact (endTurn_readyOnly h.live_current he).1.live h
    obtain ⟨th, hth⟩ := hlive
    exact ⟨th, hth, h.steady.not_dying _ th hth⟩
  · intro k' ht hi t th hth hs
    have hmem := (h.turn ht).steady.ready_iff t |>.mpr ⟨th, hth, hs⟩
    have hnil : k'.ready.entries = [] := by
      cases ht with
      | block he => exact (h.stand (by decide)).ready_eq_nil he hi
      | lineUp hth hi' hm he =>
        rw [h.current_id hth] at hi' hm
        exact (h.lineUp hi' hm).ready_eq_nil he hi
      | die _ he => exact (h.stand (by decide)).ready_eq_nil he hi
    rw [Queue.mem_def, hnil] at hmem
    cases hmem

end Core

namespace Session

open ThreadCore.Core (Course Fault)

variable {s : Session} {frames : List Bool} {allowed : Session → Call → Prop}

theorem steered_boot {setup : Setup} {config : Config} {k : Core}
    (h : Core.boot (setup.core config) = .ok (.ok ()) k) : k.Steered .running := by
  have hk := (reached_boot h).1
  refine ⟨hk.seating.readyOnly, fun t th hth => ?_⟩
  obtain ⟨hid, hlt, -⟩ := hk.registered.thread t th hth
  exact ⟨hid, hlt⟩

theorem Later.steered {setup : Setup} {config : Config} {k : Core}
    (h : Core.boot (setup.core config) = .ok (.ok ()) k) (hl : Later (.ofCore k) s) :
    s.core.Steered .running :=
  (steered_boot h).course hl.course

theorem Reached.steered (h : Reached allowed frames s) : s.core.Steered .running := by
  obtain ⟨_, _, _, -, hb, hl⟩ := h.later
  exact hl.steered hb

theorem Logged.steered {log : List Entry} {allowed : List Entry → Session → Call → Prop}
    (h : Logged allowed log frames s) : s.core.Steered .running := by
  have hreach : Reached (fun _ _ => True) frames s := h.reached fun _ _ _ _ => trivial
  exact hreach.steered

/-- **The scheduler.** In every state of a run, whatever it calls, the scheduler is in order, and so
it is in every state on the way of an operation. There the next thread is always found. An operation
that halts has arrived in such a state, or halts in a move for another reason. -/
theorem reached_steady (h : Reached allowed frames s) :
    s.core.Steady ∧ (∀ k, Course s.core k → k.Steady ∧ k.Selects) ∧
      (∀ d s', Leads s d s' → Course s.core s'.core) ∧
      ∀ e s', Fails s e s' → s'.core.Steady ∨
        e.isLost = false ∧ ∃ k, Course s.core k ∧ Fault k e s'.core := by
  obtain ⟨setup, config, k₀, -, hb, hl⟩ := h.later
  have hs : s.core.Steered .running := hl.steered hb
  refine ⟨hs.steady, fun k hk => ⟨(hs.course hk).steady, (hs.course hk).selects⟩,
    fun d s' hd => hd.course, fun e s' he => ?_⟩
  rcases he.course with hc | ⟨k, hk, hf⟩
  · exact .inl (hs.course hc).steady
  · exact .inr ⟨(hs.course hk).selects.finds _ _ hf, k, hk, hf⟩

/-- A thread was unblocked that waits for a semaphore, and the idle thread waits for another one. -/
theorem reached_steady_unruly : ∃ s, Reached (fun _ _ => True) [] s ∧
    s.core.seating.queue (.semaphore 1) = [3] ∧ s.core.seating.queue (.semaphore 4) = [2] ∧
      s.core.current = 2 ∧ s.core.idle = 2 ∧ s.core.Steady := by
  have hrun : (replayFrom (fun _ _ _ => true) ⟨none, none, none, false, none⟩
      [.newSemaphore 0, .create "waits" 40, .down 0, .unblock 3, .newSemaphore 0,
        .disableInterrupts, .block, .block, .down 1]).any (fun r =>
          r.2.core.seating.queue (.semaphore 1) = [3] ∧
            r.2.core.seating.queue (.semaphore 4) = [2] ∧
            r.2.core.current = 2 ∧ r.2.core.idle = 2) = true := by
    decide +kernel
  obtain ⟨⟨log, s⟩, hs, hrun⟩ := (Option.any_eq_true _ _).mp hrun
  obtain ⟨hfirst, hsecond, hcurrent, hidle⟩ := of_decide_eq_true hrun
  have hlog : Logged (fun _ _ _ => True) log [] s := logged_replayFrom (fun _ _ _ _ => trivial) hs
  have hreach : Reached (fun _ _ => True) [] s := hlog.reached fun _ _ _ _ => trivial
  exact ⟨s, hreach, hfirst, hsecond, hcurrent, hidle, (reached_steady hreach).1⟩

end Session

end ThreadCore
