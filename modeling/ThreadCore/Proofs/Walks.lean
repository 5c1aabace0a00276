import ThreadCore.Proofs.Locking

/-!
# How a walk along a chain ends

A thread that begins to wait walks along the chain of waits. In a state that obeys the rules the
walk arrives at a thread that waits for nothing, or it comes back to where it began, and then it
halts the run with a deadlock (`Sound.waitForLock_outcome`). It halts the run for no other reason: a
lock that somebody waits for is held, and a chain that visits nobody twice has no more links than
there are threads.

Other steps halt the run for other reasons only (`Spares`).
-/

namespace ThreadCore

open Relation

/-- A reason to halt that only waits have: one of the walk along a chain of waits, or the untimely
end of a parent's wait. -/
def Halt.OfWait : Halt → Prop
  | .waitsForFree _ _ | .deadlock _ _ | .endlessWait _ | .wokenEarly _ _ => True
  | _ => False

namespace Core

variable {α β : Type} {k k' m : Core} {g : Stage} {t d c holder waiter : ThreadId} {l s : ObjectId}
  {e : Halt} {u : Unit}

/-! ## Steps that never halt for a reason of a wait -/

/-- If the step halts, then not for a reason of a wait. -/
def Spares (x : CoreM α) : Prop := ∀ k e k', x k = .error e k' → ¬ e.OfWait

theorem spares_pure (a : α) : Spares (pure a) := by
  intro k e k' h
  cases h

theorem spares_get : Spares get := by
  intro k e k' h
  cases h

theorem spares_modify (f : Core → Core) : Spares (modify f) := by
  intro k e k' h
  cases h

theorem spares_throw (he : ¬ e.OfWait) : Spares (throw e : CoreM α) := by
  intro k e' k' h
  cases h
  exact he

theorem Spares.bind {x : CoreM α} {f : α → CoreM β} (hx : Spares x) (hf : ∀ a, Spares (f a)) :
    Spares (x >>= f) := by
  intro k e k' h
  rcases bind_eq_error.mp h with h | ⟨a, m, -, h⟩
  · exact hx k e k' h
  · exact hf a m e k' h

/-- What halts for a reason of a wait after a step that never does, halts after that step
succeeded. -/
theorem Spares.of_bind {x : CoreM α} {f : α → CoreM β} (hx : Spares x)
    (h : (x >>= f) k = .error e k') (he : e.OfWait) :
    ∃ a m, x k = .ok a m ∧ f a m = .error e k' :=
  (bind_eq_error.mp h).resolve_left fun h => hx k e k' h he

theorem spares_demand {p : Prop} [Decidable p] (he : ¬ e.OfWait) :
    Spares (demand p e : CoreM Unit) := by
  unfold demand
  split
  · exact spares_pure ()
  · exact spares_throw he

theorem spares_ask {question : Core → Except Halt α}
    (h : ∀ k e, question k = .error e → ¬ e.OfWait) : Spares (ask question) := by
  intro k e k' hk
  exact h k e (ask_eq_error_iff.mp hk).1

theorem of_ask_bind {question : Core → Except Halt α} {f : α → CoreM β}
    (hq : ∀ e, question k = .error e → ¬ e.OfWait) (h : (ask question >>= f) k = .error e k')
    (he : e.OfWait) : ∃ a, question k = .ok a ∧ f a k = .error e k' := by
  rcases bind_eq_error.mp h with h | ⟨a, m, hm, h⟩
  · exact absurd he (hq e (ask_eq_error_iff.mp h).1)
  · obtain ⟨ha, hkm⟩ := ask_eq_ok_iff.mp hm
    exact ⟨a, ha, hkm ▸ h⟩

theorem spares_onMachine {step : MachineM α} (h : ∀ w e w', step w = .error e w' → ¬ e.OfWait) :
    Spares (onMachine step) := by
  intro k e k' hk
  unfold onMachine at hk
  cases hs : step k.machine with
  | ok a w => simp [hs] at hk
  | error e' w =>
    simp only [hs, EStateM.Result.error.injEq] at hk
    exact hk.1 ▸ h _ _ _ hs

theorem thread_spares {k : Core} (h : k.thread t = .error e) : ¬ e.OfWait := by
  unfold thread at h
  cases ht : k.threads[t]? with
  | some th => simp [ht] at h
  | none =>
    simp only [ht, Except.error.injEq] at h
    exact h ▸ id

theorem lock_spares {k : Core} (h : k.lock l = .error e) : ¬ e.OfWait := by
  unfold lock at h
  cases ho : k.objects.locks[l]? with
  | some o => simp [ho] at h
  | none =>
    simp only [ho, Except.error.injEq] at h
    exact h ▸ id

theorem semaphore_spares {k : Core} (h : k.semaphore s = .error e) : ¬ e.OfWait := by
  unfold semaphore at h
  cases ho : k.objects.semaphores[s]? with
  | some o => simp [ho] at h
  | none =>
    simp only [ho, Except.error.injEq] at h
    exact h ▸ id

theorem condition_spares {k : Core} (h : k.condition c = .error e) : ¬ e.OfWait := by
  unfold condition at h
  cases ho : k.objects.conditions[c]? with
  | some o => simp [ho] at h
  | none =>
    simp only [ho, Except.error.injEq] at h
    exact h ▸ id

theorem except_bind_error {x : Except Halt α} {f : α → Except Halt β} :
    (x >>= f) = .error e ↔ x = .error e ∨ ∃ a, x = .ok a ∧ f a = .error e := by
  cases x <;> simp [bind, Except.bind]

theorem demand_error {p : Prop} [Decidable p] {h : Halt} :
    (demand p h : Except Halt Unit) = .error e ↔ ¬ p ∧ h = e := by
  unfold demand
  split <;> simp_all [pure, Except.pure, throw, throwThe, MonadExceptOf.throw]

theorem running_spares {k : Core} (h : k.running = .error e) : ¬ e.OfWait := by
  unfold running at h
  simp only [except_bind_error, demand_error] at h
  rcases h with h | ⟨th, -, ⟨-, rfl⟩ | ⟨_, -, ⟨-, rfl⟩ | ⟨_, -, h⟩⟩⟩
  · exact thread_spares h
  · exact id
  · exact id
  · cases h

theorem mostUrgent_spares {k : Core} {q : Queue} (h : k.mostUrgent q = .error e) : ¬ e.OfWait := by
  unfold mostUrgent checkLive at h
  simp only [except_bind_error, demand_error] at h
  rcases h with ⟨-, rfl⟩ | ⟨_, -, h⟩
  · exact id
  · cases h

theorem push_spares {q : Queue} (h : q.push t = .error e) : ¬ e.OfWait := by
  unfold Queue.push at h
  split at h
  · cases h
    exact id
  · cases h

theorem spares_record (e : Event) : Spares (record e) := spares_modify _

theorem spares_say (n : Notice) : Spares (say n) := by
  refine spares_get.bind fun k => ?_
  split
  · exact spares_modify _
  · exact spares_pure ()

theorem spares_changeThread (t : ThreadId) (f : Thread → Thread) : Spares (changeThread t f) :=
  (spares_ask fun _ _ => thread_spares).bind fun _ => spares_modify _

theorem spares_changeSemaphore (s : ObjectId) (f : Semaphore → Semaphore) :
    Spares (changeSemaphore s f) :=
  (spares_ask fun _ _ => semaphore_spares).bind fun _ => spares_modify _

theorem spares_changeLock (l : ObjectId) (f : Lock → Lock) : Spares (changeLock l f) :=
  (spares_ask fun _ _ => lock_spares).bind fun _ => spares_modify _

theorem spares_changeCondition (c : ObjectId) (f : Condition → Condition) :
    Spares (changeCondition c f) :=
  (spares_ask fun _ _ => condition_spares).bind fun _ => spares_modify _

theorem spares_outsideHandler (attempt : Attempt) : Spares (outsideHandler attempt) :=
  spares_get.bind fun _ => spares_demand id

theorem spares_mask : Spares (onMachine Machine.mask) := by
  refine spares_onMachine fun w e w' h => ?_
  cases h

theorem spares_unmask (was : Bool) : Spares (onMachine (Machine.unmask was)) := by
  refine spares_onMachine fun w e w' h => ?_
  unfold Machine.unmask at h
  split at h <;> cases h

theorem Spares.masked {body : CoreM α} (h : Spares body) : Spares (masked body) :=
  spares_mask.bind fun was => h.bind fun _ => (spares_unmask was).bind fun _ => spares_pure _

theorem spares_freePage : Spares (onMachine Machine.freePage) := by
  refine spares_onMachine fun w e w' h => ?_
  rw [(Machine.freePage_eq_error h).1]
  exact id

theorem spares_switch (a b : Context) : Spares (onMachine (Machine.switch a b)) := by
  refine spares_onMachine fun w e w' h => ?_
  unfold Machine.switch at h
  rcases bind_eq_error.mp h with h | ⟨w₁, _, -, h⟩
  · cases h
  rcases bind_eq_error.mp h with h | ⟨_, w₂, -, h⟩
  · unfold demand at h
    split at h <;> cases h
    exact id
  rcases bind_eq_error.mp h with h | ⟨_, w₃, -, h⟩
  · unfold demand at h
    split at h <;> cases h
    exact id
  · rcases bind_eq_error.mp h with h | ⟨_, w₄, -, h⟩ <;> cases h

theorem spares_reclaim (n : Nat) : Spares (reclaim n) := by
  induction n with
  | zero => exact spares_pure ()
  | succ n ih =>
    refine spares_get.bind fun k => ?_
    split
    · exact spares_pure ()
    · exact (spares_modify _).bind fun _ => (spares_say _).bind fun _ =>
        (spares_record _).bind fun _ => spares_freePage.bind fun _ => ih

theorem spares_takeNext : Spares takeNext := by
  refine (spares_ask fun _ _ => mostUrgent_spares).bind fun o => ?_
  split
  · exact (spares_modify _).bind fun _ => spares_pure _
  · exact spares_get.bind fun _ => spares_pure _

theorem spares_resume (source target : ThreadId) (running resumed : Context) :
    Spares (resume source target running resumed) := by
  refine (spares_record _).bind fun _ => (spares_switch _ _).bind fun r =>
    (spares_changeThread _ _).bind fun _ => ?_
  split
  · exact spares_record _
  · exact spares_pure ()

theorem spares_switchTo (source target : ThreadId) : Spares (switchTo source target) := by
  refine (spares_modify _).bind fun _ => (spares_say _).bind fun _ =>
    (spares_ask fun _ _ => thread_spares).bind fun leaving => ?_
  have hrest : Spares (ask (thread target) >>= fun resumed =>
      resume source target leaving.context resumed.context) :=
    (spares_ask fun _ _ => thread_spares).bind fun _ => spares_resume _ _ _ _
  split
  · exact (spares_modify _).bind fun _ => hrest
  · exact hrest

theorem spares_note {label? : Option String} {event : String → Event} {rest : CoreM Unit}
    (h : Spares rest) : Spares (match label? with
      | some label => record (event label) >>= fun _ => rest
      | none => rest) := by
  split
  · exact (spares_record _).bind fun _ => h
  · exact h

theorem spares_dispatch : Spares dispatch := by
  refine spares_get.bind fun k => spares_takeNext.bind fun target => spares_get.bind fun _ =>
    (spares_demand id).bind fun _ => (spares_ask fun _ _ => thread_spares).bind fun _ =>
    (spares_demand id).bind fun _ => (spares_ask fun _ _ => thread_spares).bind fun th =>
    (spares_demand id).bind fun _ => (spares_changeThread _ _).bind fun _ =>
    spares_note ((spares_modify _).bind fun _ => ?_)
  split
  · exact spares_switchTo _ _
  · exact spares_pure ()

theorem spares_endTurn (σ : ThreadState) : Spares (endTurn σ) :=
  spares_get.bind fun _ => (spares_demand id).bind fun _ => spares_get.bind fun _ =>
    (spares_ask fun _ _ => thread_spares).bind fun _ => (spares_demand id).bind fun _ =>
    spares_get.bind fun _ => (spares_reclaim _).bind fun _ =>
    (spares_changeThread _ _).bind fun _ => spares_dispatch

theorem spares_down (s : ObjectId) : Spares (down s) := by
  refine (spares_ask fun _ _ => running_spares).bind fun th => Spares.masked ?_
  refine (spares_ask fun _ _ => semaphore_spares).bind fun o => ?_
  split
  · exact spares_changeSemaphore _ _
  · exact (spares_outsideHandler _).bind fun _ => (spares_ask fun _ _ => push_spares).bind fun _ =>
      (spares_changeSemaphore _ _).bind fun _ => (spares_say _).bind fun _ => spares_endTurn _

/-! ## The walk -/

/-- Whoever waits, waits for a lock that a live thread holds, and donors live. -/
structure Walkable (k : Core) : Prop where
  held : ∀ t l, k.waits.waitsFor t = some l →
    ∃ h th, k.waits.holder l = some h ∧ k.threads[h]? = some th
  donors : ∀ t, ∀ d ∈ k.waits.donors t, ∃ th, k.threads[d]? = some th

theorem Sound.live_of_waitsFor (hk : k.Sound g) (hw : k.waits.waitsFor t = some l) :
    ∃ th, k.threads[t]? = some th :=
  hk.live_of_mem (p := .lock l) ((hk.waits.wired.waitsFor_iff t l).mp hw)

theorem Sound.walkable (hk : k.Sound g) : k.Walkable := by
  constructor
  · intro t l hw
    obtain ⟨h, hh⟩ := hk.waits.wired.held t l ((hk.waits.wired.waitsFor_iff t l).mp hw)
    obtain ⟨th, hth⟩ := hk.registered.holder l h hh
    exact ⟨h, th, hh, hth⟩
  · intro t d hd
    obtain ⟨l, hl, -⟩ := Waits.awaits_iff.mp ((hk.waits.wired.mem_donors t d).mp hd)
    exact hk.live_of_waitsFor hl

theorem refreshPriority_ok {th : Thread} (hth : k.threads[t]? = some th)
    (hd : ∀ d ∈ k.waits.donors t, ∃ th, k.threads[d]? = some th) :
    ∃ p m, refreshPriority t k = .ok p m := by
  have hp : k.effectivePriority t = .ok (k.waits.due t) :=
    effectivePriority_eq_ok.mpr ⟨⟨th, hth⟩, hd, rfl⟩
  refine ⟨k.waits.due t, k.mapThread t fun th => { th with priority := k.waits.due t }, ?_⟩
  unfold refreshPriority
  simp only [ask_bind_eq_ok, changeThread_bind_eq_ok, pure_eq_ok]
  exact ⟨_, hp, ⟨th, hth⟩, rfl, rfl⟩

theorem say_ok (n : Notice) (k : Core) : ∃ m, say n k = .ok () m := by
  unfold say
  by_cases h : k.console.admits n.severity = true
  · refine ⟨{ k with journal := k.journal.addText (Console.line n.severity n.text) }, ?_⟩
    rw [get_bind_eq_ok, if_pos h]
    rfl
  · refine ⟨k, ?_⟩
    rw [get_bind_eq_ok, if_neg h]
    rfl

/-- One link of the walk. -/
theorem donateAlong_step {links : Nat} (hk : k.Walkable) {th : Thread}
    (hth : k.threads[waiter]? = some th) :
    donateAlong d links waiter k = .ok () k ∨
      (∃ l, donateAlong d links waiter k = .error (.deadlock d l) k ∧ k.waits.Awaits waiter d) ∨
      ∃ h, k.waits.Awaits waiter h ∧ h ≠ d ∧ (links = 0 ∨
        ∃ rest m hth, links = rest + 1 ∧ m.Walkable ∧ m.waits.Awaits = k.waits.Awaits ∧
          m.threads[h]? = some hth ∧ donateAlong d links waiter k = donateAlong d rest h m) := by
  have hwf : k.waits.waitsFor waiter = th.waitsFor := by simp [waits, hth]
  rw [donateAlong, ask_bind_of_ok (thread_eq_ok_iff.mpr hth)]
  cases hw : th.waitsFor with
  | none => exact .inl rfl
  | some l =>
    obtain ⟨h, hth', hh, hlive⟩ := hk.held waiter l (hwf.trans hw)
    obtain ⟨o, ho, hoh⟩ := Option.bind_eq_some_iff.mp hh
    have haw : k.waits.Awaits waiter h := Waits.awaits_iff.mpr ⟨l, hwf.trans hw, hh⟩
    simp only
    rw [ask_bind_of_ok (lock_eq_ok_iff.mpr ho), hoh]
    by_cases hd : h = d
    · subst hd
      refine .inr (.inl ⟨l, ?_, haw⟩)
      exact bind_of_error (by simp [demand]; rfl)
    · refine .inr (.inr ⟨h, haw, hd, ?_⟩)
      cases links with
      | zero => exact .inl rfl
      | succ rest =>
        obtain ⟨p, m, hm⟩ := refreshPriority_ok hlive (hk.donors h)
        obtain ⟨n, hn⟩ := say_ok (.donates waiter h p) m
        obtain ⟨hu, hpw⟩ := refreshPriority_eq_ok hm
        have hq := quiet_say hn
        have hwaits : n.waits = k.waits.setPriority h (k.waits.due h) := hq.waits.trans hpw
        have hlive' : ∀ {t : ThreadId} {th : Thread}, k.threads[t]? = some th →
            ∃ th', n.threads[t]? = some th' := by
          intro t th ht
          rw [hq.threads]
          exact hu.live ht
        obtain ⟨hth₂, hth₂'⟩ := hlive' hlive
        refine .inr ⟨rest, n, hth₂, rfl, ⟨?_, ?_⟩, by rw [hwaits]; rfl, hth₂', ?_⟩
        · intro t l' hl'
          rw [hwaits] at hl' ⊢
          obtain ⟨h', th', hh', ht'⟩ := hk.held t l' hl'
          obtain ⟨th'', ht''⟩ := hlive' ht'
          exact ⟨h', th'', hh', ht''⟩
        · intro t d' hd'
          rw [hwaits] at hd'
          obtain ⟨th', ht'⟩ := hk.donors t d' hd'
          exact hlive' ht'
        · have hdem : (demand (h ≠ d) (Halt.deadlock d l) : CoreM Unit) k = .ok () k :=
            demand_eq_ok.mpr ⟨hd, rfl⟩
          show (demand (h ≠ d) (Halt.deadlock d l) >>= fun _ => refreshPriority h >>= fun p =>
            say (.donates waiter h p) >>= fun _ => donateAlong d rest h : CoreM Unit) k = _
          rw [bind_of_ok hdem, bind_of_ok hm, bind_of_ok hn]

/-- How the walk ends: at a thread that waits for nothing, back at the donor, or after all its
links. -/
theorem donateAlong_outcome (links : Nat) (hk : k.Walkable) {th : Thread}
    (hth : k.threads[waiter]? = some th) :
    (∃ k', donateAlong d links waiter k = .ok () k') ∨
      (∃ l k', donateAlong d links waiter k = .error (.deadlock d l) k' ∧
        TransGen k.waits.Awaits waiter d) ∨
      ∃ chain : List ThreadId, (waiter :: chain).IsChain k.waits.Awaits ∧
        chain.length = links + 1 ∧ d ∉ chain := by
  induction links generalizing k waiter th with
  | zero =>
    rcases donateAlong_step hk hth with h | ⟨l, h, haw⟩ | ⟨h, haw, hd, -⟩
    · exact .inl ⟨k, h⟩
    · exact .inr (.inl ⟨l, k, h, .single haw⟩)
    · exact .inr (.inr ⟨[h], by simpa using haw, rfl, by simpa using fun e => hd e.symm⟩)
  | succ links ih =>
    rcases donateAlong_step hk hth with h | ⟨l, h, haw⟩ | ⟨h, haw, hd, hl | ⟨rest, m, hth', hl, hm,
      hawaits, hlive, heq⟩⟩
    · exact .inl ⟨k, h⟩
    · exact .inr (.inl ⟨l, k, h, .single haw⟩)
    · omega
    · obtain rfl : links = rest := by omega
      rw [heq]
      rw [← hawaits] at haw ⊢
      rcases ih hm hlive with hok | ⟨l, k', herr, hto⟩ | ⟨chain, hchain, hlen, hnot⟩
      · exact .inl hok
      · exact .inr (.inl ⟨l, k', herr, .head haw hto⟩)
      · refine .inr (.inr ⟨h :: chain, ?_, by simp [hlen], ?_⟩)
        · exact List.isChain_cons_cons.mpr ⟨haw, hchain⟩
        · rw [List.mem_cons, not_or]
          exact ⟨fun e => hd e.symm, hnot⟩

/-! ## Beginning to wait -/

theorem LinedUp.live (hm : LinedUp t l holder k m) {s : ThreadId} {th : Thread}
    (hs : k.threads[s]? = some th) : ∃ th', m.threads[s]? = some th' := by
  have hstate : m.seating.state s = some th.state := by
    rw [hm.seating]
    exact state_eq hs
  obtain ⟨th', hth', -⟩ := live_of_state hstate
  exact ⟨th', hth'⟩

theorem LinedUp.walkable (hm : LinedUp t l holder k m) (hk : k.Sound g)
    (hh : k.waits.holder l = some holder) {th : Thread} (hth : k.threads[t]? = some th) :
    m.Walkable := by
  have hw := hk.walkable
  constructor
  · intro s l' hs
    obtain ⟨h, hth', hh', hlive⟩ : ∃ h hth', k.waits.holder l' = some h ∧
        k.threads[h]? = some hth' := by
      rw [hm.waits] at hs
      simp only [Waits.enqueue, Waits.setDonors, Waits.setWaitsFor, Function.update_apply] at hs
      split at hs
      · obtain rfl : l = l' := Option.some.inj hs
        obtain ⟨hth', hlive⟩ := hk.registered.holder l holder hh
        exact ⟨holder, hth', hh, hlive⟩
      · exact hw.held s l' hs
    obtain ⟨th', ht'⟩ := hm.live hlive
    refine ⟨h, th', ?_, ht'⟩
    rw [hm.waits]
    exact hh'
  · intro s d hd
    rw [hm.waits] at hd
    have hd' : d = t ∨ d ∈ k.waits.donors s := by
      simp only [Waits.enqueue, Waits.setDonors, Function.update_apply] at hd
      split at hd
      · rename_i hs
        rw [hs]
        simpa [or_comm] using hd
      · exact .inr hd
    rcases hd' with rfl | hd'
    · exact hm.live hth
    · obtain ⟨th', ht'⟩ := hw.donors s d hd'
      exact hm.live ht'

theorem exists_of_mem_chain {γ : Type} {R : γ → γ → Prop} {a : γ} {ts : List γ}
    (h : (a :: ts).IsChain R) : ∀ b ∈ ts, ∃ r, R r b := by
  induction ts generalizing a with
  | nil => simp
  | cons b ts ih =>
    obtain ⟨hab, h⟩ := List.isChain_cons_cons.mp h
    intro c hc
    rcases List.mem_cons.mp hc with rfl | hc
    · exact ⟨a, hab⟩
    · exact ih h c hc

theorem length_le_size {ts : List ThreadId} (hn : ts.Nodup)
    (hl : ∀ t ∈ ts, ∃ th, k.threads[t]? = some th) : ts.length ≤ k.threads.size := by
  rw [← Std.ExtTreeMap.length_keys]
  refine (List.subperm_of_subset hn fun t ht => ?_).length_le
  obtain ⟨th, hth⟩ := hl t ht
  rw [Std.ExtTreeMap.mem_keys, Std.ExtTreeMap.mem_iff_isSome_getElem?, hth]
  rfl

/-- A chain from a thread that has begun to wait is no longer than there are threads, unless it
comes back to the thread. -/
theorem Sound.length_chain_le (hk : k.Sound g) (hh : k.waits.holder l = some holder)
    (hnone : k.waits.waitsFor t = none) {chain : List ThreadId}
    (hc : (t :: chain).IsChain (k.waits.enqueue t l holder).Awaits) (ht : t ∉ chain) :
    chain.length ≤ k.threads.size := by
  cases chain with
  | nil => exact Nat.zero_le _
  | cons b chain =>
    obtain ⟨hb, hc⟩ := List.isChain_cons_cons.mp hc
    -- Only the first link is new.
    have hold : (b :: chain).IsChain k.waits.Awaits := by
      refine hc.imp_of_mem_imp fun x y hx _ hxy => ?_
      rcases (Waits.awaits_enqueue hh hnone).mp hxy with h | ⟨rfl, -⟩
      · exact h
      · exact absurd hx ht
    refine length_le_size (hk.waits.wired.acyclic.nodup hold) fun s hs => ?_
    obtain ⟨r, hr⟩ := exists_of_mem_chain (List.isChain_cons_cons.mpr ⟨hb, hc⟩) s hs
    obtain ⟨l', -, hl'⟩ := Waits.awaits_iff.mp hr
    exact hk.registered.holder l' s hl'

/-- **How waiting begins.** A thread that sits nowhere joins the queue of a lock that is held, or
the walk along its chain comes back to it and halts the run. -/
theorem Sound.waitForLock_outcome (hk : k.Sound g) (hh : k.waits.holder l = some holder)
    {th : Thread} (hth : k.threads[t]? = some th) (ht : k.seating.Stands t) :
    (∃ k', Core.waitForLock t l holder k = .ok () k') ∨
      ∃ via k', Core.waitForLock t l holder k = .error (.deadlock t via) k' ∧
        ReflTransGen k.waits.Awaits holder t := by
  have hnone := hk.waitsFor_eq_none fun l' => ht (.lock l')
  obtain ⟨m, heq, hm⟩ := hk.waitForLock_eq hh hth ht
  obtain ⟨mth, hmth⟩ := hm.live hth
  have hawaits : ∀ a b, m.waits.Awaits a b ↔ k.waits.Awaits a b ∨ (a = t ∧ b = holder) := by
    intro a b
    rw [hm.waits]
    exact Waits.awaits_enqueue hh hnone
  have hdonate : donate t m = donateAlong t m.threads.size t m := rfl
  rw [heq, hdonate]
  rcases donateAlong_outcome (d := t) m.threads.size (hm.walkable hk hh hth) hmth with
    hok | ⟨via, k', herr, hto⟩ | ⟨chain, hchain, hlen, hnot⟩
  · exact .inl hok
  · refine .inr ⟨via, k', herr, ?_⟩
    rw [transGen_awaits ((hawaits t holder).mpr (.inr ⟨rfl, rfl⟩))] at hto
    rcases hto with rfl | hto
    · exact .refl
    · refine reflTransGen_of_source (S := m.waits.Awaits) (fun a b hab => ?_) hto.to_reflTransGen
      exact ((hawaits a b).mp hab).imp id And.left
  · rw [hm.waits] at hchain
    have hle := hk.length_chain_le hh hnone hchain hnot
    rw [← hm.size] at hle
    omega

/-- If the chain from the holder leads to the thread, it cannot begin to wait. -/
theorem Sound.waitForLock_ok (hk : k.Sound g) (hh : k.waits.holder l = some holder)
    (hb : k.seating.about g.state t = some .blocked) (hi : t ≠ k.idle) (ht : k.seating.Stands t)
    (h : Core.waitForLock t l holder k = .ok u k') : ¬ ReflTransGen k.waits.Awaits holder t := by
  intro hto
  obtain ⟨hs, hw⟩ := hk.waitForLock hh hb hi ht h
  have hnone := hk.waitsFor_eq_none fun l' => ht (.lock l')
  have hawaits : ∀ a b, k'.waits.Awaits a b ↔ k.waits.Awaits a b ∨ (a = t ∧ b = holder) := by
    intro a b
    rw [hw.waits]
    exact Waits.awaits_enqueue hh hnone
  have hcycle : TransGen k'.waits.Awaits t t := by
    refine TransGen.head' ((hawaits t holder).mpr (.inr ⟨rfl, rfl⟩)) ?_
    exact ReflTransGen.mono (fun a b hab => (hawaits a b).mpr (.inl hab)) _ _ hto
  exact hs.waits.wired.acyclic t hcycle

end Core

end ThreadCore
