import ThreadCore.Proofs.Runs
import ThreadCore.Proofs.Walks

/-!
# Deadlocks are found

In the states of a disciplined run no chain of waits comes back to where it began. A thread that is
about to close such a chain halts the run, and so does nothing else: the run halts with a deadlock
exactly if the chain from the holder of the lock leads to the thread that asks for it
(`reached_deadlock`).
-/

namespace ThreadCore

open Relation

namespace Core

variable {α : Type} {k k' : Core} {g : Stage} {t c holder : ThreadId} {l : ObjectId} {e : Halt}
  {u : Unit}

/-! ## Where a chain ends -/

/-- The holder of the lock that `t` waits for. -/
def next (k : Core) (t : ThreadId) : Option ThreadId := do
  let th ← k.threads[t]?
  let l ← th.waitsFor
  let o ← k.objects.locks[l]?
  o.holder

/-- The thread at the end of `n` links of the chain of waits. -/
def follow (k : Core) : (n : Nat) → ThreadId → Option ThreadId
  | 0, t => some t
  | n + 1, t => (k.next t).bind (k.follow n)

theorem next_eq (k : Core) (t : ThreadId) : k.next t = k.waits.next t := by
  unfold next Waits.next Core.waits
  cases ht : k.threads[t]? <;> simp [ht]

theorem follow_succ {n : Nat} (h : k.waits.Awaits t holder) :
    k.follow (n + 1) t = k.follow n holder := by
  rw [follow, next_eq, h]
  rfl

/-- A chain has an end among its first links, or it has that many links. -/
theorem Sound.end_or_chain (hk : k.Sound g) (n : Nat) (t : ThreadId) :
    (∃ m w, m < n ∧ k.follow m t = some w ∧ k.waits.waitsFor w = none) ∨
      ∃ chain : List ThreadId, (t :: chain).IsChain k.waits.Awaits ∧ chain.length = n := by
  induction n generalizing t with
  | zero => exact .inr ⟨[], List.isChain_singleton t, rfl⟩
  | succ n ih =>
    cases hw : k.waits.waitsFor t with
    | none => exact .inl ⟨0, t, Nat.succ_pos n, rfl, hw⟩
    | some l =>
      obtain ⟨h, hh⟩ := hk.waits.wired.exists_awaits hw
      rcases ih h with ⟨m, w, hm, hf, hend⟩ | ⟨chain, hc, hlen⟩
      · exact .inl ⟨m + 1, w, Nat.succ_lt_succ hm, (follow_succ hh).trans hf, hend⟩
      · exact .inr ⟨h :: chain, List.isChain_cons_cons.mpr ⟨hh, hc⟩, by simp [hlen]⟩

/-- Every chain has an end, after fewer links than there are threads. -/
theorem Sound.exists_end (hk : k.Sound g) {th : Thread} (hth : k.threads[t]? = some th) :
    ∃ n w, n < k.threads.size ∧ k.follow n t = some w ∧ k.waits.waitsFor w = none := by
  rcases hk.end_or_chain k.threads.size t with h | ⟨chain, hc, hlen⟩
  · exact h
  · have hlive : ∀ s ∈ t :: chain, ∃ th, k.threads[s]? = some th := by
      intro s hs
      rcases List.mem_cons.mp hs with hst | hs
      · exact ⟨th, hst ▸ hth⟩
      · obtain ⟨r, hr⟩ := exists_of_mem_chain hc s hs
        obtain ⟨l', -, hl'⟩ := Waits.awaits_iff.mp hr
        exact hk.registered.holder l' s hl'
    have hle := length_le_size (hk.waits.wired.acyclic.nodup hc) hlive
    rw [List.length_cons, hlen] at hle
    omega

/-- Live threads wait for live threads. -/
theorem Sound.live_follow {n : Nat} {w : ThreadId} {th : Thread} (hk : k.Sound g)
    (hth : k.threads[t]? = some th) (h : k.follow n t = some w) :
    ∃ th', k.threads[w]? = some th' := by
  induction n generalizing t th with
  | zero => exact ⟨th, Option.some.inj h ▸ hth⟩
  | succ n ih =>
    obtain ⟨b, hb, h⟩ := Option.bind_eq_some_iff.mp h
    rw [next_eq] at hb
    obtain ⟨l, -, hl⟩ := Waits.awaits_iff.mp hb
    obtain ⟨bth, hbth⟩ := hk.registered.holder l b hl
    exact ih hbth h

/-! ## Operations that halt -/

theorem outsideHandler_eq_ok {attempt : Attempt} :
    outsideHandler attempt k = .ok u k' ↔ k.machine.inHandler = false ∧ k = k' := by
  unfold outsideHandler
  rw [get_bind_eq_ok, demand_eq_ok]

/-- A masked section halts only if its body does. -/
theorem masked_eq_error {body : CoreM α} (h : masked body k = .error e k') :
    ∃ m, Quiet k m ∧ body m = .error e k' := by
  unfold masked at h
  rcases bind_eq_error.mp h with h | ⟨was, m, hm, h⟩
  · cases h
  rcases bind_eq_error.mp h with h | ⟨a, m', -, h⟩
  · exact ⟨m, quiet_mask hm, h⟩
  rcases bind_eq_error.mp h with h | ⟨_, m'', -, h⟩
  · exfalso
    unfold onMachine Machine.unmask at h
    cases was <;> cases h
  · cases h

/-- An acquisition that halts for a reason of a wait was of a lock whose holder is at the beginning
of a chain to the thread that asks for it. -/
theorem Sound.acquire_error (hk : k.Sound g) (hg : g.state = .running)
    (h : Core.acquire l k = .error e k') (he : e.OfWait) :
    ∃ holder via, k.waits.holder l = some holder ∧ e = .deadlock k.current via ∧
      ReflTransGen k.waits.Awaits holder k.current := by
  unfold Core.acquire at h
  obtain ⟨_, n, ho, h⟩ := (spares_outsideHandler _).of_bind h he
  obtain ⟨-, hkn⟩ := outsideHandler_eq_ok.mp ho
  rw [← hkn] at h
  obtain ⟨th, hr, h⟩ := of_ask_bind (fun _ => running_spares) h he
  obtain ⟨hid, hth⟩ := hk.running_eq hr
  obtain ⟨m, hq, h⟩ := masked_eq_error h
  have hm := hk.quiet hq
  obtain ⟨o, hl, h⟩ := of_ask_bind (fun _ => lock_spares) h he
  rw [lock_eq_ok_iff] at hl
  cases hh : o.holder with
  | none =>
    simp only [hh] at h
    exact absurd he (spares_changeLock _ _ _ _ _ h)
  | some holder =>
    simp only [hh] at h
    obtain ⟨_, n, hd, h⟩ := (spares_demand id).of_bind h he
    obtain ⟨-, hmn⟩ := demand_eq_ok.mp hd
    have hholder := (holder_lock hl).trans hh
    rw [← hmn, hid, ← hm.current] at h
    obtain ⟨mth, hmth⟩ := hm.live_current
    have hstands : m.seating.Stands m.current :=
      hm.seating.current_stands fun p => hg ▸ p.state_ne_running
    rcases bind_eq_error.mp h with h | ⟨_, n, hn, h⟩
    · rcases hm.waitForLock_outcome hholder hmth hstands with ⟨_, hok⟩ | ⟨via, _, herr, hto⟩
      · rw [hok] at h
        cases h
      · rw [herr] at h
        cases h
        rw [hq.waits, hq.current] at hto
        exact ⟨holder, via, hq.waits ▸ hholder, by rw [hq.current], hto⟩
    · have hrest :
          Spares (say (.waitsForHolder m.current l holder) >>= fun _ => Core.endTurn .blocked) :=
        (spares_say _).bind fun _ => spares_endTurn _
      exact absurd he (hrest _ _ _ h)

/-- An acquisition of a lock whose holder is at the beginning of a chain to the thread that asks for
it halts with a deadlock. -/
theorem Sound.acquire_deadlock (hk : k.Sound g) (hg : g.state = .running)
    (hp : g.terms.pristine = true) (hh : g.handler = false) (hi : k.current ≠ k.idle)
    (hholder : k.waits.holder l = some holder) (hne : holder ≠ k.current)
    (hto : ReflTransGen k.waits.Awaits holder k.current) :
    ∃ via k', Core.acquire l k = .error (.deadlock k.current via) k' := by
  obtain ⟨o, hl, hoh⟩ := Option.bind_eq_some_iff.mp hholder
  obtain ⟨th, hth, hr, hid⟩ := hk.running_ok hp
  have hstands : k.seating.Stands k.current :=
    hk.seating.current_stands fun p => hg ▸ p.state_ne_running
  obtain ⟨m, hmask⟩ : ∃ m, onMachine Machine.mask k = .ok k.machine.interruptsOn m := ⟨_, rfl⟩
  have hq : Quiet k m := quiet_mask hmask
  have hm := (hk.quiet hq).stand hg .blocked (by decide)
  have hmh : m.waits.holder l = some holder := hq.waits.symm ▸ hholder
  have hms : m.seating.Stands k.current := hq.seating.symm ▸ hstands
  have hmth : m.threads[k.current]? = some th := hq.threads.symm ▸ hth
  have hml : m.lock l = .ok o := lock_eq_ok_iff.mpr (hq.objects ▸ hl)
  have hwait :
      ∃ via k', Core.waitForLock k.current l holder m = .error (.deadlock k.current via) k' := by
    rcases hm.waitForLock_outcome hmh hmth hms with ⟨m', hok⟩ | ⟨via, m', herr, -⟩
    · have hb : m.seating.about .blocked k.current = some .blocked := by
        rw [← hq.current]
        exact about_current m _
      refine absurd ?_ (hm.waitForLock_ok hmh hb (by rwa [hq.idle]) hms hok)
      rwa [hq.waits]
    · exact ⟨via, m', herr⟩
  obtain ⟨via, k', herr⟩ := hwait
  refine ⟨via, k', ?_⟩
  unfold Core.acquire
  rw [bind_of_ok (outsideHandler_eq_ok (u := ()) |>.mpr ⟨hk.handler.trans hh, rfl⟩),
    ask_bind_of_ok hr, masked, bind_of_ok hmask]
  apply bind_of_error
  rw [ask_bind_of_ok hml]
  simp only [hoh, hid]
  rw [demand_bind_of (by simp [hne]), bind_of_error herr]

/-- A signal never halts for a reason of a wait: the thread it is for comes to wait for the running
one, which waits for nothing. -/
theorem Sound.signalOne_error (hk : k.Sound g) (hg : g.state = .running)
    (hh : k.waits.holder l = some k.current) (h : Core.signalOne c l k = .error e k') :
    ¬ e.OfWait := by
  intro he
  unfold Core.signalOne at h
  obtain ⟨o, ho, h⟩ := of_ask_bind (fun _ => condition_spares) h he
  rw [condition_eq_ok_iff] at ho
  obtain ⟨next, hnext, h⟩ := of_ask_bind (fun _ => mostUrgent_spares) h he
  obtain ⟨-, hnext⟩ := mostUrgent_eq_ok.mp hnext
  cases next with
  | none => cases h
  | some t =>
    have hmem : t ∈ o.waiters.entries := Queue.mem_of_foremostOf hnext
    have hseat : t ∈ k.seating.queue (.condition c) := by rwa [queue_condition ho]
    obtain ⟨_, m, hm, h⟩ := (spares_changeCondition _ _).of_bind h he
    obtain ⟨-, hkm⟩ := changeCondition_eq_ok.mp hm
    subst hkm
    let k₁ := k.mapCondition c fun cond => { cond with waiters := cond.waiters.remove t }
    have hf : (Queue.remove o.waiters t).entries = o.waiters.entries.erase t := rfl
    have hk₁ : k₁.Sound g := hk.leaveCondition ho hf
    have hh₁ : k₁.waits.holder l = some k.current := hh
    have hstands : k₁.seating.Stands t := hk.stands_leaveCondition ho hf hmem
    obtain ⟨th, hth⟩ := hk.live_of_mem hseat
    change (Core.waitForLock t l k.current >>= fun _ => say (.signals c t) >>= fun _ =>
      pure (some t)) k₁ = .error e k' at h
    rcases bind_eq_error.mp h with h | ⟨_, n, -, h⟩
    · rcases hk₁.waitForLock_outcome hh₁ hth hstands with ⟨n, hok⟩ | ⟨via, n, -, hto⟩
      · rw [show (k₁.waitForLock t l k.current) = _ from hok] at h
        cases h
      · rcases ReflTransGen.cases_head hto with hct | ⟨b, hcb, -⟩
        · exact hk.ne_current_of_mem hg hseat hct.symm
        · exact Waits.not_awaits (hk₁.current_waitsFor hg) b hcb
    · have hrest : Spares (say (.signals c t) >>= fun _ => pure (some t)) :=
        (spares_say _).bind fun _ => spares_pure _
      exact hrest _ _ _ h he

theorem Sound.signalMany_error {n : Nat} (hk : k.Sound g) (hg : g.state = .running)
    (hh : k.waits.holder l = some k.current) (h : Core.signalMany c l n k = .error e k') :
    ¬ e.OfWait := by
  induction n generalizing k with
  | zero => cases h
  | succ n ih =>
    unfold Core.signalMany at h
    rcases bind_eq_error.mp h with h | ⟨r, m, hm, h⟩
    · exact hk.signalOne_error hg hh h
    obtain ⟨hs, -, hh'⟩ := hk.signalOne hg hh hm
    cases r with
    | none => cases h
    | some t =>
      rcases bind_eq_error.mp h with h | ⟨_, _, -, h⟩
      · exact ih hs hh' h
      · cases h

theorem heldByCurrent_spares {k : Core} (h : heldByCurrent l k = .error e) : ¬ e.OfWait := by
  unfold heldByCurrent at h
  simp only [except_bind_error] at h
  rcases h with h | ⟨o, -, h | ⟨th, -, h⟩⟩
  · exact lock_spares h
  · exact running_spares h
  · cases h

theorem spares_checkHeld {use : ConditionUse} : Spares (checkHeld use c l) :=
  (spares_ask fun _ _ => heldByCurrent_spares).bind fun _ => spares_demand id

theorem Sound.signal_error (hk : k.Sound g) (hg : g.state = .running)
    (h : Core.signal c l k = .error e k') : ¬ e.OfWait := by
  intro he
  unfold Core.signal at h
  obtain ⟨_, _, hc, h⟩ := spares_checkHeld.of_bind h he
  obtain ⟨rfl, th, hr, hh⟩ := checkHeld_eq_ok hc
  obtain ⟨hid, -⟩ := hk.running_eq hr
  rcases bind_eq_error.mp h with h | ⟨_, _, -, h⟩
  · obtain ⟨m, hq, h⟩ := masked_eq_error h
    have hm := hk.quiet hq
    rw [hid, ← hm.current] at hh
    exact hm.signalOne_error hg (hq.waits ▸ hh) h he
  · cases h

theorem Sound.broadcast_error (hk : k.Sound g) (hg : g.state = .running)
    (h : Core.broadcast c l k = .error e k') : ¬ e.OfWait := by
  intro he
  unfold Core.broadcast at h
  obtain ⟨_, _, hc, h⟩ := spares_checkHeld.of_bind h he
  obtain ⟨rfl, th, hr, hh⟩ := checkHeld_eq_ok hc
  obtain ⟨hid, -⟩ := hk.running_eq hr
  obtain ⟨m, hq, h⟩ := masked_eq_error h
  have hm := hk.quiet hq
  rw [hid, ← hm.current] at hh
  obtain ⟨o, -, h⟩ := of_ask_bind (fun _ => condition_spares) h he
  exact hm.signalMany_error hg (hq.waits ▸ hh) h he

end Core

namespace Session

open ThreadCore.Core (Serves InOrder)

variable {s s' : Session} {frames : List Bool} {c : Call} {e : Halt} {α : Type}

/-! ## Calls that halt -/

theorem onCore_eq_error {step : CoreM α} :
    onCore step s = .error e s' ↔ ∃ k, step s.core = .error e k ∧ s' = { s with core := k } := by
  unfold onCore
  cases step s.core <;> simp [eq_comm]

/-- A call that only reports on a step of the core halts if the step does. -/
theorem report_eq_error {step : CoreM α} {f : α → Answer} :
    (onCore step >>= fun r => pure (f r)) s = .error e s' ↔
      ∃ k, step s.core = .error e k ∧ s' = { s with core := k } := by
  rw [bind_eq_error, onCore_eq_error]
  constructor
  · rintro (h | ⟨_, _, -, h⟩)
    · exact h
    · cases h
  · exact .inl

theorem resolve_eq_error {handles : Session → Array ObjectId} {i : Nat}
    {f : ObjectId → SessionM Answer} :
    resolve handles i f s = .error e s' ↔ ∃ id, (handles s)[i]? = some id ∧
      f id s = .error e s' := by
  unfold resolve
  rw [get_bind_eq_error]
  cases (handles s)[i]? with
  | none =>
    constructor
    · intro h
      cases h
    · rintro ⟨_, h, -⟩
      cases h
  | some id => simp

/-- The calls that walk along a chain of waits. -/
def Walks : Call → Prop
  | .acquire _ | .signal _ _ | .broadcast _ _ => True
  | _ => False

/-- A call that may walk and halts for a reason of a wait was an acquisition, and the halt is a
deadlock. -/
theorem walks_error (hk : s.core.InOrder true) (hc : Walks c) (h : execute c s = .error e s')
    (he : e.OfWait) : ∃ via, e = .deadlock s.core.current via := by
  cases c with
  | acquire i =>
    obtain ⟨l, -, h⟩ := resolve_eq_error.mp h
    obtain ⟨k, h, -⟩ := report_eq_error.mp h
    obtain ⟨_, via, -, he, -⟩ := hk.acquire_error rfl h he
    exact ⟨via, he⟩
  | signal i j =>
    obtain ⟨cond, -, h⟩ := resolve_eq_error.mp h
    obtain ⟨l, -, h⟩ := resolve_eq_error.mp h
    obtain ⟨k, h, -⟩ := report_eq_error.mp h
    exact absurd he (hk.signal_error rfl h)
  | broadcast i j =>
    obtain ⟨cond, -, h⟩ := resolve_eq_error.mp h
    obtain ⟨l, -, h⟩ := resolve_eq_error.mp h
    obtain ⟨k, h, -⟩ := report_eq_error.mp h
    exact absurd he (hk.broadcast_error rfl h)
  | _ => cases hc

/-- An acquisition of a lock that another thread holds halts with a deadlock exactly if the chain of
waits leads from that thread to the one that asks. -/
theorem acquire_halts_iff (hk : s.core.InOrder true) {i : Nat} {l : ObjectId} {o : Lock}
    {holder : ThreadId} (hi : s.locks[i]? = some l) (ho : s.core.objects.locks[l]? = some o)
    (hh : o.holder = some holder) (hne : holder ≠ s.core.current)
    (hidle : s.core.current ≠ s.core.idle) (hout : s.core.machine.inHandler = false) :
    (∃ via s', execute (.acquire i) s = .error (.deadlock s.core.current via) s') ↔
      ReflTransGen s.core.Awaits holder s.core.current := by
  have hholder : s.core.waits.holder l = some holder := (Core.holder_lock ho).trans hh
  rw [Core.awaits_eq]
  constructor
  · rintro ⟨via, s', h⟩
    obtain ⟨l', hi', h⟩ := resolve_eq_error.mp h
    obtain rfl : l = l' := Option.some.inj (hi.symm.trans hi')
    obtain ⟨k, h, -⟩ := report_eq_error.mp h
    obtain ⟨holder', -, hh', -, hto⟩ := hk.acquire_error rfl h trivial
    obtain rfl : holder = holder' := Option.some.inj (hholder.symm.trans hh')
    exact hto
  · intro hto
    obtain ⟨via, k, h⟩ := hk.acquire_deadlock rfl rfl hout hidle hholder hne hto
    exact ⟨via, _, resolve_eq_error.mpr ⟨l, hi, report_eq_error.mpr ⟨k, h, rfl⟩⟩⟩

/-- From a thread that holds a lock, the chain of waits comes to an end after fewer links than there
are threads. -/
theorem chain_ends (hk : s.core.InOrder true) {l : ObjectId} {o : Lock} {holder : ThreadId}
    (ho : s.core.objects.locks[l]? = some o) (hh : o.holder = some holder) :
    ∃ n u th, n < s.core.threads.size ∧ s.core.follow n holder = some u ∧
      s.core.threads[u]? = some th ∧ th.waitsFor = none := by
  obtain ⟨hth, hlive⟩ := hk.registered.holder l holder ((Core.holder_lock ho).trans hh)
  obtain ⟨n, u, hn, hf, hu⟩ := hk.exists_end hlive
  obtain ⟨th, huth⟩ := hk.live_follow hlive hf
  exact ⟨n, u, th, hn, hf, huth, by simpa [Core.waits, huth] using hu⟩

/-- **Deadlocks are found.** In every state of a disciplined run the chains of waits have no cycle.
When the running thread asks for a lock that another one holds, the run halts with a deadlock
exactly if the chain from the holder leads back to it; every such chain ends at a live thread that
waits for no lock, within as many links as there are threads. For another reason no walk along a
chain halts the run. -/
theorem reached_deadlock (h : Reached Disciplined frames s) :
    (∀ t, ¬ TransGen s.core.Awaits t t) ∧
      (∀ (i : Nat) (l : ObjectId) (o : Lock) (holder : ThreadId),
        s.locks[i]? = some l → s.core.objects.locks[l]? = some o → o.holder = some holder →
        holder ≠ s.core.current → s.core.current ≠ s.core.idle →
        s.core.machine.inHandler = false →
        ((∃ via s', execute (.acquire i) s = .error (.deadlock s.core.current via) s') ↔
          ReflTransGen s.core.Awaits holder s.core.current) ∧
        ∃ n u th, n < s.core.threads.size ∧ s.core.follow n holder = some u ∧
          s.core.threads[u]? = some th ∧ th.waitsFor = none) ∧
      ∀ c e s', Walks c → execute c s = .error e s' →
        (∀ t l, e ≠ .waitsForFree t l) ∧ ∀ t, e ≠ .endlessWait t := by
  have hk := h.inOrder
  refine ⟨?_, ?_, ?_⟩
  · rw [Core.awaits_eq]
    exact hk.waits.wired.acyclic
  · intro i l o holder hi ho hh hne hidle hout
    exact ⟨acquire_halts_iff hk hi ho hh hne hidle hout, chain_ends hk ho hh⟩
  · intro c e s' hc he
    constructor
    · rintro t l rfl
      obtain ⟨via, hv⟩ := walks_error hk hc he trivial
      cases hv
    · rintro t rfl
      obtain ⟨via, hv⟩ := walks_error hk hc he trivial
      cases hv

/-- The thread that boots asks for a lock whose holder waits for the lock that it holds itself. -/
theorem reached_deadlock_crossed : ∃ s, Reached Disciplined [] s ∧ s.locks = #[1, 2] ∧
    s.core.current = 1 ∧
      (s.core.objects.locks[(2 : ObjectId)]?).any (fun o => o.holder = some 3) = true ∧
    (∀ t, ¬ TransGen s.core.Awaits t t) ∧
    (∃ via s', execute (.acquire 1) s = .error (.deadlock 1 via) s') ∧
    ReflTransGen s.core.Awaits 3 1 := by
  have hrun : (afterBoot ⟨none, none, none, false, none⟩
      [.newLock, .newLock, .acquire 0, .create "crossed" 40, .acquire 1, .acquire 0]).any (fun s =>
        s.locks = #[1, 2] ∧ s.core.current = 1 ∧ s.core.idle ≠ 1 ∧
          s.core.machine.inHandler = false ∧
          ((s.core.objects.locks[(2 : ObjectId)]?).any fun o => o.holder = some 3) = true ∧
          (match execute (.acquire 1) s with
            | .error (.deadlock t _) _ => t == 1
            | _ => false) = true) = true := by
    decide +kernel
  obtain ⟨s, hs, hrun⟩ := (Option.any_eq_true _ _).mp hrun
  obtain ⟨hlocks, hcur, hidle, hout, hheld, hhalt⟩ := of_decide_eq_true hrun
  have hreach := reached_afterBoot (fun _ _ => Disciplined.plain) hs
  obtain ⟨hacyclic, hiff, -⟩ := reached_deadlock hreach
  obtain ⟨o, ho, hh⟩ := (Option.any_eq_true _ _).mp hheld
  have h := (hiff 1 2 o 3 (by rw [hlocks]; rfl) ho (of_decide_eq_true hh) (by rw [hcur]; decide)
    (by rw [hcur]; exact hidle.symm) hout).1
  rw [hcur] at h
  have hdead : ∃ via s', execute (.acquire 1) s = .error (.deadlock 1 via) s' := by
    split at hhalt
    · rename_i t via s' he
      obtain rfl : t = 1 := eq_of_beq hhalt
      exact ⟨via, s', he⟩
    · cases hhalt
  exact ⟨s, hreach, hlocks, hcur, hheld, hacyclic, hdead, h.mp hdead⟩

end Session

end ThreadCore
