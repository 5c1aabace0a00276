import ThreadCore.Proofs.FamilyCalls

/-!
# The fork handshake

A parent waits until its child reports the end of its fork or exits. The fork semaphore of the
record brings the two together: the report, which counts once, brings a unit, and each wait takes
one. So what was brought and what was taken balance in every state of every run (`Bond.Balanced`): a
parent's first wait never outlasts the report (`Session.logged_handshake`).

A second wait takes another unit, and there is none: the parent waits for a report that has been
made (`Session.second_wait_strands`).
-/

namespace ThreadCore

/-! ## Reports and waits in a log -/

/-- The transition reports to a parent: it is the report of the end of a fork, or an exit. -/
def Deed.reports : Deed → Bool
  | .call .reportFork (.done _) | .call .exit _ => true
  | _ => false

/-- The transition is a wait for the report of `c`. -/
def Deed.awaitsFork (c : ThreadId) : Deed → Bool
  | .call (.awaitFork d) (.done _) => d = c
  | _ => false

/-- `c` has reported or exited. -/
def Reported (log : List Entry) (c : ThreadId) : Prop :=
  ∃ e ∈ log, e.caller = c ∧ e.deed.reports = true

instance (log : List Entry) (c : ThreadId) : Decidable (Reported log c) :=
  inferInstanceAs (Decidable (∃ e ∈ log, e.caller = c ∧ e.deed.reports = true))

/-- How often `p` has waited for the report of `c`. -/
def forkWaits (log : List Entry) (p c : ThreadId) : Nat :=
  log.countP fun e => e.caller = p ∧ e.deed.awaitsFork c = true

variable {log : List Entry} {s s' : Session} {d : Deed} {p c t : ThreadId} {K K' : Kinship}
  {b b' : Bond}

theorem Deed.eq_of_reports (h : d.reports = true) :
    (∃ r, d = .call .reportFork (.done r)) ∨ ∃ a, d = .call .exit a := by
  unfold reports at h
  split at h
  · exact .inl ⟨_, rfl⟩
  · exact .inr ⟨_, rfl⟩
  · cases h

theorem Deed.eq_of_awaitsFork (h : d.awaitsFork c = true) :
    ∃ r, d = .call (.awaitFork c) (.done r) := by
  unfold awaitsFork at h
  split at h
  · exact ⟨_, by rw [of_decide_eq_true h]⟩
  · cases h

theorem reported_cons : Reported (⟨s, d, s'⟩ :: log) c ↔
    (s.core.current = c ∧ d.reports = true) ∨ Reported log c := by
  simp only [Reported, List.mem_cons, exists_eq_or_imp, Entry.caller]

theorem forkWaits_cons : forkWaits (⟨s, d, s'⟩ :: log) p c =
    forkWaits log p c + if s.core.current = p ∧ d.awaitsFork c = true then 1 else 0 := by
  rw [forkWaits, List.countP_cons]
  exact congrArg _ (if_congr decide_eq_true_iff rfl rfl)

/-! ## The balance of a bond -/

/-- What was brought to the fork semaphore and what was taken, by the count or by waiters,
balance. -/
structure Bond.Balanced (b : Bond) (reported : Prop) (waits : Nat) : Prop where
  forked : b.forked = true ↔ reported
  units : b.fork.value + waits = (if b.forked then 1 else 0) + b.fork.waiters.entries.length
  patient : 0 < b.fork.value → b.fork.waiters.entries = []
  status : b.status ≠ none → b.forked = true

namespace Bond.Balanced

variable {reported reported' : Prop} {waits : Nat}

theorem fresh (h : ¬ reported) : Bond.fresh.Balanced reported 0 :=
  ⟨by simp [Bond.fresh, h], rfl, fun _ => rfl, fun h => absurd rfl h⟩

theorem congr (h : b.Balanced reported waits) (hr : reported' ↔ reported)
    (hf : b'.forked = b.forked) (ho : b'.fork = b.fork) (hs : b'.status ≠ none → b.forked = true) :
    b'.Balanced reported' waits := by
  obtain ⟨h₁, h₂, h₃, -⟩ := h
  rw [← hf, ← ho] at h₂
  rw [← ho] at h₃
  exact ⟨by rw [hf, h₁, hr], h₂, h₃, hf ▸ hs⟩

/-- The parent takes a unit, or lines up for one. -/
theorem wait (h : b.Balanced reported waits) (p : ThreadId) :
    ({ b with fork := b.fork.taken p } : Bond).Balanced reported (waits + 1) := by
  obtain ⟨h₁, h₂, h₃, h₄⟩ := h
  by_cases hv : 0 < b.fork.value
  · rw [Semaphore.taken_of_pos hv]
    refine ⟨h₁, ?_, fun _ => h₃ hv, h₄⟩
    show b.fork.value - 1 + (waits + 1) =
      (if b.forked then 1 else 0) + b.fork.waiters.entries.length
    omega
  · rw [Semaphore.taken_of_zero (by omega)]
    refine ⟨h₁, ?_, fun h => absurd h hv, h₄⟩
    show b.fork.value + (waits + 1) =
      (if b.forked then 1 else 0) + (b.fork.waiters.entries ++ [p]).length
    rw [List.length_append, List.length_singleton]
    omega

/-- The child reports for the first time. -/
theorem report (h : b.Balanced reported waits) (hf : b.forked = false) (hf' : b'.forked = true)
    (hg : b.fork.Gives b'.fork) : b'.Balanced True waits := by
  obtain ⟨-, h₂, h₃, -⟩ := h
  rw [hf] at h₂
  obtain ⟨r, hnone, hmem, ho⟩ := hg
  cases r with
  | none =>
    have he := hnone rfl
    have hvalue : b'.fork.value = b.fork.value + 1 := by rw [ho]; rfl
    have hwaiters : b'.fork.waiters.entries = [] := by rw [ho]; exact he
    rw [he] at h₂
    refine ⟨by simp [hf'], ?_, fun _ => hwaiters, fun _ => hf'⟩
    rw [hvalue, hwaiters, hf']
    simp at h₂ ⊢
    omega
  | some t =>
    have ht := hmem t rfl
    have hvalue : b'.fork.value = b.fork.value := by rw [ho]; rfl
    have hwaiters : b'.fork.waiters.entries = b.fork.waiters.entries.erase t := by rw [ho]; rfl
    have hlen := List.length_erase_of_mem ht
    have hpos := List.length_pos_of_mem ht
    refine ⟨by simp [hf'], ?_, fun hv => ?_, fun _ => hf'⟩
    · rw [hvalue, hwaiters, hlen, hf']
      simp at h₂ ⊢
      omega
    · rw [hvalue] at hv
      rw [h₃ hv] at ht
      cases ht

end Bond.Balanced

/-! ## The balance over a run -/

namespace Kinship

/-- A thread with a parent has a record with nobody else. -/
theorem Sound.bond_parent {q : ThreadId} (hK : K.Sound) (hp : K.parent c = some p)
    (hb : K.bond q c = some b) : q = p := by
  by_cases hs : b.status = none
  · exact Option.some.inj (((hK.agree q c).mpr ⟨b, hb, hs⟩).symm.trans hp)
  · rw [hK.gone q c b hb hs] at hp
    cases hp

/-- A transition that neither reports nor waits for a report leaves forks alone. -/
theorem Follows.silent (h : K.Follows t K' d) (hr : d.reports = false)
    (hw : ∀ c, d.awaitsFork c = false) : K.nextThread ≤ K'.nextThread ∧
      ∀ p c b', K'.bond p c = some b' →
        (∃ b, K.bond p c = some b ∧ b'.forked = b.forked ∧ b'.status = b.status ∧
          b'.fork = b.fork) ∨ c = K.nextThread ∧ b' = .fresh := by
  have hsame : ∀ {p c b'}, K.bond p c = some b' →
      (∃ b, K.bond p c = some b ∧ b'.forked = b.forked ∧ b'.status = b.status ∧ b'.fork = b.fork) ∨
        c = K.nextThread ∧ b' = .fresh := fun h => .inl ⟨_, h, rfl, rfl, rfl⟩
  have hadd : ∀ p c b', (K.addChild t).bond p c = some b' →
      (∃ b, K.bond p c = some b ∧ b'.forked = b.forked ∧ b'.status = b.status ∧ b'.fork = b.fork) ∨
        c = K.nextThread ∧ b' = .fresh := by
    intro p c b' hb'
    simp only [addChild] at hb'
    split at hb'
    · rename_i hpc
      exact .inr ⟨hpc.2, (Option.some.inj hb').symm⟩
    · exact hsame hb'
  have hdrop : ∀ q e p c b', (K.setBond q e none).bond p c = some b' →
      (∃ b, K.bond p c = some b ∧ b'.forked = b.forked ∧ b'.status = b.status ∧ b'.fork = b.fork) ∨
        c = K.nextThread ∧ b' = .fresh := by
    intro q e p c b' hb'
    simp only [setBond] at hb'
    split at hb'
    · cases hb'
    · exact hsame hb'
  unfold Follows at h
  split at h
  · obtain ⟨-, -, rfl⟩ := h
    exact ⟨Nat.le_succ _, hadd⟩
  · obtain ⟨-, -, rfl⟩ := h
    exact ⟨Nat.le_succ _, hadd⟩
  · cases hr
  · obtain ⟨-, rfl⟩ := h
    exact ⟨le_rfl, fun p c b' hb' => hsame hb'⟩
  · cases hr
  · rename_i c _
    have := hw c
    simp [Deed.awaitsFork] at this
  · obtain ⟨b, hb, -, rfl⟩ := h
    refine ⟨le_rfl, fun p c b' hb' => ?_⟩
    simp only [setBond] at hb'
    split at hb'
    · rename_i hpc
      obtain ⟨rfl, rfl⟩ := hpc
      cases hb'
      exact .inl ⟨b, hb, rfl, rfl, rfl⟩
    · exact hsame hb'
  · obtain ⟨b, v, -, -, -, rfl⟩ := h
    exact ⟨le_rfl, hdrop _ _⟩
  · obtain ⟨b, -, -, rfl⟩ := h
    exact ⟨le_rfl, hdrop _ _⟩
  · subst h
    exact ⟨le_rfl, fun p c b' hb' => hsame hb'⟩

end Kinship

/-- Only threads that were created have reported or were waited for, and every bond balances. -/
structure Handshaken (log : List Entry) (K : Kinship) : Prop where
  reported : ∀ c, Reported log c → c < K.nextThread
  waited : ∀ p c, K.nextThread ≤ c → forkWaits log p c = 0
  balanced : ∀ p c b, K.bond p c = some b → b.Balanced (Reported log c) (forkWaits log p c)

namespace Handshaken

/-- Whoever did not make the transition has not reported by it. -/
theorem reported_of_ne (hc : c ≠ s.core.current) :
    Reported (⟨s, d, s'⟩ :: log) c ↔ Reported log c := by
  rw [reported_cons, or_iff_right]
  exact fun h => hc h.1.symm

theorem reported_silent (hr : d.reports = false) :
    Reported (⟨s, d, s'⟩ :: log) c ↔ Reported log c := by
  rw [reported_cons, or_iff_right]
  exact fun h => by simp [hr] at h

theorem reported_self (hr : d.reports = true) : Reported (⟨s, d, s'⟩ :: log) s.core.current :=
  reported_cons.mpr (.inl ⟨rfl, hr⟩)

theorem forkWaits_silent (hw : d.awaitsFork c = false) :
    forkWaits (⟨s, d, s'⟩ :: log) p c = forkWaits log p c := by
  rw [forkWaits_cons, if_neg, Nat.add_zero]
  exact fun h => by simp [hw] at h

/-- A report that is not refused keeps the balance. -/
theorem reportFork (H : Handshaken log K) (hK : K.Sound) (hp : K.parent s.core.current = some p)
    (hb : K.bond p s.core.current = some b) (hf : b.forked = false) {o : Semaphore}
    (hg : b.fork.Gives o) {r : Reply} :
    Handshaken (⟨s, .call .reportFork (.done r), s'⟩ :: log)
      (K.setBond p s.core.current (some { b with forked := true, fork := o })) := by
  have hself : Reported (⟨s, .call .reportFork (.done r), s'⟩ :: log) s.core.current :=
    reported_self rfl
  refine ⟨fun c hc => ?_, fun q c hc => ?_, fun q c x hx => ?_⟩
  · rcases reported_cons.mp hc with ⟨rfl, -⟩ | hc
    · exact (hK.older p _ b hb).2
    · exact H.reported c hc
  · rw [forkWaits_silent rfl]
    exact H.waited q c hc
  · rw [forkWaits_silent rfl]
    simp only [Kinship.setBond] at hx
    split at hx
    · rename_i hqc
      obtain ⟨rfl, rfl⟩ := hqc
      cases hx
      refine ((H.balanced q _ b hb).report hf rfl hg).congr ?_ rfl rfl fun _ => rfl
      exact iff_of_true hself trivial
    · rename_i hqc
      have hc : c ≠ s.core.current := by
        rintro rfl
        exact hqc ⟨hK.bond_parent hp hx, rfl⟩
      have hbal := H.balanced q c x hx
      exact hbal.congr (reported_of_ne hc) rfl rfl hbal.status

/-- An exit keeps the balance: it counts as a report if the thread has not reported. -/
theorem exit (H : Handshaken log K) (hK : K.Sound) (ht : s.core.current < K.nextThread)
    (h : K.Exits s.core.current K') {a : Answer} :
    Handshaken (⟨s, .call .exit a, s'⟩ :: log) K' := by
  have hself : Reported (⟨s, .call .exit a, s'⟩ :: log) s.core.current := reported_self rfl
  refine ⟨fun c hc => ?_, fun q c hc => ?_, fun q c x hx => ?_⟩
  · rw [h.nextThread]
    rcases reported_cons.mp hc with ⟨rfl, -⟩ | hc
    · exact ht
    · exact H.reported c hc
  · rw [forkWaits_silent rfl]
    exact H.waited q c (h.nextThread ▸ hc)
  · rw [forkWaits_silent rfl]
    by_cases hqc : c ≠ s.core.current ∨ K.parent s.core.current ≠ some q
    · rw [h.bond q c hqc] at hx
      split at hx
      · cases hx
      have hbal := H.balanced q c x hx
      refine hbal.congr ?_ rfl rfl hbal.status
      by_cases hc : c = s.core.current
      · -- The record is of an earlier exit: its child has reported.
        subst hc
        have hs : x.status ≠ none := fun hs =>
          hqc.elim (fun h => h rfl) fun h => h ((hK.agree q _).mpr ⟨x, hx, hs⟩)
        exact iff_of_true hself (hbal.forked.mp (hbal.status hs))
      · exact reported_of_ne hc
    · rw [not_or, not_not, not_not] at hqc
      obtain ⟨rfl, hp⟩ := hqc
      obtain ⟨v, b, b', -, hb, hcl, hb'⟩ := h.closes q hp
      obtain rfl := Option.some.inj (hb'.symm.trans hx)
      have hbal := H.balanced q _ b hb
      have hfork := hcl.fork
      by_cases hf : b.forked = true
      · rw [if_pos hf] at hfork
        exact hbal.congr (iff_of_true hself (hbal.forked.mp hf)) (hcl.forked.trans hf.symm) hfork
          fun _ => hf
      · rw [if_neg hf] at hfork
        refine (hbal.report (by simpa using hf) hcl.forked hfork).congr ?_ rfl
          rfl fun _ => hcl.forked
        exact iff_of_true hself trivial

/-- A wait keeps the balance. -/
theorem awaitFork (H : Handshaken log K) (hK : K.Sound) (hb : K.bond s.core.current c = some b)
    {r : Reply} : Handshaken (⟨s, .call (.awaitFork c) (.done r), s'⟩ :: log)
      (K.setBond s.core.current c (some { b with fork := b.fork.taken s.core.current })) := by
  have hother : ∀ q e, ¬ (q = s.core.current ∧ e = c) →
      forkWaits (⟨s, .call (.awaitFork c) (.done r), s'⟩ :: log) q e = forkWaits log q e := by
    intro q e hqe
    rw [forkWaits_cons, if_neg, Nat.add_zero]
    rintro ⟨rfl, he⟩
    exact hqe ⟨rfl, (of_decide_eq_true he).symm⟩
  refine ⟨fun e he => H.reported e ((reported_silent rfl).mp he), fun q e he => ?_,
    fun q e x hx => ?_⟩
  · rw [hother]
    · exact H.waited q e he
    · rintro ⟨-, rfl⟩
      exact absurd (hK.older _ _ b hb).2 (Nat.not_lt.mpr he)
  · simp only [Kinship.setBond] at hx
    split at hx
    · rename_i hqe
      obtain ⟨rfl, rfl⟩ := hqe
      cases hx
      have hbal := (H.balanced _ _ b hb).wait s.core.current
      rw [forkWaits_cons, if_pos ⟨rfl, by simp [Deed.awaitsFork]⟩]
      exact hbal.congr (reported_silent rfl) rfl rfl hbal.status
    · rename_i hqe
      have hbal := H.balanced q e x hx
      rw [hother q e hqe]
      exact hbal.congr (reported_silent rfl) rfl rfl hbal.status

/-- Any other transition keeps the balance. -/
theorem silent (H : Handshaken log K) (h : K.Follows s.core.current K' d) (hr : d.reports = false)
    (hw : ∀ c, d.awaitsFork c = false) : Handshaken (⟨s, d, s'⟩ :: log) K' := by
  obtain ⟨hnext, hbond⟩ := h.silent hr hw
  refine ⟨fun c hc => (H.reported c ((reported_silent hr).mp hc)).trans_le hnext, fun q c hc => ?_,
    fun q c x hx => ?_⟩
  · rw [forkWaits_silent (hw c)]
    exact H.waited q c (hnext.trans hc)
  · rw [forkWaits_silent (hw c)]
    rcases hbond q c x hx with ⟨b, hb, hf, hs, ho⟩ | ⟨rfl, rfl⟩
    · have hbal := H.balanced q c b hb
      exact hbal.congr (reported_silent hr) hf ho (hs ▸ hbal.status)
    · rw [H.waited q _ le_rfl]
      refine .fresh fun h => ?_
      exact lt_irrefl _ (H.reported _ ((reported_silent hr).mp h))

/-- **One transition.** Every transition keeps the balance. -/
theorem step (H : Handshaken log s.core.kinship) (hs : s.Kindred)
    (h : s.core.kinship.Follows s.core.current K' d) : Handshaken (⟨s, d, s'⟩ :: log) K' := by
  have hK := hs.1
  by_cases hr : d.reports = true
  · rcases Deed.eq_of_reports hr with ⟨r, rfl⟩ | ⟨a, rfl⟩
    · obtain ⟨p, b, o, hp, hb, hf, hg, rfl⟩ := h
      exact H.reportFork hK hp hb hf hg
    · exact H.exit hK (hs.live_lt h.live) h
  · by_cases hw : ∃ c, d.awaitsFork c = true
    · obtain ⟨c, hc⟩ := hw
      obtain ⟨r, rfl⟩ := Deed.eq_of_awaitsFork hc
      obtain ⟨b, hb, rfl⟩ := h
      exact H.awaitFork hK hb
    · rw [not_exists] at hw
      exact H.silent h (Bool.not_eq_true _ ▸ hr) fun c => Bool.not_eq_true _ ▸ hw c

end Handshaken

namespace Session

variable {allowed : List Entry → Session → Call → Prop} {frames : List Bool} {r : ChildRecord}

/-- Reports and waits balance in every state of a run. -/
theorem Logged.handshaken (h : Logged allowed log frames s) : Handshaken log s.core.kinship := by
  refine h.families (P := Handshaken) (fun K hbond _ _ => ⟨?_, fun _ _ _ => rfl, ?_⟩)
    fun _ _ _ _ hs H hf => H.step hs hf
  · rintro c ⟨e, he, -⟩
    cases he
  · intro p c b hb
    rw [hbond] at hb
    cases hb

/-- **The fork handshake.** Once a child has reported or exited, its parent waits for it no longer,
and a first wait for it is over at once. While it has not, its report or its exit wakes the parent
that waits. But each wait after the first is one that no report answers: it leaves the parent in the
queue. -/
theorem logged_handshake (h : Logged allowed log frames s) (hr : s.core.recordOf p c = some r) :
    (Reported log c →
      (s.core.seating.queue (.semaphore r.forkSemaphore)).length = forkWaits log p c - 1) ∧
    (Reported log c → forkWaits log p c = 0 → s.core.current = p → ∀ th, s.core.running = .ok th →
      ∃ s', execute (.awaitFork c) s = .ok (.done .nothing) s' ∧
        s'.core.seating = s.core.seating) ∧
    (¬ Reported log c → p ∈ s.core.seating.queue (.semaphore r.forkSemaphore) → s.core.current = c →
      ∀ call a s', call = .reportFork ∨ call = .exit → execute call s = .ok a s' →
        a = .done .nothing ∧ s'.core.Awake p) := by
  obtain ⟨hK, office, hd⟩ := h.kindred
  have A := hd.assigned
  obtain ⟨f, e, hf, -, hb⟩ := A.bond hr
  have hbal := h.handshaken.balanced p c _ hb
  have hqueue : s.core.seating.queue (.semaphore r.forkSemaphore) = f.waiters.entries :=
    Core.queue_semaphore hf
  rw [hqueue]
  have hunits : f.value + forkWaits log p c =
      (if r.forked then 1 else 0) + f.waiters.entries.length :=
    hbal.units
  have hpatient : 0 < f.value → f.waiters.entries.length = 0 := fun hv =>
    List.length_eq_zero_iff.mpr (hbal.patient hv)
  refine ⟨fun hrep => ?_, fun hrep hw hp th hth => ?_, fun hrep hmem hc call a s' hcall hx => ?_⟩
  · rw [if_pos (hbal.forked.mpr hrep)] at hunits
    omega
  · rw [if_pos (hbal.forked.mpr hrep)] at hunits
    subst hp
    have hv : 0 < f.value := by omega
    obtain ⟨k', hk'⟩ := Core.down_ok hth hf hv
    obtain ⟨-, x, -, hx, -, hseat⟩ := Core.down_sets hk'
    obtain rfl := Option.some.inj (hf.symm.trans hx)
    refine ⟨{ s with core := k' }, report_ok.mpr ⟨.ok (), k', ?_, rfl, rfl⟩, hseat hv⟩
    unfold Core.awaitFork
    rw [Core.ask_bind_of_ok hth, (A.running_id hth).1, Core.ask_bind_of_ok
      (Core.childRecord_eq_ok.mpr ⟨⟨th, (A.running_id hth).2⟩, hr⟩)]
    show (Core.down _ >>= fun _ => pure (Except.ok ())) s.core = _
    rw [bind_of_ok hk']
    rfl
  · subst hc
    have hforked : r.forked = false := by
      rw [← Bool.not_eq_true]
      exact fun hf => hrep (hbal.forked.mp hf)
    have hstatus : r.status = none := by
      by_contra hs
      exact hrep (hbal.forked.mp (hbal.status hs))
    have hp := (hK.agree p _).mpr ⟨_, hb, hstatus⟩
    have hserves := h.served p _ _ hb
    rcases hcall with rfl | rfl
    · obtain ⟨w, k, hk, rfl, rfl⟩ := report_ok.mp hx
      obtain ⟨rfl, hawake⟩ :=
        Core.reportFork_wakes A hk hp hb hforked hserves (List.ne_nil_of_mem hmem)
      exact ⟨rfl, hawake⟩
    · obtain ⟨w, k, hk, rfl, rfl⟩ := report_ok.mp hx
      obtain ⟨-, -, -, -, hwakes⟩ := Core.exit_kinship A hK hk
      exact ⟨rfl, hwakes p _ hp hb hserves (.inl ⟨hforked, List.ne_nil_of_mem hmem⟩)⟩

/-- A child reports before its parent waits: the wait is over at once. -/
theorem logged_handshake_first : ∃ log s s', Logged (fun _ => Considerate) log [] s ∧
    s.core.current = 1 ∧ Reported log 3 ∧ execute (.awaitFork 3) s = .ok (.done .nothing) s' ∧
    s'.core.current = 1 := by
  have hrun : (replayFrom (fun _ => isPlain) ⟨none, none, none, false, none⟩
      [.create "child" 40, .reportFork, .setPriority 20]).any (fun r =>
        (r.2.core.recordOf 1 3).isSome = true ∧ Reported r.1 3 ∧ forkWaits r.1 1 3 = 0 ∧
        r.2.core.current = 1 ∧ r.2.core.running.isOk = true) = true := by
    decide +kernel
  obtain ⟨⟨log, s⟩, hs, hrun⟩ := (Option.any_eq_true _ _).mp hrun
  obtain ⟨hr, hrep, hw, hcurrent, hth⟩ := of_decide_eq_true hrun
  obtain ⟨r, hr⟩ := Option.isSome_iff_exists.mp hr
  obtain ⟨th, hth⟩ : ∃ th, s.core.running = .ok th := by
    cases h : s.core.running with
    | ok th => exact ⟨th, rfl⟩
    | error e =>
      rw [h] at hth
      cases hth
  have hlog := logged_plain hs
  obtain ⟨s', he, hseat⟩ := (logged_handshake hlog hr).2.1 hrep hw hcurrent th hth
  exact ⟨log, s, s', hlog, hcurrent, hrep, he, (congrArg Seating.current hseat).trans hcurrent⟩

/-- A parent that waits for the same report twice is left in the queue. -/
theorem second_wait_strands : ∃ log s r, Logged (fun _ => Considerate) log [] s ∧
    s.core.recordOf 1 3 = some r ∧ Reported log 3 ∧
    1 ∈ s.core.seating.queue (.semaphore r.forkSemaphore) := by
  have hrun : (replayFrom (fun _ => isPlain) ⟨none, none, none, false, none⟩
      [.create "child" 20, .awaitFork 3, .reportFork, .awaitFork 3]).any (fun p =>
        (p.2.core.recordOf 1 3).any (fun r =>
          1 ∈ p.2.core.seating.queue (.semaphore r.forkSemaphore)) = true ∧ Reported p.1 3) =
          true := by
    decide +kernel
  obtain ⟨⟨log, s⟩, hs, hrun⟩ := (Option.any_eq_true _ _).mp hrun
  obtain ⟨hr, hrep⟩ := of_decide_eq_true hrun
  obtain ⟨r, hr, hmem⟩ := (Option.any_eq_true _ _).mp hr
  exact ⟨log, s, r, logged_plain hs, hr, hrep, of_decide_eq_true hmem⟩

end Session

end ThreadCore
