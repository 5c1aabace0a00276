import ThreadCore.Proofs.Aside
import ThreadCore.Proofs.Steadiness

/-!
# Exit statuses

A child that exits leaves its status with its parent, who collects it once. What the log of a run
says of creations, exits and collections determines who keeps a record of whom, and what status it
shows (`Chronicle`). So a parent that asks learns that the child runs, or its exit status, or, once
it has collected that, nothing any more; nobody else learns anything.

A parent that waits is blocked in the queue of the record until the child exits
(`Session.waits_until_exit`), which is why a wait that comes to its end finds a status
(`Session.logged_exitStatus`).
-/

namespace ThreadCore

variable {log : List Entry} {s s' : Session} {d : Deed} {p q c n t : ThreadId} {v : Int32}
  {K K' : Kinship} {b b' : Bond}

/-! ## What transitions do to exit statuses -/

namespace Deed

/-- The thread that the transition creates. -/
def creates : Deed → Option ThreadId
  | .call (.create _ _) (.done (.number n)) | .call (.spawn _ _ _) (.done (.number n)) => some n
  | _ => none

/-- The child whose exit status the transition collects. -/
def collects : Deed → Option ThreadId
  | .call (.awaitExit c) (.done _) | .call (.tryCollect c) (.done (.child (.exited _))) => some c
  | _ => none

/-- The exit status that the transition sets. -/
def setsStatus : Deed → Option Int32
  | .call (.setExitStatus v) _ => some v
  | _ => none

def exits : Deed → Bool
  | .call .exit _ => true
  | _ => false

theorem only_creates (h : d.creates = some n) :
    d.collects = none ∧ d.setsStatus = none ∧ d.exits = false := by
  unfold creates at h
  split at h <;> first | exact ⟨rfl, rfl, rfl⟩ | cases h

theorem only_collects (h : d.collects = some c) :
    d.creates = none ∧ d.setsStatus = none ∧ d.exits = false := by
  unfold collects at h
  split at h <;> first | exact ⟨rfl, rfl, rfl⟩ | cases h

theorem only_setsStatus (h : d.setsStatus = some v) :
    d.creates = none ∧ d.collects = none ∧ d.exits = false := by
  unfold setsStatus at h
  split at h <;> first | exact ⟨rfl, rfl, rfl⟩ | cases h

theorem only_exits (h : d.exits = true) :
    d.creates = none ∧ d.collects = none ∧ d.setsStatus = none := by
  unfold exits at h
  split at h <;> first | exact ⟨rfl, rfl, rfl⟩ | cases h

end Deed

namespace Kinship.Follows

variable (h : K.Follows t K' d)

include h

theorem create (hn : d.creates = some n) :
    n = K.nextThread ∧ t < K.nextThread ∧ K' = K.addChild t := by
  unfold Deed.creates at hn
  split at hn
  · cases hn
    exact h
  · cases hn
    exact h
  · cases hn

theorem collect (hc : d.collects = some c) :
    ∃ b, K.bond t c = some b ∧ b.status ≠ none ∧ K' = K.setBond t c none := by
  unfold Deed.collects at hc
  split at hc
  · cases hc
    obtain ⟨b, v, hb, hs, -, hK⟩ := h
    exact ⟨b, hb, by simp [hs], hK⟩
  · cases hc
    obtain ⟨b, hb, hs, hK⟩ := h
    exact ⟨b, hb, by simp [hs], hK⟩
  · cases hc

theorem set (hv : d.setsStatus = some v) : K.status t ≠ none ∧ K' = K.setStatus t v := by
  unfold Deed.setsStatus at hv
  split at hv
  · cases hv
    exact h
  · cases hv

theorem exit (he : d.exits = true) : K.Exits t K' := by
  unfold Deed.exits at he
  split at he
  · exact h
  · cases he

/-- Any other transition leaves the statuses alone, and the records but for their fork semaphores
and those who wait for exits. -/
theorem plain (hn : d.creates = none) (hc : d.collects = none) (hv : d.setsStatus = none)
    (he : d.exits = false) : K'.nextThread = K.nextThread ∧ K'.status = K.status ∧
      (∀ p c b', K'.bond p c = some b' → ∃ b, K.bond p c = some b ∧ b'.status = b.status ∧
        (b.status = none → b.exit.value = 0 → b'.exit.value = 0)) ∧
      ∀ p c b, K.bond p c = some b → ∃ b', K'.bond p c = some b' := by
  have hset : ∀ {q e : ThreadId} {b : Bond} (b' : Bond),
      K.bond q e = some b → b'.status = b.status →
      (b.status = none → b.exit.value = 0 → b'.exit.value = 0) → K' = K.setBond q e (some b') →
      K'.nextThread = K.nextThread ∧ K'.status = K.status ∧
        (∀ p c b', K'.bond p c = some b' → ∃ b, K.bond p c = some b ∧ b'.status = b.status ∧
          (b.status = none → b.exit.value = 0 → b'.exit.value = 0)) ∧
        ∀ p c b, K.bond p c = some b → ∃ b', K'.bond p c = some b' := by
    rintro q e b b' hb hs hx rfl
    refine ⟨rfl, rfl, fun p c x hx' => ?_, fun p c x hx' => ?_⟩
    · simp only [setBond] at hx'
      split at hx'
      · rename_i hqe
        obtain ⟨rfl, rfl⟩ := hqe
        cases hx'
        exact ⟨b, hb, hs, hx⟩
      · exact ⟨x, hx', rfl, fun _ h => h⟩
    · simp only [setBond]
      split
      · exact ⟨b', rfl⟩
      · exact ⟨x, hx'⟩
  unfold Follows at h
  split at h
  · cases hn
  · cases hn
  · cases he
  · cases hv
  · obtain ⟨p, b, o, -, hb, -, -, hK⟩ := h
    exact hset { b with forked := true, fork := o } hb rfl (fun _ h => h) hK
  · obtain ⟨b, hb, hK⟩ := h
    exact hset { b with fork := b.fork.taken t } hb rfl (fun _ h => h) hK
  · obtain ⟨b, hb, -, hK⟩ := h
    refine hset { b with exit := b.exit.taken t } hb rfl (fun _ hx => ?_) hK
    show (b.exit.taken t).value = 0
    rw [Semaphore.taken_of_zero hx]
    exact hx
  · cases hc
  · cases hc
  · subst h
    exact ⟨rfl, rfl, fun p c b hb => ⟨b, hb, rfl, fun _ h => h⟩, fun p c b hb => ⟨b, hb⟩⟩

/-- A record of another thread's child stays while the child lives, and whoever waits for the exit
goes on waiting. -/
theorem patient (hp : t ≠ p) (hc : ¬ (t = c ∧ d.exits = true)) (hb : K.bond p c = some b) :
    ∃ b', K'.bond p c = some b' ∧ b'.exit = b.exit := by
  have hset : ∀ q o, (K.setBond t q o).bond p c = some b := fun q o =>
    (if_neg fun h => hp h.1.symm).trans hb
  unfold Follows at h
  split at h
  · obtain ⟨-, -, rfl⟩ := h
    exact ⟨b, (if_neg fun h => hp h.1.symm).trans hb, rfl⟩
  · obtain ⟨-, -, rfl⟩ := h
    exact ⟨b, (if_neg fun h => hp h.1.symm).trans hb, rfl⟩
  · refine ⟨b, ?_, rfl⟩
    rw [h.bond p c (.inl fun he => hc ⟨he.symm, rfl⟩), if_neg hp.symm]
    exact hb
  · obtain ⟨-, rfl⟩ := h
    exact ⟨b, hb, rfl⟩
  · obtain ⟨q, x, o, -, hx, -, -, rfl⟩ := h
    by_cases hpc : p = q ∧ c = t
    · obtain ⟨rfl, rfl⟩ := hpc
      obtain rfl := Option.some.inj (hx.symm.trans hb)
      exact ⟨_, Kinship.setBond_bond_self .., rfl⟩
    · exact ⟨b, (if_neg hpc).trans hb, rfl⟩
  · obtain ⟨x, -, rfl⟩ := h
    exact ⟨b, hset _ _, rfl⟩
  · obtain ⟨x, -, -, rfl⟩ := h
    exact ⟨b, hset _ _, rfl⟩
  · obtain ⟨x, v, -, -, -, rfl⟩ := h
    exact ⟨b, hset _ _, rfl⟩
  · obtain ⟨x, -, -, rfl⟩ := h
    exact ⟨b, hset _ _, rfl⟩
  · exact ⟨b, h ▸ hb, rfl⟩

end Kinship.Follows

/-! ## What a log says of exit statuses -/

/-- `p` has created `c`. -/
def Created (log : List Entry) (p c : ThreadId) : Prop :=
  ∃ e ∈ log, e.caller = p ∧ e.deed.creates = some c

/-- `p` has collected the exit status of `c`. -/
def Collected (log : List Entry) (p c : ThreadId) : Prop :=
  ∃ e ∈ log, e.caller = p ∧ e.deed.collects = some c

instance (log : List Entry) (p c : ThreadId) : Decidable (Created log p c) :=
  inferInstanceAs (Decidable (∃ e ∈ log, e.caller = p ∧ e.deed.creates = some c))

instance (log : List Entry) (p c : ThreadId) : Decidable (Collected log p c) :=
  inferInstanceAs (Decidable (∃ e ∈ log, e.caller = p ∧ e.deed.collects = some c))

/-- The exit status that `t` has set last, or -1. -/
def lastStatus (t : ThreadId) : List Entry → Int32
  | [] => -1
  | e :: log => if e.caller = t then e.deed.setsStatus.getD (lastStatus t log) else lastStatus t log

/-- The exit status of `t` at its exit, if it has exited. -/
def statusLeft (t : ThreadId) : List Entry → Option Int32
  | [] => none
  | e :: log =>
    if e.caller = t ∧ e.deed.exits = true then some (lastStatus t log) else statusLeft t log

theorem created_cons : Created (⟨s, d, s'⟩ :: log) p c ↔
    (s.core.current = p ∧ d.creates = some c) ∨ Created log p c := by
  simp only [Created, List.mem_cons, exists_eq_or_imp, Entry.caller]

theorem collected_cons : Collected (⟨s, d, s'⟩ :: log) p c ↔
    (s.core.current = p ∧ d.collects = some c) ∨ Collected log p c := by
  simp only [Collected, List.mem_cons, exists_eq_or_imp, Entry.caller]

theorem created_cons_of (hn : d.creates = none) :
    Created (⟨s, d, s'⟩ :: log) p c ↔ Created log p c := by
  rw [created_cons, or_iff_right fun h => by simp [hn] at h]

theorem collected_cons_of (hc : d.collects = none) :
    Collected (⟨s, d, s'⟩ :: log) p c ↔ Collected log p c := by
  rw [collected_cons, or_iff_right fun h => by simp [hc] at h]

theorem lastStatus_cons_of (h : d.setsStatus = none) :
    lastStatus t (⟨s, d, s'⟩ :: log) = lastStatus t log := by
  rw [lastStatus]
  split
  · rw [h]
    rfl
  · rfl

theorem statusLeft_cons_of (h : d.exits = false) :
    statusLeft t (⟨s, d, s'⟩ :: log) = statusLeft t log :=
  if_neg fun he => by simp [h] at he

/-! ## Records agree with the log -/

/-- The records are those of children that were created and whose statuses were not collected,
unless the parent has exited, and they show the exit statuses of those that have exited. -/
structure Chronicle (log : List Entry) (K : Kinship) : Prop where
  fresh : ∀ n, K.nextThread ≤ n → lastStatus n log = -1 ∧ statusLeft n log = none ∧
    ∀ q, ¬ Created log q n ∧ ¬ Collected log q n
  unique : ∀ p q c, Created log p c → Created log q c → p = q
  status : ∀ t v, K.status t = some v → v = lastStatus t log ∧ statusLeft t log = none
  live : ∀ p c, Created log p c → statusLeft c log = none → K.status c ≠ none
  collected : ∀ p c, Collected log p c → statusLeft c log ≠ none
  bond : ∀ p c b, K.bond p c = some b → Created log p c ∧ ¬ Collected log p c ∧
    b.status = statusLeft c log ∧ (b.status = none → b.exit.value = 0)
  complete : ∀ p c, Created log p c → statusLeft p log = none → ¬ Collected log p c →
    ∃ b, K.bond p c = some b

namespace Chronicle

variable (H : Chronicle log K)

include H

theorem create (hn : d.creates = some n) (h : K.Follows s.core.current K' d) :
    Chronicle (⟨s, d, s'⟩ :: log) K' := by
  obtain ⟨rfl, -, rfl⟩ := h.create hn
  obtain ⟨hc, hv, hx⟩ := Deed.only_creates hn
  have hcreated : ∀ {p c}, Created (⟨s, d, s'⟩ :: log) p c ↔
      (s.core.current = p ∧ K.nextThread = c) ∨ Created log p c := by
    intro p c
    rw [created_cons, hn, Option.some.injEq]
  obtain ⟨hlast, hleft, hnone⟩ := H.fresh _ le_rfl
  refine ⟨fun m hm => ?_, fun p q c hp hq => ?_, fun t v ht => ?_, fun p c hcr hl => ?_,
    fun p c => ?_, fun p c b hb => ?_, fun p c hcr hl hco => ?_⟩
  · obtain ⟨h₁, h₂, h₃⟩ := H.fresh m ((Nat.le_succ _).trans hm)
    rw [lastStatus_cons_of hv, statusLeft_cons_of hx]
    refine ⟨h₁, h₂, fun q => ?_⟩
    rw [hcreated, collected_cons_of hc, not_or]
    refine ⟨⟨?_, (h₃ q).1⟩, (h₃ q).2⟩
    rintro ⟨-, rfl⟩
    exact Nat.not_succ_le_self _ hm
  · rcases hcreated.mp hp with ⟨h₁, rfl⟩ | hp
    · rcases hcreated.mp hq with ⟨h₂, -⟩ | hq
      · exact h₁.symm.trans h₂
      · exact absurd hq (hnone q).1
    · rcases hcreated.mp hq with ⟨-, rfl⟩ | hq
      · exact absurd hp (hnone p).1
      · exact H.unique p q c hp hq
  · rw [lastStatus_cons_of hv, statusLeft_cons_of hx]
    simp only [Kinship.addChild] at ht
    split at ht
    · rename_i he
      cases ht
      rw [he]
      exact ⟨hlast.symm, hleft⟩
    · exact H.status t v ht
  · rw [statusLeft_cons_of hx] at hl
    simp only [Kinship.addChild]
    split
    · simp
    · rename_i hne
      rcases hcreated.mp hcr with ⟨-, rfl⟩ | hcr
      · exact absurd rfl hne
      · exact H.live p c hcr hl
  · rw [collected_cons_of hc, statusLeft_cons_of hx]
    exact H.collected p c
  · rw [hcreated, collected_cons_of hc, statusLeft_cons_of hx]
    simp only [Kinship.addChild] at hb
    split at hb
    · rename_i hpc
      obtain ⟨rfl, rfl⟩ := hpc
      cases hb
      exact ⟨.inl ⟨rfl, rfl⟩, (hnone _).2, hleft.symm, fun _ => rfl⟩
    · obtain ⟨h₁, h₂⟩ := H.bond p c b hb
      exact ⟨.inr h₁, h₂⟩
  · rw [statusLeft_cons_of hx] at hl
    rw [collected_cons_of hc] at hco
    simp only [Kinship.addChild]
    split
    · exact ⟨_, rfl⟩
    · rename_i hpc
      rcases hcreated.mp hcr with ⟨rfl, rfl⟩ | hcr
      · exact absurd ⟨rfl, rfl⟩ hpc
      · exact H.complete p c hcr hl hco

theorem collect (hc : d.collects = some c) (h : K.Follows s.core.current K' d) :
    Chronicle (⟨s, d, s'⟩ :: log) K' := by
  obtain ⟨b, hb, hs, rfl⟩ := h.collect hc
  obtain ⟨hn, hv, hx⟩ := Deed.only_collects hc
  have hcollected : ∀ {p e}, Collected (⟨s, d, s'⟩ :: log) p e ↔
      (s.core.current = p ∧ c = e) ∨ Collected log p e := by
    intro p e
    rw [collected_cons, hc, Option.some.injEq]
  refine ⟨fun m hm => ?_, fun p q e => ?_, fun t v ht => ?_, fun p e => ?_, fun p e => ?_,
    fun p e x hx' => ?_, fun p e => ?_⟩
  · obtain ⟨h₁, h₂, h₃⟩ := H.fresh m hm
    rw [lastStatus_cons_of hv, statusLeft_cons_of hx]
    refine ⟨h₁, h₂, fun q => ?_⟩
    rw [created_cons_of hn, hcollected, not_or]
    refine ⟨(h₃ q).1, ?_, (h₃ q).2⟩
    rintro ⟨rfl, rfl⟩
    exact (h₃ _).1 (H.bond _ _ b hb).1
  · rw [created_cons_of hn, created_cons_of hn]
    exact H.unique p q e
  · rw [lastStatus_cons_of hv, statusLeft_cons_of hx]
    exact H.status t v ht
  · rw [created_cons_of hn, statusLeft_cons_of hx]
    exact H.live p e
  · rw [hcollected, statusLeft_cons_of hx]
    rintro (⟨rfl, rfl⟩ | hco)
    · rwa [← (H.bond _ _ b hb).2.2.1]
    · exact H.collected p e hco
  · rw [created_cons_of hn, hcollected, statusLeft_cons_of hx, not_or]
    simp only [Kinship.setBond] at hx'
    split at hx'
    · cases hx'
    · rename_i hpe
      obtain ⟨h₁, h₂, h₃⟩ := H.bond p e x hx'
      exact ⟨h₁, ⟨fun he => hpe ⟨he.1.symm, he.2.symm⟩, h₂⟩, h₃⟩
  · rw [created_cons_of hn, hcollected, statusLeft_cons_of hx, not_or]
    rintro hcr hl ⟨hpe, hco⟩
    simp only [Kinship.setBond]
    rw [if_neg fun he => hpe ⟨he.1.symm, he.2.symm⟩]
    exact H.complete p e hcr hl hco

theorem set (hv : d.setsStatus = some v) (ht : s.core.current < K.nextThread)
    (h : K.Follows s.core.current K' d) : Chronicle (⟨s, d, s'⟩ :: log) K' := by
  obtain ⟨hlive, rfl⟩ := h.set hv
  obtain ⟨hn, hc, hx⟩ := Deed.only_setsStatus hv
  have hlast : ∀ t, lastStatus t (⟨s, d, s'⟩ :: log) =
      if s.core.current = t then v else lastStatus t log := by
    intro t
    rw [lastStatus, hv]
    rfl
  refine ⟨fun m hm => ?_, fun p q c => ?_, fun t w ht' => ?_, fun p c => ?_, fun p c => ?_,
    fun p c b hb => ?_, fun p c => ?_⟩
  · rw [hlast, if_neg (ht.trans_le hm).ne, statusLeft_cons_of hx]
    obtain ⟨h₁, h₂, h₃⟩ := H.fresh m hm
    refine ⟨h₁, h₂, fun q => ?_⟩
    rw [created_cons_of hn, collected_cons_of hc]
    exact h₃ q
  · rw [created_cons_of hn, created_cons_of hn]
    exact H.unique p q c
  · rw [hlast, statusLeft_cons_of hx]
    simp only [Kinship.setStatus, Function.update_apply] at ht'
    split at ht'
    · rename_i he
      cases ht'
      obtain ⟨w, hw⟩ := Option.ne_none_iff_exists'.mp hlive
      rw [if_pos he.symm, he]
      exact ⟨rfl, (H.status _ w hw).2⟩
    · rename_i he
      rw [if_neg (Ne.symm he)]
      exact H.status t w ht'
  · rw [created_cons_of hn, statusLeft_cons_of hx]
    intro hcr hl
    simp only [Kinship.setStatus, Function.update_apply]
    split
    · simp
    · exact H.live p c hcr hl
  · rw [collected_cons_of hc, statusLeft_cons_of hx]
    exact H.collected p c
  · rw [created_cons_of hn, collected_cons_of hc, statusLeft_cons_of hx]
    exact H.bond p c b hb
  · rw [created_cons_of hn, collected_cons_of hc, statusLeft_cons_of hx]
    exact H.complete p c

/-- The status that a thread has when it exits is left behind, with its parent if it has one. -/
theorem exit (hK : K.Sound) (hx : d.exits = true) (ht : s.core.current < K.nextThread)
    (hgone : K'.status s.core.current = none) (h : K.Follows s.core.current K' d) :
    Chronicle (⟨s, d, s'⟩ :: log) K' := by
  have hex := h.exit hx
  obtain ⟨hn, hc, hv⟩ := Deed.only_exits hx
  obtain ⟨v, hv'⟩ := Option.ne_none_iff_exists'.mp hex.live
  obtain ⟨hlastv, hleft₀⟩ := H.status _ v hv'
  have hleft : ∀ t, statusLeft t (⟨s, d, s'⟩ :: log) =
      if s.core.current = t then some (lastStatus t log) else statusLeft t log := by
    intro t
    rw [statusLeft]
    exact if_congr (and_iff_left hx) rfl rfl
  refine ⟨fun m hm => ?_, fun p q c => ?_, fun t w ht' => ?_, fun p c => ?_, fun p c => ?_,
    fun p c b hb => ?_, fun p c => ?_⟩
  · rw [hex.nextThread] at hm
    rw [lastStatus_cons_of hv, hleft, if_neg (ht.trans_le hm).ne]
    obtain ⟨h₁, h₂, h₃⟩ := H.fresh m hm
    refine ⟨h₁, h₂, fun q => ?_⟩
    rw [created_cons_of hn, collected_cons_of hc]
    exact h₃ q
  · rw [created_cons_of hn, created_cons_of hn]
    exact H.unique p q c
  · have hne : t ≠ s.core.current := by
      rintro rfl
      rw [hgone] at ht'
      cases ht'
    rw [lastStatus_cons_of hv, hleft, if_neg hne.symm]
    rw [hex.status t hne] at ht'
    exact H.status t w ht'
  · rw [created_cons_of hn, hleft]
    intro hcr hl
    split at hl
    · cases hl
    · rename_i hne
      rw [hex.status c (Ne.symm hne)]
      exact H.live p c hcr hl
  · rw [collected_cons_of hc, hleft]
    intro hco
    split
    · simp
    · exact H.collected p c hco
  · rw [created_cons_of hn, collected_cons_of hc, hleft]
    by_cases hpc : c ≠ s.core.current ∨ K.parent s.core.current ≠ some p
    · rw [hex.bond p c hpc] at hb
      split at hb
      · cases hb
      obtain ⟨h₁, h₂, h₃, h₄⟩ := H.bond p c b hb
      have hne : s.core.current ≠ c := by
        rintro rfl
        -- A record of a thread that lives is kept by its parent.
        rw [hleft₀] at h₃
        exact hpc.elim (fun h => h rfl) fun h => h ((hK.agree p _).mpr ⟨b, hb, h₃⟩)
      rw [if_neg hne]
      exact ⟨h₁, h₂, h₃, h₄⟩
    · rw [not_or, not_not, not_not] at hpc
      obtain ⟨rfl, hp⟩ := hpc
      obtain ⟨w, b₀, b', hw, hb₀, hcl, hb'⟩ := hex.closes p hp
      obtain rfl := Option.some.inj (hb'.symm.trans hb)
      obtain rfl := Option.some.inj (hv'.symm.trans hw)
      obtain ⟨h₁, h₂, -⟩ := H.bond p _ b₀ hb₀
      rw [if_pos rfl, hcl.status, hlastv]
      exact ⟨h₁, h₂, rfl, nofun⟩
  · rw [created_cons_of hn, collected_cons_of hc, hleft]
    intro hcr hl hco
    split at hl
    · cases hl
    · rename_i hne
      obtain ⟨b, hb⟩ := H.complete p c hcr hl hco
      by_cases hpc : c ≠ s.core.current ∨ K.parent s.core.current ≠ some p
      · rw [hex.bond p c hpc, if_neg (Ne.symm hne)]
        exact ⟨b, hb⟩
      · rw [not_or, not_not, not_not] at hpc
        obtain ⟨rfl, hp⟩ := hpc
        obtain ⟨_, _, b', -, -, -, hb'⟩ := hex.closes p hp
        exact ⟨b', hb'⟩

/-- Any other transition. -/
theorem plain (hn : d.creates = none) (hc : d.collects = none) (hv : d.setsStatus = none)
    (hx : d.exits = false) (h : K.Follows s.core.current K' d) :
    Chronicle (⟨s, d, s'⟩ :: log) K' := by
  obtain ⟨hnext, hstatus, hbond, hkeep⟩ := h.plain hn hc hv hx
  refine ⟨fun m hm => ?_, fun p q c => ?_, fun t w ht => ?_, fun p c => ?_, fun p c => ?_,
    fun p c b' hb' => ?_, fun p c => ?_⟩
  · rw [hnext] at hm
    rw [lastStatus_cons_of hv, statusLeft_cons_of hx]
    obtain ⟨h₁, h₂, h₃⟩ := H.fresh m hm
    refine ⟨h₁, h₂, fun q => ?_⟩
    rw [created_cons_of hn, collected_cons_of hc]
    exact h₃ q
  · rw [created_cons_of hn, created_cons_of hn]
    exact H.unique p q c
  · rw [lastStatus_cons_of hv, statusLeft_cons_of hx]
    rw [hstatus] at ht
    exact H.status t w ht
  · rw [created_cons_of hn, statusLeft_cons_of hx, hstatus]
    exact H.live p c
  · rw [collected_cons_of hc, statusLeft_cons_of hx]
    exact H.collected p c
  · rw [created_cons_of hn, collected_cons_of hc, statusLeft_cons_of hx]
    obtain ⟨b, hb, hs, he⟩ := hbond p c b' hb'
    obtain ⟨h₁, h₂, h₃, h₄⟩ := H.bond p c b hb
    rw [hs]
    exact ⟨h₁, h₂, h₃, fun hnone => he hnone (h₄ hnone)⟩
  · rw [created_cons_of hn, collected_cons_of hc, statusLeft_cons_of hx]
    intro hcr hl hco
    obtain ⟨b, hb⟩ := H.complete p c hcr hl hco
    exact hkeep p c b hb

/-- Every transition keeps the records in agreement with the log. -/
theorem step (hK : K.Sound) (ht : K.status s.core.current ≠ none → s.core.current < K.nextThread)
    (hgone : d.exits = true → K'.status s.core.current = none)
    (h : K.Follows s.core.current K' d) : Chronicle (⟨s, d, s'⟩ :: log) K' := by
  cases hn : d.creates with
  | some n => exact H.create hn h
  | none =>
    cases hc : d.collects with
    | some c => exact H.collect hc h
    | none =>
      cases hv : d.setsStatus with
      | some v => exact H.set hv (ht (h.set hv).1) h
      | none =>
        cases hx : d.exits with
        | true => exact H.exit hK hx (ht (h.exit hx).live) (hgone hx) h
        | false => exact H.plain hn hc hv hx h

end Chronicle

namespace Core

variable {k k' : Core} {r : ChildRecord} {th : Thread}

/-! ## Collecting -/

theorem collect_of_none (hth : k.threads[p]? = some th) (hr : k.recordOf p c = none) :
    collect p c k = .ok (.error .noSuchEntry) k := by
  unfold collect
  rw [ask_bind_of_ok (childRecord_eq_ok.mpr ⟨⟨th, hth⟩, hr⟩)]
  rfl

theorem collect_of_live (hth : k.threads[p]? = some th) (hr : k.recordOf p c = some r)
    (hs : r.status = none) : collect p c k = .ok (.ok .running) k := by
  unfold collect
  rw [ask_bind_of_ok (childRecord_eq_ok.mpr ⟨⟨th, hth⟩, hr⟩)]
  simp only [hs]
  rfl

theorem collect_of_exited (hth : k.threads[p]? = some th) (hr : k.recordOf p c = some r)
    (hs : r.status = some v) :
    ∃ k', collect p c k = .ok (.ok (.exited v)) k' ∧ k'.current = k.current := by
  set m := k.mapFamily p fun f => { f with children := f.children.erase c }
  have hchange : changeFamily p (fun f => { f with children := f.children.erase c }) k = .ok () m :=
    changeFamily_eq_ok.mpr ⟨⟨th, hth⟩, rfl⟩
  have hdrop : ∃ k', dropRecord r m = .ok () k' ∧ k'.current = k.current := ⟨_, rfl, rfl⟩
  obtain ⟨k', hk', hcurrent⟩ := hdrop
  refine ⟨k', ?_, hcurrent⟩
  unfold collect
  rw [ask_bind_of_ok (childRecord_eq_ok.mpr ⟨⟨th, hth⟩, hr⟩)]
  simp only [hs]
  rw [bind_of_ok hchange, bind_of_ok hk']
  rfl

theorem spares_changeFamily (t : ThreadId) (f : Family → Family) : Spares (changeFamily t f) :=
  spares_changeThread _ _

theorem childRecord_spares {e : Halt} (h : k.childRecord p c = .error e) : ¬ e.OfWait := by
  unfold childRecord at h
  simp only [except_bind_error] at h
  rcases h with h | ⟨_, -, h⟩
  · exact thread_spares h
  · cases h

theorem spares_collect (p c : ThreadId) : Spares (collect p c) := by
  refine (spares_ask fun _ _ => childRecord_spares).bind fun o => ?_
  split
  · exact spares_pure _
  · split
    · exact spares_pure _
    · exact (spares_changeFamily _ _).bind fun _ =>
        ((spares_modify _).bind fun _ => spares_modify _).bind fun _ => spares_pure _

namespace Poised

variable {x : Semaphore}

theorem tryCollect_eq (h : k.Poised .running) (hr : k.running = .ok th) :
    Core.tryCollect c k = Core.collect k.current c k := by
  unfold Core.tryCollect
  rw [ask_bind_of_ok hr, (h.running_id hr).1]

/-- A wait for a child that lives ends in the name of another thread. -/
theorem awaitExit_of_live (h : k.Poised .running) (hi : k.current ≠ k.idle)
    (hr : k.recordOf k.current c = some r) (hs : r.status = none)
    (hx : k.objects.semaphores[r.exitSemaphore]? = some x) (hv : x.value = 0)
    {a : Except Refusal Int32} (he : Core.awaitExit c k = .ok a k') :
    a = .error .busy ∧ k'.seating.state k.current = some .blocked ∧
      k'.recordOf k.current c = some r ∧
      k.current ∈ k'.seating.queue (.semaphore r.exitSemaphore) := by
  unfold Core.awaitExit at he
  simp only [ask_bind_eq_ok] at he
  obtain ⟨th, hth, he⟩ := he
  obtain ⟨hid, hlive⟩ := h.running_id hth
  rw [hid, bind_of_ok (collect_of_live hlive hr hs)] at he
  simp only at he
  rw [ask_bind_of_ok (childRecord_eq_ok.mpr ⟨⟨th, hlive⟩, hr⟩)] at he
  simp only at he
  rw [bind_eq_ok] at he
  obtain ⟨_, n, hn, he⟩ := he
  obtain ⟨hmem, hne, hb⟩ := h.down_empty hi hx hv hn
  obtain ⟨_, _, -, -, hset, -⟩ := down_sets hn
  rw [get_bind_eq_ok, if_pos hne] at he
  obtain ⟨rfl, rfl⟩ := pure_eq_ok.mp he
  exact ⟨rfl, hb, by rw [recordOf_congr hset.ties, hr], hmem⟩

/-- A wait never ends in the name of the same thread while the child lives. -/
theorem awaitExit_error (h : k.Poised .running) (hi : k.current ≠ k.idle)
    (hv : ∀ r x, k.recordOf k.current c = some r → r.status = none →
      k.objects.semaphores[r.exitSemaphore]? = some x → x.value = 0)
    {e : Halt} (he : Core.awaitExit c k = .error e k') : ¬ e.OfWait := by
  intro hw
  unfold Core.awaitExit at he
  obtain ⟨th, hth, he⟩ := of_ask_bind (fun _ => running_spares) he hw
  rw [(h.running_id hth).1] at he
  obtain ⟨first, m, hm, he⟩ := (spares_collect _ _).of_bind he hw
  rcases first with refusal | _ | _
  · cases he
  · cases he
  · obtain ⟨rfl, r, hr, hs⟩ := collect_running hm
    obtain ⟨o, ho, he⟩ := of_ask_bind (fun _ => childRecord_spares) he hw
    obtain rfl := (childRecord_eq_ok.mp ho).2.symm.trans hr
    obtain ⟨_, n, hn, he⟩ := (spares_down _).of_bind he hw
    obtain ⟨_, x, -, hx, -⟩ := down_sets hn
    obtain ⟨-, hne, -⟩ := h.down_empty hi hx (hv r x hr hs hx) hn
    obtain ⟨n', _, hget, he⟩ := spares_get.of_bind he hw
    cases hget
    rw [if_pos hne] at he
    cases he

end Poised

end Core

namespace Session

variable {frames : List Bool} {th : Thread} {r : ChildRecord}

/-! ## Runs -/

/-- In every run the records agree with the log. -/
theorem Logged.chronicle {allowed : List Entry → Session → Call → Prop}
    (h : Logged allowed log frames s) : Chronicle log s.core.kinship := by
  have hnone : ∀ {f : Entry → Prop}, ¬ ∃ e ∈ ([] : List Entry), f e := by
    rintro f ⟨e, he, -⟩
    cases he
  refine h.invariant (P := fun log s => Chronicle log s.core.kinship)
    (fun setup config k _ hk => ?_) fun log frames s d s' hs H hd _ => ?_
  · obtain ⟨-, hbond, -, hstatus⟩ := kinship_boot hk
    exact ⟨fun n _ => ⟨rfl, rfl, fun q => ⟨hnone, hnone⟩⟩, fun p q c hp => absurd hp hnone,
      fun t v hv => ⟨hstatus t v hv, rfl⟩, fun p c hcr => absurd hcr hnone,
      fun p c hco => absurd hco hnone, fun p c b hb => absurd ((hbond p c).symm.trans hb) (by simp),
        fun p c hcr => absurd hcr hnone⟩
  · obtain ⟨hK, office, hd'⟩ := hs.kindred
    refine H.step hK hs.kindred.live_lt (fun hx => ?_) (leads_kinship hs.kindred hd).2
    cases hd with
    | call he =>
      unfold Deed.exits at hx
      split at hx
      · rename_i a hcall
        obtain ⟨rfl, rfl⟩ := Deed.call.inj hcall
        obtain ⟨_, k, hk, -, rfl⟩ := report_ok.mp he
        obtain ⟨-, -, -, hgone, -⟩ := Core.exit_kinship hd'.assigned hK hk
        exact hgone (hs.steered.exit hk)
      · cases hx
    | enter _ => cases hx
    | leave _ => cases hx

/-- `p` is blocked in the queue for the exit of `c`. -/
def WaitsForExit (s : Session) (p c : ThreadId) : Prop :=
  s.core.seating.state p = some .blocked ∧ ∃ r, s.core.recordOf p c = some r ∧
    p ∈ s.core.seating.queue (.semaphore r.exitSemaphore)

theorem WaitsForExit.exists_bond (hs : s.Kindred) (h : s.WaitsForExit p c) :
    ∃ b, s.core.kinship.bond p c = some b ∧ p ∈ b.exit.waiters.entries := by
  obtain ⟨-, office, hd⟩ := hs
  obtain ⟨-, r, hr, hmem⟩ := h
  obtain ⟨f, e, -, he, hb⟩ := hd.assigned.bond hr
  exact ⟨_, hb, Core.queue_semaphore he ▸ hmem⟩

theorem waitsForExit_of_bond (hk : s.core.Poised .running) (hi : p ≠ s.core.idle)
    (hb : s.core.kinship.bond p c = some b) (hmem : p ∈ b.exit.waiters.entries) :
    s.WaitsForExit p c := by
  obtain ⟨r, hr, -, he, -⟩ := Core.of_bond hb
  have hmem : p ∈ s.core.seating.queue (.semaphore r.exitSemaphore) :=
    Core.queue_semaphore he ▸ hmem
  exact ⟨(hk.blocked (p := .semaphore r.exitSemaphore) nofun hmem hi).2, r, hr, hmem⟩

/-- **Waiting.** A parent that waits for an exit is woken by the exit, and by nothing else. -/
theorem waits_until_exit (h : Logged (fun _ => Loose) log frames s) (hi : p ≠ s.core.idle)
    (hw : s.WaitsForExit p c) (hd : Leads s d s') (hl : ∀ x a, d = .call x a → Loose s x) :
    if s.core.current = c ∧ d.exits = true then s'.core.Awake p else s'.WaitsForExit p c := by
  have hk := h.poised fun _ _ _ h => h
  obtain ⟨b, hb, hmem⟩ := hw.exists_bond h.kindred
  obtain ⟨hK, office, hdis⟩ := h.kindred
  split
  · rename_i hx
    obtain ⟨rfl, hx⟩ := hx
    cases hd with
    | call he =>
      unfold Deed.exits at hx
      split at hx
      · rename_i a hcall
        obtain ⟨rfl, rfl⟩ := Deed.call.inj hcall
        obtain ⟨_, k, hk', -, rfl⟩ := report_ok.mp he
        obtain ⟨-, -, hex, -, hwakes⟩ := Core.exit_kinship hdis.assigned hK hk'
        -- The child lives, so the record shows no status and `p` is the parent.
        obtain ⟨v, hv⟩ := Option.ne_none_iff_exists'.mp hex.live
        have hstatus := (h.chronicle.bond p _ b hb).2.2.1.trans (h.chronicle.status _ v hv).2
        exact hwakes p b ((hK.agree p _).mpr ⟨b, hb, hstatus⟩) hb (h.served p _ b hb)
          (.inr (List.ne_nil_of_mem hmem))
      · cases hx
    | enter _ => cases hx
    | leave _ => cases hx
  · rename_i hx
    obtain ⟨r, -, hmem'⟩ := hw.2
    have hne := (hk.blocked (p := .semaphore r.exitSemaphore) nofun hmem' hi).1
    obtain ⟨b', hb', he⟩ := (leads_kinship h.kindred hd).2.patient hne.symm hx hb
    have hk' := leads_poised hk hl hd
    refine waitsForExit_of_bond hk' ?_ hb' (he ▸ hmem)
    rwa [hk'.home, ← hk.home]

/-! ## Asking for a status -/

theorem asks_none (hk : s.core.Poised .running) (hth : s.core.running = .ok th)
    (hr : s.core.recordOf s.core.current c = none) :
    execute (.awaitExit c) s = .ok (.refused .noSuchEntry) s ∧
      execute (.tryCollect c) s = .ok (.refused .noSuchEntry) s := by
  have hcollect := Core.collect_of_none (hk.running_id hth).2 hr
  refine ⟨report_ok.mpr ⟨.error .noSuchEntry, s.core, ?_, rfl, rfl⟩,
    report_ok.mpr ⟨.error .noSuchEntry, s.core, ?_, rfl, rfl⟩⟩
  · unfold Core.awaitExit
    rw [Core.ask_bind_of_ok hth, (hk.running_id hth).1, bind_of_ok hcollect]
    rfl
  · exact (hk.tryCollect_eq hth).trans hcollect

theorem asks_live (hk : s.core.Poised .running) (hth : s.core.running = .ok th)
    (hr : s.core.recordOf s.core.current c = some r) (hs : r.status = none) :
    execute (.tryCollect c) s = .ok (.done (.child .running)) s :=
  report_ok.mpr ⟨_, s.core, (hk.tryCollect_eq hth).trans
    (Core.collect_of_live (hk.running_id hth).2 hr hs), rfl, rfl⟩

theorem asks_exited (hk : s.core.Poised .running) (hth : s.core.running = .ok th)
    (hr : s.core.recordOf s.core.current c = some r) (hs : r.status = some v) :
    (∃ s', execute (.awaitExit c) s = .ok (.done (.integer v.toInt)) s' ∧
      s'.core.current = s.core.current) ∧
    ∃ s', execute (.tryCollect c) s = .ok (.done (.child (.exited v))) s' ∧
      s'.core.current = s.core.current := by
  obtain ⟨k, hcollect, hcurrent⟩ := Core.collect_of_exited (hk.running_id hth).2 hr hs
  refine ⟨⟨{ s with core := k }, report_ok.mpr ⟨.ok v, k, ?_, rfl, rfl⟩, hcurrent⟩,
    { s with core := k }, report_ok.mpr ⟨.ok (.exited v), k, ?_, rfl, rfl⟩, hcurrent⟩
  · unfold Core.awaitExit
    rw [Core.ask_bind_of_ok hth, (hk.running_id hth).1, bind_of_ok hcollect]
    rfl
  · exact (hk.tryCollect_eq hth).trans hcollect

section

variable (h : Logged (fun _ => Loose) log frames s)

include h

/-- Whoever lives has left no status. -/
theorem Logged.statusLeft_of_live (ht : s.core.threads[t]? = some th) : statusLeft t log = none :=
  (h.chronicle.status t th.family.exitStatus (by rw [Core.status_eq, ht]; rfl)).2

theorem Logged.mem_threads_iff (hcr : Created log p c) :
    c ∈ s.core.threads ↔ statusLeft c log = none := by
  constructor
  · intro hc
    exact h.statusLeft_of_live (Std.ExtTreeMap.getElem?_eq_some_getElem hc)
  · intro hl
    have hlive := h.chronicle.live p c hcr hl
    by_contra hc
    exact hlive (by rw [Core.status_eq, Std.ExtTreeMap.getElem?_eq_none hc]; rfl)

/-- The record that a live parent keeps of a child whose status it has not collected. -/
theorem Logged.exists_record (hcr : Created log p c) (hco : ¬ Collected log p c)
    (hp : statusLeft p log = none) :
    ∃ r, s.core.recordOf p c = some r ∧ r.status = statusLeft c log ∧
      (r.status = none → ∀ x, s.core.objects.semaphores[r.exitSemaphore]? = some x →
        x.value = 0) := by
  obtain ⟨b, hb⟩ := h.chronicle.complete p c hcr hp hco
  obtain ⟨-, -, hstatus, hzero⟩ := h.chronicle.bond p c b hb
  obtain ⟨r, hr, -, he, -, hs⟩ := Core.of_bond hb
  refine ⟨r, hr, hs ▸ hstatus, fun hnone x hx => ?_⟩
  rw [← Option.some.inj (he.symm.trans hx)]
  exact hzero (hs.trans hnone)

/-- A wait that halts does so for another reason than that it was over too early. -/
theorem Logged.awaitExit_error (hi : s.core.current ≠ s.core.idle) {e : Halt}
    (he : execute (.awaitExit c) s = .error e s') : ¬ e.OfWait := by
  obtain ⟨k, he, -⟩ := report_eq_error.mp he
  refine (h.poised fun _ _ _ h => h).awaitExit_error hi (fun r x hr hs hx => ?_) he
  obtain ⟨-, office, hd⟩ := h.kindred
  obtain ⟨f, x', -, hx', hb⟩ := hd.assigned.bond hr
  rw [Option.some.inj (hx.symm.trans hx')]
  exact (h.chronicle.bond _ c _ hb).2.2.2 hs

end

/-- **A status is delivered once.** While a child lives, its parent learns that it runs, or waits
for it; the parent is woken by the exit and by nothing else. Once the child has exited, the first
call of the parent returns the status at the exit, at once. Later calls, and the calls of others,
return nothing. No wait is ever over too early. -/
theorem logged_exitStatus (h : Logged (fun _ => Loose) log frames s) :
    (∀ p c, Created log p c → p ≠ s.core.idle →
      (c ∈ s.core.threads ↔ statusLeft c log = none) ∧
      (c ∈ s.core.threads → s.core.current = p →
        (∀ th, s.core.running = .ok th →
          execute (.tryCollect c) s = .ok (.done (.child .running)) s) ∧
        ∀ a s', execute (.awaitExit c) s = .ok a s' → a = .refused .busy ∧ s'.WaitsForExit p c) ∧
      (s.WaitsForExit p c → ∀ d s', Leads s d s' → (∀ x a, d = .call x a → Loose s x) →
        if s.core.current = c ∧ d.exits = true then s'.core.Awake p else s'.WaitsForExit p c) ∧
      (∀ v, statusLeft c log = some v → ¬ Collected log p c → s.core.current = p →
        ∀ th, s.core.running = .ok th →
          (∃ s', execute (.awaitExit c) s = .ok (.done (.integer v.toInt)) s' ∧
            s'.core.current = p) ∧
          ∃ s', execute (.tryCollect c) s = .ok (.done (.child (.exited v))) s' ∧
            s'.core.current = p) ∧
      (Collected log p c ∨ s.core.current ≠ p → ∀ th, s.core.running = .ok th →
        execute (.awaitExit c) s = .ok (.refused .noSuchEntry) s ∧
          execute (.tryCollect c) s = .ok (.refused .noSuchEntry) s)) ∧
    (s.core.current ≠ s.core.idle → ∀ c e s', execute (.awaitExit c) s = .error e s' →
      ∀ t x, e ≠ .wokenEarly t x) := by
  have hk := h.poised fun _ _ _ h => h
  have H := h.chronicle
  obtain ⟨-, office, hd⟩ := h.kindred
  have hcurrent : statusLeft s.core.current log = none := by
    obtain ⟨th, hth⟩ := hk.live_current
    exact h.statusLeft_of_live hth
  refine ⟨fun p c hcr hp => ⟨h.mem_threads_iff hcr, fun hc hcur => ?_,
    fun hw d s' hl hloose => waits_until_exit h hp hw hl hloose, fun v hv hco hcur th hth => ?_,
    fun hor th hth => ?_⟩, fun hi c e s' he t x => ?_⟩
  · subst hcur
    have hlives := (h.mem_threads_iff hcr).mp hc
    have hco : ¬ Collected log s.core.current c := fun hco => H.collected _ c hco hlives
    obtain ⟨r, hr, hs, hzero⟩ := h.exists_record hcr hco hcurrent
    rw [hlives] at hs
    refine ⟨fun th hth => asks_live hk hth hr hs, fun a s' he => ?_⟩
    obtain ⟨b, k, hk', rfl, rfl⟩ := report_ok.mp he
    obtain ⟨f, x, -, hx, -⟩ := hd.assigned.bond hr
    obtain ⟨rfl, hb, hr', hmem⟩ := hk.awaitExit_of_live hp hr hs hx (hzero hs x hx) hk'
    exact ⟨rfl, hb, r, hr', hmem⟩
  · subst hcur
    obtain ⟨r, hr, hs, -⟩ := h.exists_record hcr hco hcurrent
    exact asks_exited hk hth hr (hs.trans hv)
  · refine asks_none hk hth ?_
    cases hr : s.core.recordOf s.core.current c with
    | none => rfl
    | some r =>
      obtain ⟨f, x, -, -, hb⟩ := hd.assigned.bond hr
      obtain ⟨hcr', hco, -⟩ := H.bond _ c _ hb
      have hpc := H.unique _ _ c hcr hcr'
      subst hpc
      exact hor.elim (fun h => absurd h hco) fun h => absurd rfl h
  · rintro rfl
    exact h.awaitExit_error hi he trivial

/-- A parent waits for its child, is woken by its exit, and is told the status that the child has
set. -/
theorem logged_exitStatus_collected : ∃ log s s', Logged (fun _ => Loose) log [] s ∧
    Created log 1 3 ∧ lastStatus 3 log = 7 ∧ s.core.current = 1 ∧
    execute (.awaitExit 3) s = .ok (.done (.integer 7)) s' ∧ s'.core.current = 1 := by
  have hrun : (replayFrom (fun _ => isPlain) ⟨none, none, none, false, none⟩
      [.create "child" 20, .awaitExit 3, .setExitStatus 7, .exit]).any (fun r =>
        (Created r.1 1 3 ∧ lastStatus 3 r.1 = 7 ∧ statusLeft 3 r.1 = some 7 ∧ ¬ Collected r.1 1 3) ∧
        r.2.core.current = 1 ∧ r.2.core.idle ≠ 1 ∧ r.2.core.running.isOk = true) = true := by
    decide +kernel
  obtain ⟨⟨log, s⟩, hs, hrun⟩ := (Option.any_eq_true _ _).mp hrun
  obtain ⟨⟨hcr, hlast, hleft, hco⟩, hcurrent, hidle, hth⟩ := of_decide_eq_true hrun
  obtain ⟨th, hth⟩ : ∃ th, s.core.running = .ok th := by
    cases h : s.core.running with
    | ok th => exact ⟨th, rfl⟩
    | error e =>
      rw [h] at hth
      cases hth
  have hlog : Logged (fun _ => Loose) log [] s :=
    logged_replayFrom (fun _ _ _ hc => Loose.plain (isPlain_iff.mp hc).1) hs
  obtain ⟨-, -, -, hexited, -⟩ := (logged_exitStatus hlog).1 1 3 hcr hidle.symm
  obtain ⟨⟨s', he, hcurrent'⟩, -⟩ := hexited 7 hleft hco hcurrent th hth
  exact ⟨log, s, s', hlog, hcr, hlast, hcurrent, he, hcurrent'⟩

end Session

end ThreadCore
