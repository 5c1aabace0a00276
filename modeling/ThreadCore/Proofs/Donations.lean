import ThreadCore.Proofs.WaitGraph

/-!
# How the graph of waits changes

The changes that operations make to the graph, each as a function on `Waits`, and the rules they
keep.

1. A lock that nobody waits for is taken or freed (`Sound.setHolder`).
2. A thread begins to wait (`enqueue`). This leaves the holder unbalanced, and nobody else;
   computing its priority again passes the imbalance on to the next link of the chain
   (`BalancedBut.settle`).
3. A lock is handed over to one of its waiters (`Sound.handOver`).
4. A thread that waits for nothing gets another base priority (`Sound.rebase`).
-/

namespace ThreadCore.Waits

open Relation

variable {w : Waits} {t u d s n : ThreadId} {l : ObjectId} {p : Priority}

/-! ## Changes of one part -/

def setHolder (w : Waits) (l : ObjectId) (o : Option ThreadId) : Waits :=
  { w with holder := Function.update w.holder l o }

def setWaiters (w : Waits) (l : ObjectId) (ts : List ThreadId) : Waits :=
  { w with waiters := Function.update w.waiters l ts }

def setWaitsFor (w : Waits) (t : ThreadId) (o : Option ObjectId) : Waits :=
  { w with waitsFor := Function.update w.waitsFor t o }

def setDonors (w : Waits) (t : ThreadId) (ds : List ThreadId) : Waits :=
  { w with donors := Function.update w.donors t ds }

def setBase (w : Waits) (t : ThreadId) (p : Priority) : Waits :=
  { w with base := Function.update w.base t p }

def setPriority (w : Waits) (t : ThreadId) (p : Priority) : Waits :=
  { w with priority := Function.update w.priority t p }

/-- Nobody but perhaps `u` is out of balance. -/
def BalancedBut (w : Waits) (u : Option ThreadId) : Prop :=
  ∀ t, u ≠ some t → w.priority t = w.due t

theorem balancedBut_none : w.BalancedBut none ↔ w.Balanced := by
  simp [BalancedBut, Balanced]

/-! ## Locks without waiters -/

/-- A lock that nobody waits for has no part in the graph. -/
theorem Sound.setHolder (h : w.Sound) (hl : w.waiters l = []) (o : Option ThreadId) :
    (w.setHolder l o).Sound := by
  have hne : ∀ {t m}, w.waitsFor t = some m → m ≠ l := by
    rintro t m ht rfl
    have hm := (h.wired.waitsFor_iff t m).mp ht
    simp [hl] at hm
  have hawaits : (w.setHolder l o).Awaits = w.Awaits := by
    funext t u
    simp only [awaits_iff, Waits.setHolder, eq_iff_iff]
    refine exists_congr fun m => and_congr_right fun ht => ?_
    rw [Function.update_of_ne (hne ht)]
  refine ⟨⟨h.wired.waitsFor_iff, ?_, h.wired.nodup_donors, ?_, ?_⟩, h.balanced⟩
  · intro t m hm
    obtain ⟨u, hu⟩ := h.wired.held t m hm
    exact ⟨u, (Function.update_of_ne (hne ((h.wired.waitsFor_iff t m).mpr hm)) _ _).trans hu⟩
  · rw [hawaits]
    exact h.wired.mem_donors
  · rw [hawaits]
    exact h.wired.acyclic

/-! ## Priorities -/

theorem due_setPriority_of_not_mem (hu : u ∉ w.donors t) : (w.setPriority u p).due t = w.due t := by
  refine due_congr rfl rfl fun d hd => ?_
  have hdu : d ≠ u := fun e => hu (e ▸ hd)
  exact Function.update_of_ne hdu _ _

/-- Computing a priority again passes the imbalance on to whom the thread waits for. -/
theorem BalancedBut.settle (h : w.BalancedBut (some u))
    (hn : ∀ t, u ∈ w.donors t → w.next u = some t) :
    (w.setPriority u (w.due u)).BalancedBut (w.next u) := by
  intro t ht
  have hut : u ∉ w.donors t := fun hd => ht (hn t hd)
  rw [due_setPriority_of_not_mem hut]
  by_cases htu : t = u
  · subst htu
    exact Function.update_self ..
  · rw [← h t fun e => htu (Option.some.inj e).symm]
    exact Function.update_of_ne htu _ _

/-- Nobody has more than is due. -/
def Rising (w : Waits) : Prop := ∀ t, w.priority t ≤ w.due t

theorem Rising.le_setPriority (h : w.Rising) (u t : ThreadId) :
    w.priority t ≤ (w.setPriority u (w.due u)).priority t := by
  by_cases htu : t = u
  · subst htu
    simpa [Waits.setPriority] using h t
  · simp [Waits.setPriority, htu]

theorem Rising.settle (h : w.Rising) (u : ThreadId) : (w.setPriority u (w.due u)).Rising := by
  have hmono : ∀ t, w.due t ≤ (w.setPriority u (w.due u)).due t := by
    intro t
    refine due_le (base_le_due (w.setPriority u (w.due u)) t) fun d hd => ?_
    exact (h.le_setPriority u d).trans (priority_le_due hd)
  intro t
  by_cases htu : t = u
  · subst htu
    simpa [Waits.setPriority] using hmono t
  · have hle := (h t).trans (hmono t)
    simpa [Waits.setPriority, htu] using hle

/-! ## A thread begins to wait -/

/-- `t` waits for lock `l` and donates to its holder. -/
def enqueue (w : Waits) (t : ThreadId) (l : ObjectId) (holder : ThreadId) : Waits :=
  ((w.setWaiters l (w.waiters l ++ [t])).setWaitsFor t (some l)).setDonors holder
    (w.donors holder ++ [t])

theorem awaits_enqueue (hl : w.holder l = some s) (ht : w.waitsFor t = none) {a b : ThreadId} :
    (w.enqueue t l s).Awaits a b ↔ w.Awaits a b ∨ (a = t ∧ b = s) := by
  simp only [awaits_iff, enqueue, Waits.setDonors, Waits.setWaitsFor, Waits.setWaiters]
  by_cases ha : a = t
  · subst ha
    simp [ht, hl, eq_comm]
  · simp [ha]

theorem Wired.mem_donors_enqueue (h : w.Wired) (hl : w.holder l = some s)
    (ht : w.waitsFor t = none) (a d : ThreadId) :
    d ∈ (w.enqueue t l s).donors a ↔ (w.enqueue t l s).Awaits d a := by
  have hts : t ∉ w.donors s := fun hd => not_awaits ht s ((h.mem_donors s t).mp hd)
  rw [awaits_enqueue hl ht, ← h.mem_donors]
  simp only [Waits.enqueue, Waits.setDonors, Waits.setWaitsFor, Waits.setWaiters,
    Function.update_apply]
  grind

theorem Wired.enqueue (h : w.Wired) (hl : w.holder l = some s) (ht : w.waitsFor t = none)
    (hx : ¬ TransGen (w.enqueue t l s).Awaits t t) : (w.enqueue t l s).Wired := by
  have htq : ∀ m, t ∉ w.waiters m := fun m hm => by
    have := (h.waitsFor_iff t m).mpr hm
    rw [ht] at this
    cases this
  have hts : t ∉ w.donors s := fun hd => not_awaits ht s ((h.mem_donors s t).mp hd)
  constructor
  · intro a m
    have := h.waitsFor_iff a m
    simp only [Waits.enqueue, Waits.setDonors, Waits.setWaitsFor, Waits.setWaiters,
      Function.update_apply]
    grind
  · intro a m ham
    simp only [Waits.enqueue, Waits.setDonors, Waits.setWaitsFor, Waits.setWaiters,
      Function.update_apply] at ham ⊢
    have := h.held a m
    grind
  · intro a
    have hs := h.nodup_donors s
    have ha := h.nodup_donors a
    simp only [Waits.enqueue, Waits.setDonors, Waits.setWaitsFor, Waits.setWaiters,
      Function.update_apply]
    grind
  · exact h.mem_donors_enqueue hl ht
  · exact h.acyclic.of_source (fun a b hab => ((awaits_enqueue hl ht).mp hab).imp id And.left) hx

/-- A thread that begins to wait leaves nobody out of balance but the holder. -/
theorem Balanced.enqueue (h : w.Balanced) : (w.enqueue t l s).BalancedBut (some s) := by
  intro a ha
  have has : a ≠ s := fun e => ha (e ▸ rfl)
  have hd : (w.enqueue t l s).donors a = w.donors a := Function.update_of_ne has _ _
  have hdue : (w.enqueue t l s).due a = w.due a := due_congr rfl hd fun _ _ => rfl
  rw [hdue]
  exact h a

theorem Balanced.rising_enqueue (h : w.Balanced) : (w.enqueue t l s).Rising := by
  intro a
  by_cases has : a = s
  · subst has
    show w.priority a ≤ _
    rw [h a]
    refine due_le (base_le_due (w.enqueue t l a) a) fun d hd => ?_
    have hmem : d ∈ (w.enqueue t l a).donors a := by simp [Waits.enqueue, Waits.setDonors, hd]
    exact priority_le_due (w := w.enqueue t l a) hmem
  · exact (h.enqueue a fun e => has (Option.some.inj e).symm).le

/-! ## A lock is handed over -/

/-- `source` gives up the donors it has through lock `l`. -/
def withdraw (w : Waits) (l : ObjectId) (source : ThreadId) : Waits :=
  let v := (w.setHolder l none).setDonors source ((w.donors source).filter (· ∉ w.waiters l))
  v.setPriority source (v.due source)

/-- `target`, a waiter of lock `l`, becomes its holder, and the other waiters become its donors. -/
def bestow (w : Waits) (l : ObjectId) (target : ThreadId) : Waits :=
  let v := (((w.setHolder l (some target)).setWaiters l ((w.waiters l).erase target)).setWaitsFor
    target none).setDonors target (w.donors target ++ (w.waiters l).filter (· ≠ target))
  v.setPriority target (v.due target)

/-- Lock `l` goes from `source` to its waiter `target`. -/
def handOver (w : Waits) (l : ObjectId) (source target : ThreadId) : Waits :=
  (w.withdraw l source).bestow l target

/-- Without waiters nothing is withdrawn. -/
theorem Sound.withdraw (h : w.Sound) (hl : w.waiters l = []) (s : ThreadId) :
    w.withdraw l s = w.setHolder l none := by
  have hd : (w.setHolder l none).setDonors s ((w.donors s).filter (· ∉ w.waiters l)) =
      w.setHolder l none := by
    simp [hl, Waits.setDonors, Waits.setHolder]
  unfold Waits.withdraw
  rw [hd]
  simp only [Waits.setPriority]
  rw [← (h.setHolder hl none).balanced s, Function.update_eq_self]

/-- The edges after a hand-over: the waiters that are left are turned to the new holder. -/
theorem awaits_handOver {a b : ThreadId} :
    (w.handOver l s n).Awaits a b ↔
      a ≠ n ∧ ((w.waitsFor a = some l ∧ b = n) ∨ (w.waitsFor a ≠ some l ∧ w.Awaits a b)) := by
  simp only [awaits_iff, handOver, Waits.bestow, Waits.withdraw, Waits.setPriority, Waits.setDonors,
    Waits.setWaitsFor, Waits.setWaiters, Waits.setHolder, Function.update_idem,
    Function.update_apply]
  grind

section HandOver

variable (h : w.Sound) (hl : w.holder l = some s) (hs : w.waitsFor s = none) (hn : n ∈ w.waiters l)

include h hl in
theorem Sound.awaits_holder (hn : n ∈ w.waiters l) : w.Awaits n s :=
  awaits_iff.mpr ⟨l, (h.wired.waitsFor_iff n l).mpr hn, hl⟩

include h hs hn in
theorem target_ne_source : n ≠ s := fun e => by
  have := (h.wired.waitsFor_iff n l).mpr hn
  rw [e, hs] at this
  cases this

include h in
theorem acyclic_handOver : Acyclic (w.handOver l s n).Awaits := by
  refine h.wired.acyclic.of_sink fun a b hab => ?_
  rcases awaits_handOver.mp hab with ⟨-, ⟨-, rfl⟩ | ⟨-, hr⟩⟩
  · exact .inr fun c hc => (awaits_handOver.mp hc).1 rfl
  · exact .inl hr

include h hs hn in
theorem donors_handOver (a : ThreadId) :
    (w.handOver l s n).donors a =
      if a = n then w.donors n ++ (w.waiters l).filter (· ≠ n)
      else if a = s then (w.donors s).filter (· ∉ w.waiters l) else w.donors a := by
  have hns := target_ne_source h hs hn
  simp only [handOver, Waits.bestow, Waits.withdraw, Waits.setPriority, Waits.setDonors,
    Waits.setWaitsFor, Waits.setWaiters, Waits.setHolder, Function.update_apply]
  grind

include h hl hs hn in
theorem wired_handOver (hnd : (w.waiters l).Nodup) : (w.handOver l s n).Wired := by
  have hns := target_ne_source h hs hn
  have hnl := (h.wired.waitsFor_iff n l).mpr hn
  constructor
  · intro a m
    have := h.wired.waitsFor_iff a m
    simp only [handOver, Waits.bestow, Waits.withdraw, Waits.setPriority, Waits.setDonors,
      Waits.setWaitsFor, Waits.setWaiters, Waits.setHolder, Function.update_apply]
    grind
  · intro a m ham
    simp only [handOver, Waits.bestow, Waits.withdraw, Waits.setPriority, Waits.setDonors,
      Waits.setWaitsFor, Waits.setWaiters, Waits.setHolder, Function.update_apply] at ham ⊢
    have := h.wired.held a m
    grind
  · intro a
    rw [donors_handOver h hs hn]
    have hdisj : ∀ d ∈ w.donors n, d ∉ w.waiters l := fun d hd hdl =>
      hns (((h.wired.mem_donors n d).mp hd).eq (h.awaits_holder hl hdl))
    split_ifs
    · refine List.Nodup.append (h.wired.nodup_donors n) (hnd.filter _) fun d hd hd' => ?_
      exact hdisj d hd (List.mem_filter.mp hd').1
    · exact (h.wired.nodup_donors s).filter _
    · exact h.wired.nodup_donors a
  · intro a d
    rw [donors_handOver h hs hn, awaits_handOver]
    have h₁ := h.wired.mem_donors a d
    have h₂ := h.wired.mem_donors n d
    have h₃ := h.wired.mem_donors s d
    have h₄ := h.wired.waitsFor_iff d l
    have h₅ : w.waitsFor d = some l → ∀ b, w.Awaits d b ↔ b = s := by
      intro hd b
      have hds := h.awaits_holder hl (h₄.mp hd)
      exact ⟨fun hb => hb.eq hds, fun e => e ▸ hds⟩
    have h₆ : w.waitsFor d ≠ some l → d ≠ n := fun hd e => hd (e ▸ hnl)
    grind
  · exact acyclic_handOver h

include h hl hs hn in
/-- A lock that is handed over leaves the graph sound. -/
theorem Sound.handOver (hnd : (w.waiters l).Nodup) : (w.handOver l s n).Sound := by
  have hns := target_ne_source h hs hn
  have hns' := h.awaits_holder hl hn
  refine ⟨wired_handOver h hl hs hn hnd, ?_⟩
  -- First the old holder is out of balance, then the new one. Neither waits, so it ends there.
  let v₁ := (w.setHolder l none).setDonors s ((w.donors s).filter (· ∉ w.waiters l))
  have hv₁ : v₁.BalancedBut (some s) := by
    intro a ha
    have has : a ≠ s := fun e => ha (e ▸ rfl)
    have hd : v₁.donors a = w.donors a := Function.update_of_ne has _ _
    have hdue : v₁.due a = w.due a := due_congr rfl hd fun _ _ => rfl
    rw [hdue]
    exact h.balanced a
  have hout₁ : ∀ t, s ∉ v₁.donors t := by
    intro t hst
    have hsub : s ∈ w.donors t := by
      simp only [v₁, Waits.setDonors, Waits.setHolder, Function.update_apply] at hst
      grind
    exact not_awaits hs t ((h.wired.mem_donors t s).mp hsub)
  have hv₂ : (w.withdraw l s).Balanced := by
    have := hv₁.settle fun t ht => absurd ht (hout₁ t)
    have hnext : v₁.next s = none := by simp [next, v₁, Waits.setDonors, Waits.setHolder, hs]
    rw [hnext] at this
    exact balancedBut_none.mp this
  let v₃ := ((((w.withdraw l s).setHolder l (some n)).setWaiters l
    (((w.withdraw l s).waiters l).erase n)).setWaitsFor n none).setDonors n
      ((w.withdraw l s).donors n ++ ((w.withdraw l s).waiters l).filter (· ≠ n))
  have hv₃ : v₃.BalancedBut (some n) := by
    intro a ha
    have han : a ≠ n := fun e => ha (e ▸ rfl)
    have hd : v₃.donors a = (w.withdraw l s).donors a := Function.update_of_ne han _ _
    have hdue : v₃.due a = (w.withdraw l s).due a := due_congr rfl hd fun _ _ => rfl
    rw [hdue]
    exact hv₂ a
  have hout₃ : ∀ t, n ∉ v₃.donors t := by
    intro t hnt
    have h₁ := h.wired.mem_donors t n
    have h₂ : w.Awaits n t → t = s := fun ht => ht.eq hns'
    have h₃ := h.wired.not_awaits_self n
    simp only [v₃, Waits.setDonors, Waits.setWaitsFor, Waits.setWaiters, Waits.setHolder,
      Waits.withdraw, Waits.setPriority, Function.update_apply] at hnt
    grind
  have := hv₃.settle fun t ht => absurd ht (hout₃ t)
  have hnext : v₃.next n = none := by simp [next, v₃, Waits.setDonors, Waits.setWaitsFor]
  rw [hnext] at this
  exact balancedBut_none.mp this

end HandOver

/-! ## A new base priority -/

/-- `t` has base priority `p`. -/
def rebase (w : Waits) (t : ThreadId) (p : Priority) : Waits :=
  (w.setBase t p).setPriority t ((w.setBase t p).due t)

theorem Sound.rebase (h : w.Sound) (ht : w.waitsFor t = none) (p : Priority) :
    (w.rebase t p).Sound := by
  refine ⟨⟨h.wired.waitsFor_iff, h.wired.held, h.wired.nodup_donors, h.wired.mem_donors,
    h.wired.acyclic⟩, ?_⟩
  have hbut : (w.setBase t p).BalancedBut (some t) := by
    intro a ha
    have hat : a ≠ t := fun e => ha (e ▸ rfl)
    have hb : (w.setBase t p).base a = w.base a := Function.update_of_ne hat _ _
    exact (h.balanced a).trans (due_congr hb rfl fun _ _ => rfl).symm
  have hnext : (w.setBase t p).next t = none := by simp [next, Waits.setBase, ht]
  have := hbut.settle fun a ha => (h.wired.mem_donors a t).mp ha
  rw [hnext] at this
  exact balancedBut_none.mp this

end ThreadCore.Waits
