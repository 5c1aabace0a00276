import ThreadCore.Proofs.Queueing

/-!
# Chains of waits

A thread that begins to wait for a lock carries its priority along the chain of waits. The walk
computes one priority after the other. If it succeeds, the chain does not lead back to where it
began, the priorities are balanced again, and only threads on the chain have become more urgent
(`Carried`). So a thread can begin to wait without breaking a rule (`Sound.waitForLock`).
-/

namespace ThreadCore.Core

open Relation

variable {k k' k₁ k₂ k₃ : Core} {g : Stage} {t d holder : ThreadId} {l : ObjectId} {u : Unit}
  {p : Priority}

/-- Nobody has moved: the two states differ at most in who waits for whom and how urgently. -/
structure Unmoved (k k' : Core) : Prop where
  seating : k'.seating = k.seating
  registered : ∀ terms, k.Registered terms → k'.Registered terms
  handler : k'.machine.inHandler = k.machine.inHandler
  pending : k'.yieldPending = k.yieldPending

namespace Unmoved

theorem refl (k : Core) : Unmoved k k := ⟨rfl, fun _ => id, rfl, rfl⟩

theorem trans (h : Unmoved k₁ k₂) (h' : Unmoved k₂ k₃) : Unmoved k₁ k₃ :=
  ⟨h'.seating.trans h.seating, fun p hp => h'.registered p (h.registered p hp),
    h'.handler.trans h.handler, h'.pending.trans h.pending⟩

theorem current (h : Unmoved k k') : k'.current = k.current := congrArg Seating.current h.seating

theorem idle (h : Unmoved k k') : k'.idle = k.idle := congrArg Seating.idle h.seating

theorem ready (h : Unmoved k k') : k'.ready.entries = k.ready.entries :=
  congrArg (fun s => s.queue .ready) h.seating

end Unmoved

theorem Alike.unmoved (h : Alike k k') : Unmoved k k' :=
  ⟨h.seating, h.registered, h.handler, h.pending⟩

theorem Sound.unmoved (hk : k.Sound g) (hu : Unmoved k k') (hw : k'.waits.Sound) : k'.Sound g :=
  ⟨hu.current.trans hk.current, hu.idle.trans hk.idle, hu.handler.trans hk.handler,
    hu.seating ▸ hk.seating, hw, hu.registered _ hk.registered⟩

theorem unmoved_mapThread {f : Thread → Thread} (hs : ∀ th, (f th).state = th.state)
    (hw : ∀ th, (f th).wakeAt = th.wakeAt) (hid : ∀ th, (f th).id = th.id)
    (hst : ∀ th, (f th).stack = th.stack) (hf : ∀ th, (f th).family = th.family) :
    Unmoved k (k.mapThread t f) :=
  ⟨seating_mapThread hs hw, fun _ h => h.mapThread hid hst hf, rfl, rfl⟩

/-- A thread is live if it has a state. -/
theorem Unmoved.live (h : Unmoved k k') {th : Thread} (hth : k.threads[t]? = some th) :
    ∃ th', k'.threads[t]? = some th' := by
  have hs := state_eq hth
  rw [← h.seating] at hs
  obtain ⟨th', hth', -⟩ := live_of_state hs
  exact ⟨th', hth'⟩

/-! ## Computing a priority -/

theorem greatestPriority_eq_ok {least : Priority} {ts : List ThreadId} :
    k.greatestPriority least ts = .ok p ↔
      (∀ t ∈ ts, ∃ th, k.threads[t]? = some th) ∧
        p = ts.foldl (fun p d => max p (k.waits.priority d)) least := by
  induction ts generalizing least with
  | nil => simp [greatestPriority, eq_comm]
  | cons t ts ih =>
    have hp : ∀ th, k.threads[t]? = some th → k.waits.priority t = th.priority := by
      intro th hth
      simp [waits, hth]
    simp only [greatestPriority, except_bind_ok, thread_eq_ok_iff, ih, List.mem_cons,
      forall_eq_or_imp, List.foldl_cons]
    constructor
    · rintro ⟨th, hth, hts, rfl⟩
      exact ⟨⟨⟨th, hth⟩, hts⟩, by rw [hp th hth]⟩
    · rintro ⟨⟨⟨th, hth⟩, hts⟩, rfl⟩
      exact ⟨th, hth, hts, by rw [hp th hth]⟩

theorem effectivePriority_eq_ok : k.effectivePriority t = .ok p ↔
    (∃ th, k.threads[t]? = some th) ∧
      (∀ d ∈ k.waits.donors t, ∃ th, k.threads[d]? = some th) ∧ p = k.waits.due t := by
  simp only [effectivePriority, except_bind_ok, thread_eq_ok_iff, greatestPriority_eq_ok]
  constructor
  · rintro ⟨th, hth, hd, rfl⟩
    refine ⟨⟨th, hth⟩, ?_, ?_⟩
    · simpa [waits, hth] using hd
    · simp [Waits.due, waits, hth]
  · rintro ⟨⟨th, hth⟩, hd, rfl⟩
    refine ⟨th, hth, ?_, ?_⟩
    · simpa [waits, hth] using hd
    · simp [Waits.due, waits, hth]

theorem refreshPriority_eq_ok (h : refreshPriority t k = .ok p k') :
    Unmoved k k' ∧ k'.waits = k.waits.setPriority t (k.waits.due t) := by
  unfold refreshPriority at h
  simp only [ask_bind_eq_ok, effectivePriority_eq_ok, changeThread_bind_eq_ok, pure_eq_ok] at h
  obtain ⟨_, ⟨⟨th, hth⟩, -, rfl⟩, -, -, rfl⟩ := h
  refine ⟨?_, waits_priority hth _⟩
  exact unmoved_mapThread (fun _ => rfl) (fun _ => rfl) (fun _ => rfl) (fun _ => rfl) fun _ => rfl

/-! ## The walk along a chain -/

/-- The priority of `donor` was carried along the chain of waits that begins at `waiter`. -/
structure Carried (donor waiter : ThreadId) (k k' : Core) : Prop where
  unmoved : Unmoved k k'
  waits : k'.waits = { k.waits with priority := k'.waits.priority }
  balanced : k'.waits.Balanced
  rising : ∀ s, k.waits.priority s ≤ k'.waits.priority s
  elsewhere : ∀ s, ¬ TransGen k.waits.Awaits waiter s → k'.waits.priority s = k.waits.priority s
  no_cycle : ¬ TransGen k.waits.Awaits waiter donor

theorem transGen_awaits {w : Waits} {a b c : ThreadId} (hab : w.Awaits a b) :
    TransGen w.Awaits a c ↔ c = b ∨ TransGen w.Awaits b c := by
  rw [TransGen.head'_iff]
  constructor
  · rintro ⟨b', hab', hbc⟩
    rw [hab'.eq hab, reflTransGen_iff_eq_or_transGen] at hbc
    exact hbc
  · rintro (rfl | hbc)
    · exact ⟨c, hab, .refl⟩
    · exact ⟨b, hab, hbc.to_reflTransGen⟩

/-- The walk is over, or it goes on at the next holder, whose priority is computed again. -/
theorem donateAlong_cases {donor waiter : ThreadId} {links : Nat}
    (h : donateAlong donor links waiter k = .ok u k') :
    (k.waits.waitsFor waiter = none ∧ k = k') ∨
      ∃ holder rest m, links = rest + 1 ∧ k.waits.Awaits waiter holder ∧ holder ≠ donor ∧
        Unmoved k m ∧ m.waits = k.waits.setPriority holder (k.waits.due holder) ∧
        donateAlong donor rest holder m = .ok u k' := by
  unfold donateAlong at h
  simp only [ask_bind_eq_ok, thread_eq_ok_iff] at h
  obtain ⟨th, hth, h⟩ := h
  have hwf : k.waits.waitsFor waiter = th.waitsFor := by simp [Core.waits, hth]
  cases hw : th.waitsFor with
  | none =>
    simp only [hw, pure_eq_ok] at h
    exact .inl ⟨hwf.trans hw, h.2⟩
  | some l =>
    simp only [hw, ask_bind_eq_ok, lock_eq_ok_iff] at h
    obtain ⟨o, ho, h⟩ := h
    cases hh : o.holder with
    | none => simp [hh, throw_eq_ok] at h
    | some holder =>
      simp only [hh, demand_bind_eq_ok] at h
      obtain ⟨hne, h⟩ := h
      cases links with
      | zero => simp [throw_eq_ok] at h
      | succ rest =>
        simp only [bind_eq_ok] at h
        obtain ⟨p, m, hm, _, n, hn, h⟩ := h
        obtain ⟨hu, hpw⟩ := refreshPriority_eq_ok hm
        have hq := (quiet_say hn).alike
        refine .inr ⟨holder, rest, n, rfl, ?_, hne, hu.trans hq.unmoved, hq.waits.trans hpw, h⟩
        exact Waits.awaits_iff.mpr ⟨l, hwf.trans hw, (holder_lock ho).trans hh⟩

theorem Carried.stop {donor waiter : ThreadId} (hw : k.waits.waitsFor waiter = none)
    (hbut : k.waits.BalancedBut (k.waits.next waiter)) : Carried donor waiter k k := by
  have hnext : k.waits.next waiter = none := by simp [Waits.next, hw]
  rw [hnext, Waits.balancedBut_none] at hbut
  have hno : ∀ s, ¬ TransGen k.waits.Awaits waiter s := by
    intro s hs
    obtain ⟨b, hb, -⟩ := TransGen.head'_iff.mp hs
    exact Waits.not_awaits hw b hb
  exact ⟨.refl k, rfl, hbut, fun _ => le_rfl, fun _ _ => rfl, hno donor⟩

theorem donateAlong_eq_ok {donor waiter : ThreadId} {links : Nat}
    (hbut : k.waits.BalancedBut (k.waits.next waiter)) (hris : k.waits.Rising)
    (hmem : ∀ t d, d ∈ k.waits.donors t → k.waits.Awaits d t)
    (h : donateAlong donor links waiter k = .ok u k') : Carried donor waiter k k' := by
  induction links generalizing k waiter with
  | zero =>
    rcases donateAlong_cases h with ⟨hw, rfl⟩ | ⟨_, rest, _, hl, -⟩
    · exact .stop hw hbut
    · omega
  | succ links ih =>
    rcases donateAlong_cases h with ⟨hw, rfl⟩ | ⟨holder, rest, m, hl, haw, hne, hu, hpw, h⟩
    · exact .stop hw hbut
    · obtain rfl : links = rest := by omega
      have hnext : k.waits.next waiter = some holder := haw
      have hawaits : m.waits.Awaits = k.waits.Awaits := by rw [hpw]; rfl
      -- The imbalance is now at whom the holder waits for.
      have hbut' : m.waits.BalancedBut (m.waits.next holder) := by
        rw [hnext] at hbut
        rw [hpw]
        exact hbut.settle fun t ht => hmem t holder ht
      have hris' : m.waits.Rising := hpw ▸ hris.settle holder
      have hmem' : ∀ t d, d ∈ m.waits.donors t → m.waits.Awaits d t := by
        rw [hpw]
        exact hmem
      have hle : ∀ s, k.waits.priority s ≤ m.waits.priority s := by
        rw [hpw]
        exact hris.le_setPriority holder
      obtain ⟨hu', hw', hb', hris'', helse, hno⟩ := ih hbut' hris' hmem' h
      rw [hawaits] at helse hno
      refine ⟨hu.trans hu', ?_, hb', fun s => (hle s).trans (hris'' s), ?_, ?_⟩
      · rw [hw', hpw]
        rfl
      · intro s hs
        rw [transGen_awaits haw, not_or] at hs
        rw [helse s hs.2, hpw]
        exact Function.update_of_ne hs.1 _ _
      · rw [transGen_awaits haw, not_or]
        exact ⟨hne.symm, hno⟩

/-! ## A thread begins to wait -/

theorem addDonor_eq_ok (h : addDonor t d k = .ok u k') :
    Unmoved k k' ∧ k'.waits = k.waits.setDonors t (k.waits.donors t ++ [d]) := by
  unfold addDonor at h
  simp only [ask_bind_eq_ok, except_bind_ok, thread_eq_ok_iff, Queue.push_eq_ok_iff,
    changeThread_eq_ok] at h
  obtain ⟨q, ⟨th, hth, -, hq⟩, -, rfl⟩ := h
  refine ⟨unmoved_mapThread (fun _ => rfl) (fun _ => rfl) (fun _ => rfl)
    (fun _ => rfl) fun _ => rfl, ?_⟩
  rw [waits_donors hth (fun _ => q), hq]
  simp [waits, hth]

theorem addDonor_ok {th : Thread} (hth : k.threads[t]? = some th) (hd : d ∉ k.waits.donors t) :
    ∃ m, addDonor t d k = .ok () m ∧ m.threads.size = k.threads.size := by
  have hd' : d ∉ th.donors := by simpa [waits, hth, Queue.mem_def] using hd
  obtain ⟨q, hq⟩ : ∃ q, th.donors.push d = .ok q := ⟨⟨th.donors.entries ++ [d]⟩, if_neg hd'⟩
  refine ⟨k.mapThread t fun th => { th with donors := q }, ?_, ?_⟩
  · unfold addDonor
    simp only [ask_bind_eq_ok, except_bind_ok, thread_eq_ok_iff, changeThread_eq_ok]
    exact ⟨q, ⟨th, hth, hq⟩, ⟨th, hth⟩, rfl⟩
  · exact Std.ExtTreeMap.size_modify

/-- `t` sits in the queue of lock `l`, and has not begun to walk. -/
structure LinedUp (t : ThreadId) (l : ObjectId) (holder : ThreadId) (k m : Core) : Prop where
  waits : m.waits = k.waits.enqueue t l holder
  seating : m.seating = k.seating.setQueue (.lock l) (k.seating.queue (.lock l) ++ [t])
  registered : ∀ terms, k.Registered terms → m.Registered terms
  handler : m.machine.inHandler = k.machine.inHandler
  pending : m.yieldPending = k.yieldPending
  size : m.threads.size = k.threads.size

/-- A thread that sits nowhere can join the queue of a lock that is held, and then walks. -/
theorem Sound.waitForLock_eq (hk : k.Sound g) (hh : k.waits.holder l = some holder) {th : Thread}
    (hth : k.threads[t]? = some th) (ht : k.seating.Stands t) :
    ∃ m, waitForLock t l holder k = donate t m ∧ LinedUp t l holder k m := by
  have hnone := hk.waitsFor_eq_none fun l' => ht (.lock l')
  obtain ⟨o, ho, hoh⟩ := Option.bind_eq_some_iff.mp hh
  have hnot : t ∉ o.waiters := by
    have := ht (.lock l)
    rwa [queue_lock ho] at this
  obtain ⟨q, hpush⟩ : ∃ q, o.waiters.push t = .ok q := ⟨⟨o.waiters.entries ++ [t]⟩, if_neg hnot⟩
  have hq : q.entries = o.waiters.entries ++ [t] := (Queue.push_eq_ok_iff.mp hpush).2
  let k₁ := k.mapLock l fun lk => { lk with waiters := q }
  let k₂ := k₁.mapThread t fun th => { th with waitsFor := some l }
  have hs₁ : k₁.seating = k.seating.setQueue (.lock l) (k.seating.queue (.lock l) ++ [t]) := by
    rw [seating_mapLock ho, hq, queue_lock ho]
  have hs₂ : k₂.seating = k₁.seating := seating_mapThread (fun _ => rfl) fun _ => rfl
  have hw₁ : k₁.waits = k.waits.setWaiters l (k.waits.waiters l ++ [t]) := by
    rw [waits_mapLock ho, hq, waiters_lock ho, ← holder_lock ho]
    simp [Waits.setHolder, Waits.setWaiters]
  have hw₂ : k₂.waits = k₁.waits.setWaitsFor t (some l) := waits_waitsFor (k := k₁) hth (some l)
  have hlive : ∃ hth, k₂.threads[holder]? = some hth := by
    obtain ⟨hth', hlive⟩ := hk.registered.holder l holder hh
    rw [getElem?_mapThread]
    split
    · rename_i he
      rw [← he, show k₁.threads[holder]? = some hth' from hlive]
      exact ⟨_, rfl⟩
    · exact ⟨hth', hlive⟩
  obtain ⟨hth', hlive⟩ := hlive
  have hdon : t ∉ k₂.waits.donors holder := by
    rw [hw₂, hw₁]
    intro hd
    exact Waits.not_awaits hnone holder ((hk.waits.wired.mem_donors holder t).mp hd)
  obtain ⟨m, hm, hsize⟩ := addDonor_ok hlive hdon
  obtain ⟨hum, hwm⟩ := addDonor_eq_ok hm
  refine ⟨m, ?_, ?_, hum.seating.trans (hs₂.trans hs₁), ?_, hum.handler, hum.pending,
    hsize.trans Std.ExtTreeMap.size_modify⟩
  · have hask : (do (← k.lock l).waiters.push t : Except Halt Queue) = .ok q :=
      except_bind_ok.mpr ⟨o, lock_eq_ok_iff.mpr ho, hpush⟩
    unfold Core.waitForLock
    rw [ask_bind_of_ok hask, changeLock_bind_of_ok ho, changeThread_bind_of_ok (k := k₁) hth,
      bind_of_ok hm]
  · rw [hwm, hw₂, hw₁]
    rfl
  · intro terms hr
    have hr₁ : k₁.Registered terms := hr.mapLock ho fun s hs =>
      hr.holder l s ((holder_lock ho).trans hs)
    exact hum.registered terms (hr₁.mapThread (fun _ => rfl) (fun _ => rfl) fun _ => rfl)

/-- Whoever sits nowhere and begins to wait has lined up, and then carried its priority along its
chain. -/
theorem Sound.waitForLock_carried (hk : k.Sound g) (hh : k.waits.holder l = some holder)
    {th : Thread} (hth : k.threads[t]? = some th) (ht : k.seating.Stands t)
    (h : waitForLock t l holder k = .ok u k') :
    ∃ m, LinedUp t l holder k m ∧ Carried t t m k' := by
  have hnone := hk.waitsFor_eq_none fun l' => ht (.lock l')
  obtain ⟨m, heq, hm⟩ := hk.waitForLock_eq hh hth ht
  rw [heq, donate, get_bind_eq_ok] at h
  have hnext : m.waits.next t = some holder := by
    rw [hm.waits]
    exact (Waits.awaits_enqueue hh hnone).mpr (.inr ⟨rfl, rfl⟩)
  refine ⟨m, hm, donateAlong_eq_ok ?_ ?_ ?_ h⟩
  · rw [hnext, hm.waits]
    exact hk.waits.balanced.enqueue
  · rw [hm.waits]
    exact hk.waits.balanced.rising_enqueue
  · rw [hm.waits]
    exact fun a d hd => (hk.waits.wired.mem_donors_enqueue hh hnone a d).mp hd

/-- What is known after `t` has begun to wait for a lock of `holder`. -/
structure Waiting (t : ThreadId) (l : ObjectId) (holder : ThreadId) (k k' : Core) : Prop where
  waits : k'.waits = { k.waits.enqueue t l holder with priority := k'.waits.priority }
  ready : k'.ready.entries = k.ready.entries
  pending : k'.yieldPending = k.yieldPending
  rising : ∀ s, k.waits.priority s ≤ k'.waits.priority s
  elsewhere : ∀ s, ¬ TransGen (k.waits.enqueue t l holder).Awaits t s →
    k'.waits.priority s = k.waits.priority s

/-- **Beginning to wait.** A blocked thread that sits nowhere can join the queue of a lock that is
held. -/
theorem Sound.waitForLock (hk : k.Sound g) (hh : k.waits.holder l = some holder)
    (hb : k.seating.about g.state t = some .blocked) (hi : t ≠ k.idle) (ht : k.seating.Stands t)
    (h : waitForLock t l holder k = .ok u k') : k'.Sound g ∧ Waiting t l holder k k' := by
  have hlive : ∃ th, k.threads[t]? = some th := by
    by_cases htc : t = k.current
    · exact htc ▸ hk.live_current
    · rw [Seating.about_of_ne htc] at hb
      obtain ⟨th, hth, -⟩ := live_of_state hb
      exact ⟨th, hth⟩
  obtain ⟨th, hth⟩ := hlive
  have hnone := hk.waitsFor_eq_none fun l' => ht (.lock l')
  obtain ⟨m, hm, hu, hw, hbal, hris, helse, hno⟩ := hk.waitForLock_carried hh hth ht h
  rw [hm.waits] at hw hris helse hno
  have hwired := hk.waits.wired.enqueue hh hnone hno
  have hseat := hu.seating.trans hm.seating
  constructor
  · refine ⟨?_, ?_, ?_, ?_, ⟨?_, hbal⟩, ?_⟩
    · exact (congrArg Seating.current hseat).trans hk.current
    · exact (congrArg Seating.idle hseat).trans hk.idle
    · exact (hu.handler.trans hm.handler).trans hk.handler
    · rw [hseat]
      exact hk.seating.sit hb hi ht (by simp) (by simp)
    · rw [hw]
      exact ⟨hwired.waitsFor_iff, hwired.held, hwired.nodup_donors, hwired.mem_donors,
        hwired.acyclic⟩
    · exact hu.registered _ (hm.registered _ hk.registered)
  · exact ⟨hw, congrArg (fun s => s.queue .ready) hseat, hu.pending.trans hm.pending, hris, helse⟩

end ThreadCore.Core
