import ThreadCore.Core.Lifetime
import ThreadCore.Proofs.Locking

/-!
# Families and lifetimes

Parents and children, and how threads come and go. A thread with a parent is on record there until
it exits, so that no parent link outlives the parent: a parent that exits first leaves its children
without a parent. Most of this changes neither who is ready nor how urgent anybody is (`Calm`).
-/

namespace ThreadCore.Core

variable {k k' k₁ k₂ k₃ : Core} {g : Stage} {t c p : ThreadId} {s : ObjectId} {u : Unit}

/-! ## Calm steps -/

/-- Who is at work, who is ready and how urgent everybody is have not changed. -/
structure Calm (k k' : Core) : Prop where
  current : k'.current = k.current
  idle : k'.idle = k.idle
  ready : k'.ready.entries = k.ready.entries
  priority : ∀ t, k'.priorityOf t = k.priorityOf t
  handler : k'.machine.inHandler = k.machine.inHandler
  pending : k'.yieldPending = k.yieldPending

namespace Calm

theorem refl (k : Core) : Calm k k := ⟨rfl, rfl, rfl, fun _ => rfl, rfl, rfl⟩

theorem trans (h : Calm k₁ k₂) (h' : Calm k₂ k₃) : Calm k₁ k₃ :=
  ⟨h'.current.trans h.current, h'.idle.trans h.idle, h'.ready.trans h.ready,
    fun t => (h'.priority t).trans (h.priority t), h'.handler.trans h.handler,
    h'.pending.trans h.pending⟩

end Calm

theorem Alike.calm (h : Alike k k') : Calm k k' :=
  ⟨h.current, h.idle, h.ready, h.priorityOf, h.handler, h.pending⟩

theorem Settled.calm (h : k.Settled) (hc : Calm k k') : k'.Settled :=
  h.of_ready hc.ready hc.current hc.idle
    (fun t _ ht => by rwa [hc.priority, hc.priority]) hc.handler fun hy => hc.pending.trans hy

theorem Sound.serves_calm (hk : k'.Sound g) (hc : Calm k k') : Serves g k k' :=
  ⟨hk.at_current, fun hs => hs.calm hc⟩

/-- What a calm step keeps, an operation after it keeps. -/
theorem Serves.calm_left {k₀ : Core} (h : Serves g k k') (hc : Calm k₀ k) : Serves g k₀ k' :=
  ⟨h.sound, fun hs => h.settled (hs.calm hc)⟩

theorem GivesWay.calm_left {k₀ : Core} (h : GivesWay k k') (hc : Calm k₀ k) : GivesWay k₀ k' := by
  unfold GivesWay at h ⊢
  rwa [← hc.current, ← hc.idle]

theorem calm_eraseSemaphore (k : Core) (s : ObjectId) :
    Calm k { k with objects := { k.objects with semaphores := k.objects.semaphores.erase s } } :=
  ⟨rfl, rfl, rfl, fun _ => rfl, rfl, rfl⟩

theorem dropRecord_calm {r : ChildRecord} (h : dropRecord r k = .ok u k') : Calm k k' := by
  unfold dropRecord dropSemaphore at h
  rw [modify_bind_eq_ok, modify_eq_ok] at h
  exact h ▸ (calm_eraseSemaphore _ _).trans (calm_eraseSemaphore _ _)

theorem Sound.dropRecord (hk : k.Sound g) {r : ChildRecord} (h : dropRecord r k = .ok u k') :
    k'.Sound g ∧ k'.threads = k.threads ∧ k'.objects.locks = k.objects.locks := by
  unfold Core.dropRecord Core.dropSemaphore at h
  rw [modify_bind_eq_ok, modify_eq_ok] at h
  subst h
  exact ⟨(hk.eraseSemaphore _).eraseSemaphore _, rfl, rfl⟩

/-! ## Changes of a family -/

/-- The core with another family of `t`. -/
def mapFamily (k : Core) (t : ThreadId) (f : Family → Family) : Core :=
  k.mapThread t fun th => { th with family := f th.family }

section Family

variable {f : Family → Family} {th : Thread}

theorem changeFamily_eq_ok : changeFamily t f k = .ok u k' ↔
    (∃ th, k.threads[t]? = some th) ∧ k' = k.mapFamily t f :=
  changeThread_eq_ok

theorem changeFamily_bind_eq_ok {β : Type} {m : Unit → CoreM β} {b : β} :
    (changeFamily t f >>= m) k = .ok b k' ↔
      (∃ th, k.threads[t]? = some th) ∧ m () (k.mapFamily t f) = .ok b k' :=
  changeThread_bind_eq_ok

theorem seating_mapFamily (k : Core) (t : ThreadId) (f : Family → Family) :
    (k.mapFamily t f).seating = k.seating :=
  seating_mapThread (fun _ => rfl) fun _ => rfl

theorem waits_mapFamily (k : Core) (t : ThreadId) (f : Family → Family) :
    (k.mapFamily t f).waits = k.waits :=
  waits_mapThread (fun _ => rfl) (fun _ => rfl) (fun _ => rfl) fun _ => rfl

theorem calm_mapFamily (k : Core) (t : ThreadId) (f : Family → Family) :
    Calm k (k.mapFamily t f) := by
  refine ⟨rfl, rfl, rfl, fun s => ?_, rfl, rfl⟩
  rw [priorityOf_eq, priorityOf_eq, waits_mapFamily]

theorem live_mapFamily (hth : k.threads[c]? = some th) :
    ∃ th', (k.mapFamily t f).threads[c]? = some th' := by
  rw [mapFamily, getElem?_mapThread]
  split
  · rename_i he
    rw [← he, hth]
    exact ⟨_, rfl⟩
  · exact ⟨th, hth⟩

theorem parentOf_mapFamily (hth : k.threads[t]? = some th) (c : ThreadId) :
    (k.mapFamily t f).parentOf c = if c = t then (f th.family).parent else k.parentOf c := by
  rw [parentOf, mapFamily, getElem?_mapThread]
  split
  · rw [hth]
    rfl
  · rfl

theorem recordOf_mapFamily (hth : k.threads[t]? = some th) (p c : ThreadId) :
    (k.mapFamily t f).recordOf p c =
      if p = t then (f th.family).children[c]? else k.recordOf p c := by
  rw [recordOf, mapFamily, getElem?_mapThread]
  split
  · rw [hth]
    rfl
  · rfl

theorem recordOf_eq (hth : k.threads[p]? = some th) (c : ThreadId) :
    k.recordOf p c = th.family.children[c]? := by
  rw [recordOf, hth]
  rfl

theorem parentOf_eq (hth : k.threads[c]? = some th) : k.parentOf c = th.family.parent := by
  rw [parentOf, hth]
  rfl

theorem childRecord_eq_ok {o : Option ChildRecord} : k.childRecord p c = .ok o ↔
    (∃ th, k.threads[p]? = some th) ∧ k.recordOf p c = o := by
  simp only [childRecord, except_bind_ok, thread_eq_ok_iff, except_pure_ok]
  constructor
  · rintro ⟨th, hth, rfl⟩
    exact ⟨⟨th, hth⟩, recordOf_eq hth c⟩
  · rintro ⟨⟨th, hth⟩, rfl⟩
    exact ⟨th, hth, (recordOf_eq hth c).symm⟩

/-- A change of a family is in order if whoever has a parent after it is on record there. -/
theorem Sound.mapFamily (hk : k.Sound g) (strays : List ThreadId)
    (hp : ∀ c p, (k.mapFamily t f).parentOf c = some p → c ∉ strays →
      ∃ r, (k.mapFamily t f).recordOf p c = some r ∧ r.status = none) :
    (k.mapFamily t f).Sound { g with terms := { g.terms with strays := strays } } := by
  obtain ⟨h₁, -, h₃, h₄, h₅, h₆⟩ := hk.registered
  have hseat := seating_mapFamily k t f
  have hwaits := waits_mapFamily k t f
  refine ⟨hk.current, hk.idle, hk.handler, hseat ▸ hk.seating, hwaits ▸ hk.waits, ?_, hp, ?_, h₄,
    h₅, h₆⟩
  · intro s sth hs
    rw [Core.mapFamily, getElem?_mapThread] at hs
    split at hs
    · rename_i he
      obtain ⟨th, hth, rfl⟩ := Option.map_eq_some_iff.mp hs
      subst he
      exact h₁ s th hth
    · exact h₁ s sth hs
  · intro l s hs
    rw [hwaits] at hs
    obtain ⟨sth, hsth⟩ := h₃ l s hs
    exact live_mapFamily hsth

/-- A record is put in. It says of a thread that has `p` as its parent that it has not exited. -/
theorem Sound.insertRecord (hk : k.Sound g) (hth : k.threads[p]? = some th) {r : ChildRecord}
    (hr : k.parentOf c = some p → c ∉ g.terms.strays → r.status = none) :
    (k.mapFamily p fun f => { f with children := f.children.insert c r }).Sound g := by
  refine hk.mapFamily g.terms.strays fun d q hd hns => ?_
  have hd' : k.parentOf d = some q := by
    rw [parentOf_mapFamily hth] at hd
    split at hd
    · rename_i he
      rw [he, parentOf_eq hth, hd]
    · exact hd
  obtain ⟨r', hr', hs'⟩ := hk.registered.parent d q hd' hns
  rw [recordOf_mapFamily hth]
  split
  · rename_i hq
    subst hq
    simp only [Std.ExtTreeMap.getElem?_insert, compare_eq_iff_eq]
    split
    · rename_i hcd
      subst hcd
      exact ⟨r, rfl, hr hd' hns⟩
    · rw [← recordOf_eq hth]
      exact ⟨r', hr', hs'⟩
  · exact ⟨r', hr', hs'⟩

/-- The record of a thread that has exited is taken out. -/
theorem Sound.eraseRecord (hk : k.Sound g) (hth : k.threads[p]? = some th) {r : ChildRecord}
    (hr : k.recordOf p c = some r) (hs : r.status ≠ none) :
    (k.mapFamily p fun f => { f with children := f.children.erase c }).Sound g := by
  refine hk.mapFamily g.terms.strays fun d q hd hns => ?_
  have hd' : k.parentOf d = some q := by
    rw [parentOf_mapFamily hth] at hd
    split at hd
    · rename_i he
      rw [he, parentOf_eq hth, hd]
    · exact hd
  obtain ⟨r', hr', hs'⟩ := hk.registered.parent d q hd' hns
  rw [recordOf_mapFamily hth]
  split
  · rename_i hq
    subst hq
    have hcd : c ≠ d := by
      rintro rfl
      rw [hr] at hr'
      cases hr'
      exact hs hs'
    refine ⟨r', ?_, hs'⟩
    simp only [Std.ExtTreeMap.getElem?_erase, compare_eq_iff_eq, if_neg hcd]
    rw [← recordOf_eq hth, hr']
  · exact ⟨r', hr', hs'⟩

end Family

/-! ## Operations on families -/

theorem Sound.setExitStatus (hk : k.Sound g) {status : Int32}
    (h : setExitStatus status k = .ok u k') : Serves g k k' := by
  unfold Core.setExitStatus at h
  simp only [ask_bind_eq_ok, changeFamily_eq_ok] at h
  obtain ⟨th, hr, -, rfl⟩ := h
  obtain ⟨hid, hth⟩ := hk.running_eq hr
  rw [← hid] at hth
  refine Sound.serves_calm ?_ (calm_mapFamily k th.id _)
  refine hk.mapFamily g.terms.strays fun c p hp hns => ?_
  have hp' : k.parentOf c = some p := by
    rw [parentOf_mapFamily hth] at hp
    split at hp
    · rename_i he
      rw [he, parentOf_eq hth, hp]
    · exact hp
  obtain ⟨r, hr, hs⟩ := hk.registered.parent c p hp' hns
  refine ⟨r, ?_, hs⟩
  rw [recordOf_mapFamily hth]
  split
  · rename_i he
    rw [← hr, he, recordOf_eq hth]
  · exact hr

/-- A thread without a status on record becomes a child. -/
theorem Sound.adopt (hk : k.Sound g) (h : adopt p c k = .ok u k') :
    k'.Sound g ∧ k'.seating = k.seating ∧ Calm k k' := by
  unfold Core.adopt at h
  simp only [bind_eq_ok, changeFamily_eq_ok] at h
  obtain ⟨fs, m₁, h₁, es, m₂, h₂, _, _, ⟨⟨pth, hpth⟩, rfl⟩, ⟨cth, hcth⟩, rfl⟩ := h
  have ha₁ := alike_newSemaphore hk h₁
  have hm₁ := hk.alike ha₁
  have ha₂ := alike_newSemaphore hm₁ h₂
  have hm₂ := hm₁.alike ha₂
  have hm₃ := hm₂.insertRecord (c := c) (r := ⟨fs, es, false, none⟩) hpth fun _ _ => rfl
  refine ⟨?_, ?_, ?_⟩
  · refine hm₃.mapFamily g.terms.strays fun d q hd hns => ?_
    have hrec : ∀ q d, ((m₂.mapFamily p fun f =>
          { f with children := f.children.insert c ⟨fs, es, false, none⟩ }).mapFamily c
            fun f => { f with parent := some p }).recordOf q d =
        (m₂.mapFamily p fun f =>
          { f with children := f.children.insert c ⟨fs, es, false, none⟩ }).recordOf q d := by
      intro q d
      rw [recordOf_mapFamily hcth]
      split
      · rename_i he
        rw [he, recordOf_eq hcth]
      · rfl
    rw [hrec]
    rw [parentOf_mapFamily hcth] at hd
    split at hd
    · rename_i he
      simp only [Option.some.injEq] at hd
      subst he hd
      refine ⟨⟨fs, es, false, none⟩, ?_, rfl⟩
      rw [recordOf_mapFamily hpth, if_pos rfl]
      simp
    · exact hm₃.registered.parent d q hd hns
  · rw [seating_mapFamily, seating_mapFamily, ha₂.seating, ha₁.seating]
  · exact ((ha₁.calm.trans ha₂.calm).trans (calm_mapFamily m₂ p _)).trans (calm_mapFamily _ c _)

theorem collect_calm {a : Except Refusal ChildStatus} (h : collect p c k = .ok a k') :
    Calm k k' := by
  unfold collect at h
  rw [ask_bind_eq_ok] at h
  obtain ⟨o, -, h⟩ := h
  cases o with
  | none => exact (pure_eq_ok.mp h).2 ▸ .refl k
  | some entry =>
    cases hs : entry.status with
    | none =>
      simp only [hs] at h
      exact (pure_eq_ok.mp h).2 ▸ .refl k
    | some status =>
      simp only [hs, changeFamily_bind_eq_ok] at h
      simp only [bind_eq_ok, pure_eq_ok] at h
      obtain ⟨-, _, m, hm, -, rfl⟩ := h
      exact (calm_mapFamily k p _).trans (dropRecord_calm hm)

theorem Sound.collect (hk : k.Sound g) {a : Except Refusal ChildStatus}
    (h : collect p c k = .ok a k') : k'.Sound g := by
  unfold Core.collect at h
  simp only [ask_bind_eq_ok, childRecord_eq_ok] at h
  obtain ⟨o, ⟨⟨th, hth⟩, ho⟩, h⟩ := h
  cases o with
  | none =>
    simp only [pure_eq_ok] at h
    obtain ⟨-, rfl⟩ := h
    exact hk
  | some entry =>
    cases hs : entry.status with
    | none =>
      simp only [hs, pure_eq_ok] at h
      obtain ⟨-, rfl⟩ := h
      exact hk
    | some status =>
      simp only [hs, changeFamily_bind_eq_ok] at h
      simp only [bind_eq_ok, pure_eq_ok] at h
      obtain ⟨-, _, m, hm, -, rfl⟩ := h
      have hk₁ := hk.eraseRecord (c := c) hth ho (by simp [hs])
      exact (hk₁.dropRecord hm).1

theorem Sound.tryCollect (hk : k.Sound g) {a : Except Refusal ChildStatus}
    (h : tryCollect c k = .ok a k') : Serves g k k' := by
  unfold Core.tryCollect at h
  simp only [ask_bind_eq_ok] at h
  obtain ⟨th, -, h⟩ := h
  exact (hk.collect h).serves_calm (collect_calm h)

theorem Sound.reportFork (hk : k.Sound g) (hg : g.state = .running) {a : Except Refusal Unit}
    (h : reportFork k = .ok a k') : Serves g k k' ∧ GivesWay k k' := by
  have hstay : Serves g k k ∧ GivesWay k k := ⟨hk.serves_alike (.refl k), fun _ => .inl rfl⟩
  unfold Core.reportFork at h
  simp only [ask_bind_eq_ok, thread_eq_ok_iff] at h
  obtain ⟨th, hr, th', hth', h⟩ := h
  cases hp : th'.family.parent with
  | none =>
    simp only [hp, pure_eq_ok] at h
    exact h.2 ▸ hstay
  | some parent =>
    simp only [hp, ask_bind_eq_ok, childRecord_eq_ok] at h
    obtain ⟨o, ⟨⟨pth, hpth⟩, ho⟩, h⟩ := h
    cases o with
    | none =>
      simp only [pure_eq_ok] at h
      exact h.2 ▸ hstay
    | some entry =>
      by_cases hf : entry.forked = true
      · simp only [hf, if_true, pure_eq_ok] at h
        exact h.2 ▸ hstay
      · simp only [if_neg hf, changeFamily_bind_eq_ok] at h
        simp only [bind_eq_ok, pure_eq_ok] at h
        obtain ⟨-, _, m, hm, -, rfl⟩ := h
        have hk₁ := hk.insertRecord (c := th.id) (r := { entry with forked := true }) hpth
          (by
            intro hpar hns
            obtain ⟨r, hr, hs⟩ := hk.registered.parent _ _ hpar hns
            rw [ho] at hr
            cases hr
            exact hs)
        have hc := calm_mapFamily k parent
          fun f => { f with children := f.children.insert th.id { entry with forked := true } }
        obtain ⟨hs, hw⟩ := hk₁.up hg hm
        exact ⟨hs.calm_left hc, hw.calm_left hc⟩

theorem Sound.awaitFork (hk : k.Sound g) (hg : g.state = .running)
    (hi : k.current = k.idle → ∀ r o, k.recordOf k.current c = some r →
      k.objects.semaphores[r.forkSemaphore]? = some o → o.value ≠ 0)
    {a : Except Refusal Unit} (h : awaitFork c k = .ok a k') : Serves g k k' := by
  unfold Core.awaitFork at h
  simp only [ask_bind_eq_ok] at h
  obtain ⟨th, hr, h⟩ := h
  obtain ⟨hid, -⟩ := hk.running_eq hr
  rw [hid, ← hk.current] at h
  simp only [childRecord_eq_ok] at h
  obtain ⟨o, ⟨-, ho⟩, h⟩ := h
  cases o with
  | none =>
    simp only [pure_eq_ok] at h
    exact h.2 ▸ hk.serves_alike (.refl k)
  | some entry =>
    simp only [bind_eq_ok, pure_eq_ok] at h
    obtain ⟨_, m, hm, -, rfl⟩ := h
    exact hk.down hg (fun he o => hi he entry o ho) hm

/-- A child that runs is on record without a status. -/
theorem collect_running (h : collect p c k = .ok (.ok .running) k') :
    k = k' ∧ ∃ r, k.recordOf p c = some r ∧ r.status = none := by
  unfold Core.collect at h
  simp only [ask_bind_eq_ok, childRecord_eq_ok] at h
  obtain ⟨o, ⟨-, ho⟩, h⟩ := h
  cases o with
  | none => simp [pure_eq_ok] at h
  | some entry =>
    cases hs : entry.status with
    | none =>
      simp only [hs, pure_eq_ok] at h
      exact ⟨h.2, entry, ho, hs⟩
    | some status =>
      simp only [hs, changeFamily_bind_eq_ok] at h
      simp only [bind_eq_ok, pure_eq_ok] at h
      obtain ⟨-, _, _, -, he, -⟩ := h
      cases he

theorem Sound.awaitExit (hk : k.Sound g) (hg : g.state = .running)
    (hi : k.current = k.idle → ∀ r o, k.recordOf k.current c = some r → r.status = none →
      k.objects.semaphores[r.exitSemaphore]? = some o → o.value ≠ 0)
    {a : Except Refusal Int32} (h : awaitExit c k = .ok a k') : Serves g k k' := by
  unfold Core.awaitExit at h
  simp only [ask_bind_eq_ok] at h
  obtain ⟨th, hr, h⟩ := h
  obtain ⟨hid, -⟩ := hk.running_eq hr
  rw [hid, ← hk.current, bind_eq_ok] at h
  obtain ⟨first, m, hm, h⟩ := h
  have hsm := (hk.collect hm).serves_calm (collect_calm hm)
  rcases first with refusal | _ | _
  · simp only [pure_eq_ok] at h
    exact h.2 ▸ hsm
  · simp only [pure_eq_ok] at h
    exact h.2 ▸ hsm
  · obtain ⟨rfl, r, hrec, hs⟩ := collect_running hm
    simp only [ask_bind_eq_ok, childRecord_eq_ok, hrec] at h
    obtain ⟨_, ⟨-, rfl⟩, h⟩ := h
    simp only at h
    rw [bind_eq_ok] at h
    obtain ⟨_, n, hn, h⟩ := h
    have hserves := hk.down hg (fun he o => hi he r o hrec hs) hn
    rw [get_bind_eq_ok] at h
    split at h
    · exact (pure_eq_ok.mp h).2 ▸ hserves
    · -- The wait is over in the name of the same thread, which collects.
      rw [bind_eq_ok] at h
      obtain ⟨second, n', hn', h⟩ := h
      have hs' := hserves.sound.collect hn'
      have hc' := collect_calm hn'
      have hserves' : Serves g k n' := by
        refine ⟨?_, fun hset => (hserves.settled hset).calm hc'⟩
        rw [hc'.current]
        exact hs'
      rcases second with refusal | _ | _
      · simp only [pure_eq_ok] at h
        exact h.2 ▸ hserves'
      · simp only [pure_eq_ok] at h
        exact h.2 ▸ hserves'
      · simp [throw_eq_ok] at h

end ThreadCore.Core
