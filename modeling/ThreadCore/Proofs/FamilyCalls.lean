import ThreadCore.Proofs.Kinship

/-!
# Calls on families

What the operations on families do, seen in `Core.kinship`, and then what a call does. A call
changes the families only by what it says it does, and only in the name of the thread at work
(`Session.leads_kinship`). So the records can be compared with the log of a run.
-/

namespace ThreadCore

namespace Core

variable {k k' m : Core} {p q c d t : ThreadId} {s : ObjectId} {r : ChildRecord} {b : Bond}
  {u : Unit}

/-! ## Closing a record -/

/-- The core after the record that `p` keeps of `t` was closed. -/
def closeRecord (k : Core) (p t : ThreadId) (r : ChildRecord) (v : Int32) : Core :=
  k.mapFamily p fun f =>
    { f with children := f.children.insert t { r with forked := true, status := some v } }

/-- The record is closed, and then units are brought to its semaphores. -/
theorem reportExit_eq_ok {v : Int32} (h : reportExit t v p k = .ok u k') :
    (k.recordOf p t = none ∧ k' = k) ∨ ∃ r pth m n w, k.threads[p]? = some pth ∧
      k.recordOf p t = some r ∧ (r.forked = true → m = k.closeRecord p t r v) ∧
      (r.forked = false → ∃ w, wakeOne r.forkSemaphore (k.closeRecord p t r v) = .ok w m) ∧
      wakeOne r.exitSemaphore m = .ok w n ∧ Quiet n k' := by
  unfold reportExit at h
  rw [get_bind_eq_ok] at h
  cases hp : k.threads[p]? with
  | none =>
    simp only [hp, pure_eq_ok] at h
    exact .inl ⟨by rw [recordOf, hp]; rfl, h.2.symm⟩
  | some pth =>
    simp only [hp] at h
    rw [recordOf_eq hp]
    cases hr : pth.family.children[t]? with
    | none =>
      simp only [hr, pure_eq_ok] at h
      exact .inl ⟨rfl, h.2.symm⟩
    | some r =>
      simp only [hr, changeFamily_bind_eq_ok] at h
      obtain ⟨-, h⟩ := h
      have hrest :
          ∀ m : Core, (wakeOne r.exitSemaphore >>= fun _ => say (.reports t v p)) m = .ok u k' →
          ∃ n w, wakeOne r.exitSemaphore m = .ok w n ∧ Quiet n k' := by
        intro m h
        rw [bind_eq_ok] at h
        obtain ⟨w, n, hn, h⟩ := h
        exact ⟨n, w, hn, quiet_say h⟩
      cases hf : r.forked with
      | true =>
        simp only [hf, Bool.not_true, Bool.false_eq_true, if_false] at h
        obtain ⟨n, w, hn, hq⟩ := hrest _ h
        exact .inr ⟨r, pth, _, n, w, rfl, rfl, fun _ => rfl, fun h => by simp [hf] at h, hn, hq⟩
      | false =>
        simp only [hf, Bool.not_false, if_true] at h
        rw [bind_eq_ok] at h
        obtain ⟨w, m, hm, h⟩ := h
        obtain ⟨n, w', hn, hq⟩ := hrest m h
        exact .inr
          ⟨r, pth, m, n, w', rfl, rfl, fun h => by simp [hf] at h, fun _ => ⟨w, hm⟩, hn, hq⟩

theorem post_changeFamily (t : ThreadId) (f : Family → Family) : Keeps post (changeFamily t f) := by
  intro k _ k' h
  exact (changeFamily_eq_ok.mp h).2 ▸ rfl

theorem post_orphan (entries : List (ThreadId × ChildRecord)) : Keeps post (orphan entries) :=
  discreet_post.orphan entries post_changeFamily fun entry =>
    discreet_post.dropRecord entry fun _ => keeps_modify fun _ => rfl

theorem post_reportExit (t : ThreadId) (v : Int32) (p : ThreadId) : Keeps post (reportExit t v p) :=
  discreet_post.reportExit t v p post_changeFamily post_wakeOne

theorem post_leaveFamily (t : ThreadId) : Keeps post (leaveFamily t) :=
  discreet_post.leaveFamily t (fun _ _ => keeps_modify fun _ => rfl) post_changeFamily post_orphan
    (post_reportExit t)

/-! ## The operations -/

section Operations

variable {office : ObjectId → Option Office} (A : k.Assigned office)

include A

theorem collect_kinship {a : Except Refusal ChildStatus} (h : collect p c k = .ok a k') :
    (a = .error .noSuchEntry ∧ k.kinship.bond p c = none ∧ k' = k) ∨
      (a = .ok .running ∧ (∃ b, k.kinship.bond p c = some b ∧ b.status = none) ∧ k' = k) ∨
      ∃ b v, a = .ok (.exited v) ∧ k.kinship.bond p c = some b ∧ b.status = some v ∧
        k'.Assigned office ∧ k.SameAtHand office k' ∧ k'.kinship = k.kinship.setBond p c none := by
  unfold collect at h
  simp only [ask_bind_eq_ok, childRecord_eq_ok] at h
  obtain ⟨o, ⟨⟨th, hth⟩, ho⟩, h⟩ := h
  cases o with
  | none =>
    obtain ⟨rfl, rfl⟩ := pure_eq_ok.mp h
    exact .inl ⟨rfl, bond_of_none ho, rfl⟩
  | some r =>
    obtain ⟨f, e, -, -, hb⟩ := A.bond ho
    cases hs : r.status with
    | none =>
      simp only [hs, pure_eq_ok] at h
      obtain ⟨rfl, rfl⟩ := h
      exact .inr (.inl ⟨rfl, ⟨_, hb, hs⟩, rfl⟩)
    | some v =>
      simp only [hs, changeFamily_bind_eq_ok] at h
      simp only [bind_eq_ok, pure_eq_ok] at h
      obtain ⟨-, _, m, hm, rfl, rfl⟩ := h
      obtain ⟨A₁, hk₁⟩ := A.erase hth (c := c)
      obtain ⟨A₂, hk₂, -, hh⟩ := A₁.dropRecord (A.offices p c r ho) (by
        rw [recordOf_mapFamily hth, if_pos rfl]
        simp) hm
      exact .inr (.inr ⟨_, v, rfl, hb, hs, A₂, (SameAtHand.mapFamily k p _).trans hh,
        hk₂.trans hk₁⟩)

theorem setExitStatus_kinship {v : Int32} (h : setExitStatus v k = .ok u k') :
    k'.Assigned office ∧ k.kinship.status k.current ≠ none ∧
      k'.kinship = k.kinship.setStatus k.current v := by
  unfold setExitStatus at h
  simp only [ask_bind_eq_ok, changeFamily_eq_ok] at h
  obtain ⟨th, hr, -, rfl⟩ := h
  obtain ⟨hth, -, -⟩ := running_eq_ok.mp hr
  have hid : th.id = k.current := (A.thread k.current (th.id, th.family) (by rw [ties, hth]; rfl)).1
  rw [hid]
  obtain ⟨A', hb⟩ := A.keepRecords hth (f := fun f => { f with exitStatus := v }) fun _ => rfl
  refine ⟨A', by simp [status_eq, hth],
    kinship_eq (fun q d => congrFun (congrFun hb q) d) ?_ ?_ rfl⟩
  · intro d
    show _ = k.parentOf d
    rw [parentOf_mapFamily hth]
    split
    · rename_i hd
      rw [hd, parentOf_eq hth]
    · rfl
  · intro d
    show _ = Function.update k.kinship.status k.current (some v) d
    rw [status_eq, mapFamily, getElem?_mapThread, Function.update_apply]
    split
    · rw [hth]
      rfl
    · rw [status_eq]

theorem Assigned.running_id {th : Thread} (hr : k.running = .ok th) :
    th.id = k.current ∧ k.threads[k.current]? = some th := by
  obtain ⟨hth, -, -⟩ := running_eq_ok.mp hr
  exact ⟨(A.thread k.current (th.id, th.family) (by rw [ties, hth]; rfl)).1, hth⟩

theorem awaitFork_kinship {a : Except Refusal Unit} (h : awaitFork c k = .ok a k') :
    (a = .error .noSuchEntry ∧ k.kinship.bond k.current c = none ∧ k' = k) ∨
      ∃ b, a = .ok () ∧ k.kinship.bond k.current c = some b ∧ k'.Assigned office ∧
        k.SameAtHand office k' ∧ k'.kinship = k.kinship.setBond k.current c
        (some { b with fork := b.fork.taken k.current }) := by
  unfold awaitFork at h
  simp only [ask_bind_eq_ok] at h
  obtain ⟨th, hr, h⟩ := h
  obtain ⟨hid, -⟩ := A.running_id hr
  simp only [childRecord_eq_ok, hid] at h
  obtain ⟨o, ⟨-, ho⟩, h⟩ := h
  cases o with
  | none =>
    obtain ⟨rfl, rfl⟩ := pure_eq_ok.mp h
    exact .inl ⟨rfl, bond_of_none ho, rfl⟩
  | some r =>
    obtain ⟨f, e, hf, -, hb⟩ := A.bond ho
    simp only [bind_eq_ok, pure_eq_ok] at h
    obtain ⟨_, m, hm, rfl, rfl⟩ := h
    obtain ⟨th', x, hr', hx, hs, -⟩ := down_sets hm
    obtain rfl : x = f := Option.some.inj (hx.symm.trans hf)
    rw [(A.running_id hr').1] at hs
    exact .inr
      ⟨_, rfl, hb, A.sets hs hx, .of_sets hs (A.not_caller ho).1, A.kinship_setsFork ho hb hs⟩

theorem awaitExit_kinship {a : Except Refusal Int32} (h : awaitExit c k = .ok a k') :
    (a = .error .noSuchEntry ∧ k.kinship.bond k.current c = none ∧ k' = k) ∨
      (∃ b, a = .error .busy ∧ k.kinship.bond k.current c = some b ∧ b.status = none ∧
        k'.Assigned office ∧ k.SameAtHand office k' ∧
        k'.kinship = k.kinship.setBond k.current c
        (some { b with exit := b.exit.taken k.current })) ∨
      ∃ b v, a = .ok v ∧ k.kinship.bond k.current c = some b ∧ b.status = some v ∧
        k'.Assigned office ∧ k.SameAtHand office k' ∧
        k'.kinship = k.kinship.setBond k.current c none := by
  unfold awaitExit at h
  simp only [ask_bind_eq_ok] at h
  obtain ⟨th, hr, h⟩ := h
  obtain ⟨hid, -⟩ := A.running_id hr
  rw [hid, bind_eq_ok] at h
  obtain ⟨first, m, hm, h⟩ := h
  rcases collect_kinship A hm with ⟨rfl, hb, rfl⟩ | ⟨rfl, ⟨b, hb, hst⟩, rfl⟩ |
    ⟨b, v, rfl, hb, hst, A', hh, hk'⟩
  · obtain ⟨rfl, rfl⟩ := pure_eq_ok.mp h
    exact .inl ⟨rfl, hb, rfl⟩
  · obtain ⟨r, ho, -, he, -, hst'⟩ := of_bond hb
    simp only [ask_bind_eq_ok, childRecord_eq_ok, ho] at h
    obtain ⟨_, ⟨-, rfl⟩, h⟩ := h
    simp only at h
    rw [bind_eq_ok] at h
    obtain ⟨_, n, hn, h⟩ := h
    obtain ⟨th', x, hr', hx, hs, -⟩ := down_sets hn
    obtain rfl : x = b.exit := Option.some.inj (hx.symm.trans he)
    rw [(A.running_id hr').1] at hs
    have An := A.sets hs hx
    have hkn := A.kinship_setsExit ho hb hs
    rw [get_bind_eq_ok] at h
    split at h
    · obtain ⟨rfl, rfl⟩ := pure_eq_ok.mp h
      exact .inr (.inl ⟨b, rfl, hb, hst, An, .of_sets hs (A.not_caller ho).2, hkn⟩)
    · -- The wait was over at once, but the child still runs.
      rw [bind_eq_ok] at h
      obtain ⟨second, n', hn', h⟩ := h
      have hbn : n.kinship.bond m.current c = some { b with exit := b.exit.taken m.current } := by
        rw [hkn, Kinship.setBond_bond_self]
      rcases collect_kinship An hn' with ⟨-, hb', -⟩ | ⟨rfl, -, -⟩ | ⟨b', v, -, hb', hst', -⟩
      · rw [hbn] at hb'
        cases hb'
      · simp [throw_eq_ok] at h
      · rw [hbn, Option.some.injEq] at hb'
        rw [← hb', hst] at hst'
        cases hst'
  · obtain ⟨rfl, rfl⟩ := pure_eq_ok.mp h
    exact .inr (.inr ⟨b, v, rfl, hb, hst, A', hh, hk'⟩)

/-- The parent learns of the report, and a unit is brought to the fork semaphore. -/
theorem reportFork_eq_ok {a : Except Refusal Unit} (h : reportFork k = .ok a k') :
    (∃ refusal, a = .error refusal ∧ k' = k ∧ ∀ p r, k.parentOf k.current = some p →
        k.recordOf p k.current = some r → r.forked = true) ∨
      ∃ p r pth, a = .ok () ∧ k.parentOf k.current = some p ∧ k.threads[p]? = some pth ∧
      k.recordOf p k.current = some r ∧ r.forked = false ∧
      up r.forkSemaphore (k.mapFamily p fun f =>
        { f with children := f.children.insert k.current { r with forked := true } }) =
        .ok () k' := by
  unfold reportFork at h
  simp only [ask_bind_eq_ok, thread_eq_ok_iff] at h
  obtain ⟨th, hr, th', hth', h⟩ := h
  obtain ⟨hid, hth⟩ := A.running_id hr
  rw [hid] at hth' h
  obtain rfl : th = th' := Option.some.inj (hth.symm.trans hth')
  cases hp : th.family.parent with
  | none =>
    simp only [hp, pure_eq_ok] at h
    refine .inl ⟨_, h.1.symm, h.2.symm, fun q r hq => ?_⟩
    rw [parentOf_eq hth, hp] at hq
    cases hq
  | some p =>
    have hparent : ∀ q, k.parentOf k.current = some q → p = q := by
      intro q hq
      rw [parentOf_eq hth, hp] at hq
      exact Option.some.inj hq
    simp only [hp, ask_bind_eq_ok, childRecord_eq_ok] at h
    obtain ⟨o, ⟨⟨pth, hpth⟩, ho⟩, h⟩ := h
    cases o with
    | none =>
      obtain ⟨rfl, rfl⟩ := pure_eq_ok.mp h
      refine .inl ⟨_, rfl, rfl, fun q r hq hr => ?_⟩
      obtain rfl := hparent q hq
      rw [ho] at hr
      cases hr
    | some r =>
      by_cases hf : r.forked = true
      · simp only [hf, if_true, pure_eq_ok] at h
        refine .inl ⟨_, h.1.symm, h.2.symm, fun q r' hq hr => ?_⟩
        obtain rfl := hparent q hq
        obtain rfl := Option.some.inj (ho.symm.trans hr)
        exact hf
      · simp only [if_neg hf, changeFamily_bind_eq_ok] at h
        simp only [bind_eq_ok, pure_eq_ok] at h
        obtain ⟨-, _, m, hm, rfl, rfl⟩ := h
        exact .inr ⟨p, r, pth, rfl, by rw [parentOf_eq hth, hp], hpth, ho, by simpa using hf, hm⟩

theorem reportFork_kinship {a : Except Refusal Unit} (h : reportFork k = .ok a k') :
    (∃ refusal, a = .error refusal ∧ k' = k) ∨ ∃ p b o, a = .ok () ∧
      k.parentOf k.current = some p ∧ k.kinship.bond p k.current = some b ∧ b.forked = false ∧
      b.fork.Gives o ∧ k'.Assigned office ∧ k.SameAtHand office k' ∧
      k'.kinship = k.kinship.setBond p k.current (some { b with forked := true, fork := o }) := by
  rcases reportFork_eq_ok A h with ⟨refusal, ha, hk, -⟩ | ⟨p, r, pth, rfl, hp, hpth, hr, hf, h⟩
  · exact .inl ⟨refusal, ha, hk⟩
  obtain ⟨f, e, hfs, hes, hb⟩ := A.bond hr
  obtain ⟨A₁, hk₁⟩ := A.insert hpth { r with forked := true } (A.offices _ _ r hr) hfs hes
  obtain ⟨x, w, hx, hw, hs, -⟩ := up_sets h
  obtain rfl : x = f := Option.some.inj (hx.symm.trans hfs)
  have hr₁ : (k.mapFamily p fun f => { f with
      children := f.children.insert k.current { r with forked := true } }).recordOf p k.current =
      some { r with forked := true } := by
    rw [recordOf_mapFamily hpth, if_pos rfl]
    simp
  have hb₁ : (k.mapFamily p fun f => { f with
      children := f.children.insert k.current { r with forked := true } }).kinship.bond p
      k.current = some ⟨true, r.status, x, e⟩ := by
    rw [hk₁, Kinship.setBond_bond_self]
  refine .inr ⟨p, _, x.given w, rfl, hp, hb, hf, Semaphore.gives_given hw, A₁.sets hs hx,
    (SameAtHand.mapFamily k p _).trans (.of_sets hs (A.not_caller hr).1), ?_⟩
  rw [A₁.kinship_setsFork hr₁ hb₁ hs, hk₁, Kinship.setBond_setBond]

/-- A report that a parent waits for is not refused, and it wakes the parent. -/
theorem reportFork_wakes {a : Except Refusal Unit} (h : reportFork k = .ok a k')
    (hp : k.parentOf k.current = some p) (hb : k.kinship.bond p k.current = some b)
    (hf : b.forked = false) (hserves : b.Serves p) (hne : b.fork.waiters.entries ≠ []) :
    a = .ok () ∧ k'.Awake p := by
  obtain ⟨r, hr, hfork, -, hforked, -⟩ := of_bond hb
  rcases reportFork_eq_ok A h with ⟨refusal, -, -, hall⟩ | ⟨q, r', pth, rfl, hq, hpth, hr', -, h⟩
  · rw [hforked, hall p r hp hr] at hf
    cases hf
  obtain rfl := Option.some.inj (hp.symm.trans hq)
  obtain rfl := Option.some.inj (hr.symm.trans hr')
  obtain ⟨x, w, hx, hw, hs, hawake⟩ := up_sets h
  obtain rfl : b.fork = x := Option.some.inj (hfork.symm.trans hx)
  cases w with
  | none => exact absurd (Queue.foremostOf_eq_none_iff.mp hw) hne
  | some t =>
    obtain rfl := hserves.1 t (Queue.mem_of_foremostOf hw)
    exact ⟨rfl, hawake t rfl⟩

/-- A child is put on record with two new semaphores. -/
theorem adopt_kinship (h : adopt p c k = .ok u k') :
    ∃ office', k'.Assigned office' ∧ (∀ i, i ≤ k.objects.lastId → office' i = office i) ∧
      k.objects.lastId ≤ k'.objects.lastId ∧ k.SameAtHand office k' ∧ k'.kinship =
        (k.kinship.setBond p c (some .fresh)).setParents
          fun d => if d = c then some p else k.parentOf d := by
  unfold adopt at h
  simp only [bind_eq_ok, changeFamily_eq_ok] at h
  obtain ⟨fs, m₁, h₁, es, m₂, h₂, _, _, ⟨⟨pth, hpth⟩, rfl⟩, ⟨cth, hcth⟩, rfl⟩ := h
  obtain ⟨A₁, hk₁, -, hfs₁, hlt₁, hkeep₁⟩ := A.newSemaphore h₁ (some (.fork p c))
  obtain ⟨A₂, hk₂, -, hes₂, hlt₂, hkeep⟩ := A₁.newSemaphore h₂ (some (.exit p c))
  have hfs_le : fs ≤ m₁.objects.lastId := A₁.semaphore fs _ hfs₁
  have hne : fs ≠ es := (hfs_le.trans_lt hlt₂).ne
  have hles : es ≤ m₂.objects.lastId := A₂.semaphore es _ hes₂
  obtain ⟨A₃, hk₃⟩ := A₂.insert hpth (c := c) ⟨fs, es, false, none⟩
    ⟨by rw [Function.update_of_ne hne, Function.update_self], Function.update_self ..⟩
    ((hkeep fs hne).trans hfs₁) hes₂
  obtain ⟨A₄, hb₄⟩ := A₃.keepRecords hcth (f := fun f => { f with parent := some p }) fun _ => rfl
  have hbase : m₂.kinship = k.kinship := hk₂.trans hk₁
  have hold : ∀ i, i ≤ k.objects.lastId → i ≠ fs ∧ i ≠ es := fun i hi =>
    ⟨(hi.trans_lt hlt₁).ne, (hi.trans_lt (hlt₁.trans_le (hfs_le.trans hlt₂.le))).ne⟩
  refine ⟨_, A₄, fun i hi => ?_, ?_, fun i hi => ?_, kinship_eq ?_ ?_ ?_ ?_⟩
  · rw [Function.update_of_ne (hold i hi).2, Function.update_of_ne (hold i hi).1]
  · exact (hlt₁.le.trans hfs_le).trans (hlt₂.le.trans hles)
  · obtain ⟨h₁, h₂⟩ := hold i (A.issued i (by simp [hi]))
    exact (hkeep i h₂).trans (hkeep₁ i h₁)
  · intro q d
    rw [hb₄, hk₃, hbase]
    rfl
  · intro d
    rw [parentOf_mapFamily hcth]
    show _ = if d = c then some p else k.kinship.parent d
    rw [← hbase]
    split
    · rfl
    · exact congrFun (congrArg Kinship.parent hk₃) d
  · intro t
    refine (status_mapFamily (f := fun f => { f with parent := some p }) (fun _ => rfl) t).trans ?_
    rw [hk₃, hbase]
    rfl
  · exact congrArg Kinship.nextThread hbase

theorem spawn_kinship {name : String} {priority : Priority} {task : Option Task}
    {a : Except Refusal ThreadId} (h : spawn name priority task k = .ok a k') :
    (∃ refusal, a = .error refusal ∧ k'.kin = k.kin) ∨
      ∃ office', a = .ok k.nextThread ∧ k.current < k.nextThread ∧ k'.Assigned office' ∧
        (∀ i, i ≤ k.objects.lastId → office' i = office i) ∧
        k.objects.lastId ≤ k'.objects.lastId ∧ k.SameAtHand office k' ∧
        k'.kinship = k.kinship.addChild k.current := by
  unfold spawn checkPriority at h
  simp only [demand_bind_eq_ok, ask_bind_eq_ok] at h
  obtain ⟨-, th, hr, h⟩ := h
  obtain ⟨hid, hth⟩ := A.running_id hr
  have hlt : k.current < k.nextThread :=
    (A.thread k.current (th.id, th.family) (by rw [ties, hth]; rfl)).2
  rw [bind_eq_ok] at h
  obtain ⟨r, m, hm, h⟩ := h
  rcases register_eq_ok hm with ⟨refusal, rfl, hq⟩ | ⟨n, page, hq, rfl, rfl⟩
  · simp only [bind_eq_ok, pure_eq_ok] at h
    obtain ⟨_, m', hm', rfl, rfl⟩ := h
    exact .inl ⟨_, rfl, ((keeps_say _).kin _ _ _ hm').trans hq.kin⟩
  · simp only [bind_eq_ok, pure_eq_ok] at h
    obtain ⟨_, m₁, h₁, _, m₂, h₂, _, m₃, h₃, _, m₄, h₄, rfl, rfl⟩ := h
    obtain ⟨An, hkn⟩ := A.of_kin hq.kin
    obtain ⟨Ae, hbe, hpe, hse, hnone⟩ := An.enlist rfl
    rw [hid] at h₁
    obtain ⟨office', A₁, hoff, hle, hh, hk₁⟩ := adopt_kinship Ae h₁
    have hrest : m₄.kin = m₁.kin := by
      rw [keeps_preempt.kin _ _ _ h₄, (keeps_unblock _).kin _ _ _ h₃, (keeps_say _).kin _ _ _ h₂]
    obtain ⟨A', hk'⟩ := A₁.of_kin hrest
    refine .inr ⟨office', by rw [hq.nextThread], hlt, A', fun i hi => hoff i ?_, ?_,
      ((SameAtHand.of_kin hq.kin).trans hh).trans (.of_kin hrest), ?_⟩
    · rwa [← hq.objects] at hi
    · rw [kin_lastId hrest, ← hq.objects]
      exact hle
    · rw [hk', hk₁, ← hkn]
      have hnext : n.kinship.nextThread = n.nextThread := rfl
      simp only [Kinship.setParents, Kinship.setBond, Kinship.addChild, hbe, hpe, hnext]
      congr 1
      funext t
      exact hse t

/-- The children of a thread that keeps no records any more lose their parent. -/
theorem orphan_kinship {entries : List (ThreadId × ChildRecord)}
    (ho : ∀ e ∈ entries, office e.2.forkSemaphore = some (.fork t e.1) ∧
      office e.2.exitSemaphore = some (.exit t e.1))
    (hn : ∀ c, k.recordOf t c = none) (h : orphan entries k = .ok u k') :
    k'.Assigned office ∧ k.SameAtHand office k' ∧ (∀ c, k'.recordOf t c = none) ∧ k'.kinship =
      k.kinship.setParents fun d => if d ∈ entries.map Prod.fst then none else k.parentOf d := by
  induction entries generalizing k with
  | nil =>
    obtain ⟨-, rfl⟩ := pure_eq_ok.mp h
    exact ⟨A, .refl k office, hn, rfl⟩
  | cons entry rest ih =>
    obtain ⟨c, r⟩ := entry
    -- What remains after the child has lost its parent.
    have hrest : ∀ m : Core, m.Assigned office → k.SameAtHand office m →
        (∀ c, m.recordOf t c = none) →
          m.kinship = (k.kinship.setParents fun d => if d = c then none else k.parentOf d) →
        (dropRecord r >>= fun _ => orphan rest) m = .ok u k' →
        k'.Assigned office ∧ k.SameAtHand office k' ∧ (∀ c, k'.recordOf t c = none) ∧
          k'.kinship = k.kinship.setParents fun d => if d ∈ ((c, r) :: rest).map Prod.fst then none
            else k.parentOf d := by
      intro m Am hhm hnm hkm h
      rw [bind_eq_ok] at h
      obtain ⟨_, n, hn, h⟩ := h
      obtain ⟨An, hkn, htn, hhn⟩ := Am.dropRecord (ho (c, r) (List.mem_cons_self ..)) (hnm c) hn
      obtain ⟨A', hh', hn', hk'⟩ := ih An (fun e he => ho e (List.mem_cons_of_mem _ he))
        (fun c => by rw [recordOf_congr htn, hnm c]) h
      refine ⟨A', (hhm.trans hhn).trans hh', hn', ?_⟩
      have hpn : ∀ d, n.parentOf d = if d = c then none else k.parentOf d := fun d =>
        congrFun (congrArg Kinship.parent (hkn.trans hkm)) d
      rw [hk', hkn, hkm]
      refine congrArg k.kinship.setParents (funext fun d => ?_)
      rw [hpn d]
      by_cases hd : d = c
      · rw [if_pos hd, ite_self, if_pos (by simp [hd])]
      · rw [if_neg hd]
        exact if_congr (by simp [hd]) rfl rfl
    unfold orphan at h
    rw [get_bind_eq_ok] at h
    split at h
    · simp only [changeFamily_bind_eq_ok] at h
      obtain ⟨⟨th, hth⟩, h⟩ := h
      obtain ⟨A₁, hb₁⟩ := A.keepRecords hth (f := fun f => { f with parent := none }) fun _ => rfl
      refine hrest _ A₁ (.of_semaphores rfl) (fun d => ?_)
        (kinship_eq (fun p d => by rw [hb₁]; rfl) (fun d => ?_)
        (status_mapFamily fun _ => rfl) rfl) h
      · rw [recordOf_mapFamily hth]
        split
        · rename_i ht
          have := hn d
          rwa [ht, recordOf_eq hth] at this
        · exact hn d
      · exact parentOf_mapFamily hth d
    · rename_i hc
      refine hrest k A (.refl k office) hn
        (kinship_eq (fun _ _ => rfl) (fun d => ?_) (fun _ => rfl) rfl) h
      show _ = if d = c then none else k.parentOf d
      split
      · rename_i hd
        rw [hd, parentOf, Std.ExtTreeMap.getElem?_eq_none hc]
        rfl
      · rfl

theorem reportExit_kinship {v : Int32} (h : reportExit t v p k = .ok u k') :
    (k.kinship.bond p t = none ∧ k' = k) ∨ ∃ b b', k.kinship.bond p t = some b ∧ b.Closes v b' ∧
      k'.Assigned office ∧ k.SameAtHand office k' ∧ k'.kinship = k.kinship.setBond p t (some b') ∧
      (b.Serves p → b.Expected → k'.Awake p) := by
  rcases reportExit_eq_ok h with ⟨hr, rfl⟩ | ⟨r, pth, m, n, w, hpth, hr, hforked, hfork, hn, hq⟩
  · exact .inl ⟨bond_of_none hr, rfl⟩
  obtain ⟨f, e, hf, he, hb⟩ := A.bond hr
  obtain ⟨A₁, hk₁⟩ : (k.closeRecord p t r v).Assigned office ∧
      (k.closeRecord p t r v).kinship = k.kinship.setBond p t (some ⟨true, some v, f, e⟩) :=
    A.insert hpth { r with forked := true, status := some v } (A.offices p t r hr) hf he
  have hr₁ : (k.closeRecord p t r v).recordOf p t =
      some { r with forked := true, status := some v } := by
    rw [closeRecord, recordOf_mapFamily hpth, if_pos rfl]
    simp
  have hb₁ : (k.closeRecord p t r v).kinship.bond p t = some ⟨true, some v, f, e⟩ := by
    rw [hk₁, Kinship.setBond_bond_self]
  -- The fork semaphore gets a unit unless the child has reported.
  obtain ⟨f', hfork', Am, hhm, hkm, hrm, hbm, hwakes⟩ : ∃ f',
      (if r.forked then f' = f else f.Gives f') ∧
      m.Assigned office ∧ k.SameAtHand office m ∧
        m.kinship = k.kinship.setBond p t (some ⟨true, some v, f', e⟩) ∧
      m.recordOf p t = some { r with forked := true, status := some v } ∧
      m.kinship.bond p t = some ⟨true, some v, f', e⟩ ∧
      ((∀ t ∈ f.waiters.entries, t = p) → r.forked = false → f.waiters.entries ≠ [] →
        m.Awake p) := by
    cases hfk : r.forked with
    | true =>
      obtain rfl := hforked hfk
      exact ⟨f, by simp, A₁, .of_semaphores rfl, hk₁, hr₁, hb₁, nofun⟩
    | false =>
      obtain ⟨w', hm⟩ := hfork hfk
      obtain ⟨x, hx, hw, hs, -⟩ := wakeOne_sets hm
      obtain rfl : x = f := Option.some.inj (hx.symm.trans hf)
      have hkm := A₁.kinship_setsFork hr₁ hb₁ hs
      refine ⟨x.given w', by simpa using Semaphore.gives_given hw, A₁.sets hs hx,
        (SameAtHand.mapFamily k p _).trans (.of_sets hs (A.not_caller hr).1), ?_, ?_, ?_,
        fun hp _ hne => wakeOne_serves hm hx hp hne⟩
      · rw [hkm, hk₁, Kinship.setBond_setBond]
      · rw [recordOf_congr hs.ties, hr₁]
      · rw [hkm, Kinship.setBond_bond_self]
  obtain ⟨y, hy, hw, hs, -⟩ := wakeOne_sets hn
  obtain ⟨r', hr', -, he', -⟩ := of_bond hbm
  obtain rfl := Option.some.inj (hrm.symm.trans hr')
  obtain rfl : y = e := Option.some.inj (hy.symm.trans he')
  obtain ⟨A', hk'⟩ := (Am.sets hs hy).of_kin hq.kin
  refine .inr
    ⟨_, ⟨true, some v, f', y.given w⟩, hb, ⟨rfl, rfl, hfork', Semaphore.gives_given hw⟩, A',
    (hhm.trans (.of_sets hs (A.not_caller hr).2)).trans (.of_kin hq.kin), ?_,
    fun hserves hexp => Awake.quiet ?_ hq⟩
  · rw [hk', Am.kinship_setsExit hrm hbm hs, hkm, Kinship.setBond_setBond]
  · rcases hexp with ⟨hf, hne⟩ | hne
    · exact (hwakes hserves.1 hf hne).wakeOne hn
    · exact wakeOne_serves hn hy hserves.2 hne

/-- A thread leaves its family. -/
theorem leaveFamily_kinship (hK : k.kinship.Sound) (h : leaveFamily t k = .ok u k') :
    k'.Assigned office ∧ k.SameAtHand office k' ∧ (∀ c, k'.recordOf t c = none) ∧
      k.kinship.Exits t k'.kinship ∧
      ∀ p b, k.kinship.parent t = some p → k.kinship.bond p t = some b → b.Serves p → b.Expected →
        k'.Awake p := by
  obtain ⟨th, m, m₂, hth, hq, h₂, h⟩ := leaveFamily_eq_ok h
  obtain ⟨Am, hkm⟩ := A.of_kin hq.kin
  have hmth : m.threads[t]? = some th := by rw [hq.threads, hth]
  rw [← hkm] at hK ⊢
  set m₁ := m.mapFamily t fun f => { f with parent := none, children := ∅ } with hm₁
  have A₁ : m₁.Assigned office := Am.mapFamily hmth fun c r hr => by simp at hr
  have hrec₁ : ∀ p c, m₁.recordOf p c = if p = t then none else m.recordOf p c := by
    intro p c
    rw [hm₁, recordOf_mapFamily hmth]
    exact if_congr Iff.rfl (by simp) rfl
  have hbond₁ : ∀ p c, m₁.kinship.bond p c = if p = t then none else m.kinship.bond p c := by
    intro p c
    split
    · rename_i hp
      exact bond_of_none (by rw [hrec₁, if_pos hp])
    · rename_i hp
      exact bond_congr (by rw [hrec₁, if_neg hp]) fun _ _ => ⟨rfl, rfl⟩
  have hkey : ∀ d, d ∈ th.family.children.toList.map Prod.fst ↔ ∃ r, m.recordOf t d = some r := by
    intro d
    simp only [recordOf_eq hmth, List.mem_map, Prod.exists,
      Std.ExtTreeMap.mem_toList_iff_getElem?_eq_some]
    constructor
    · rintro ⟨c, r, hr, rfl⟩
      exact ⟨r, hr⟩
    · rintro ⟨r, hr⟩
      exact ⟨d, r, hr, rfl⟩
  have hoffices : ∀ e ∈ th.family.children.toList, office e.2.forkSemaphore = some (.fork t e.1) ∧
      office e.2.exitSemaphore = some (.exit t e.1) := fun e he =>
    Am.offices t e.1 e.2 (by
      rw [recordOf_eq hmth]
      exact Std.ExtTreeMap.mem_toList_iff_getElem?_eq_some.mp he)
  obtain ⟨A₂, hh₂, hn₂, hk₂⟩ := orphan_kinship A₁ hoffices (fun c => by rw [hrec₁, if_pos rfl]) h₂
  have hparent₂ : ∀ d, m₂.kinship.parent d =
      if d = t ∨ m.kinship.parent d = some t then none else m.kinship.parent d := by
    intro d
    rw [hk₂]
    show (if _ then none else m₁.parentOf d) = if d = t ∨ m.parentOf d = some t then none
      else m.parentOf d
    rw [hm₁, parentOf_mapFamily hmth]
    by_cases hd : d ∈ th.family.children.toList.map Prod.fst
    · rw [if_pos hd]
      obtain ⟨r, hr⟩ := (hkey d).mp hd
      obtain ⟨f, e, -, -, hb⟩ := Am.bond hr
      by_cases hs : r.status = none
      · rw [if_pos (.inr ((hK.agree t d).mpr ⟨_, hb, hs⟩))]
      · have hgone : m.parentOf d = none := hK.gone t d _ hb hs
        rw [hgone, ite_self]
    · rw [if_neg hd]
      have hne : m.parentOf d ≠ some t := by
        intro hp
        obtain ⟨b, hb, -⟩ := (hK.agree t d).mp hp
        obtain ⟨r, hr, -⟩ := of_bond hb
        exact hd ((hkey d).mpr ⟨r, hr⟩)
      exact if_congr (by simp [hne]) rfl rfl
  have hbond₂ : ∀ p c, m₂.kinship.bond p c = if p = t then none else m.kinship.bond p c :=
    fun p c => (congrFun (congrFun (congrArg Kinship.bond hk₂) p) c).trans (hbond₁ p c)
  have hstatus₂ : ∀ d, m₂.kinship.status d = m.kinship.status d := fun d =>
    (congrFun (congrArg Kinship.status hk₂) d).trans <|
      status_mapFamily (f := fun f => { f with parent := none, children := ∅ }) (fun _ => rfl) d
  have hnext₂ : m₂.kinship.nextThread = m.kinship.nextThread := by
    rw [hk₂]
    rfl
  have hparent : m.kinship.parent t = th.family.parent := parentOf_eq hmth
  have hlive : m.kinship.status t ≠ none := by simp [status_eq, hmth]
  have hhand : k.SameAtHand office m₂ :=
    ((SameAtHand.of_kin hq.kin).trans (.mapFamily m t _)).trans hh₂
  rcases h with ⟨hp, rfl⟩ | ⟨parent, hp, h⟩
  · have hnone : ∀ p, m.kinship.parent t ≠ some p := by
      intro p ht
      rw [hparent, hp] at ht
      cases ht
    exact ⟨A₂, hhand, hn₂, ⟨hlive, hnext₂, hparent₂, fun c _ => hstatus₂ c, fun p c _ => hbond₂ p c,
      fun p ht => absurd ht (hnone p)⟩, fun p b ht => absurd ht (hnone p)⟩
  · rw [hp] at hparent
    obtain ⟨b, hb, -⟩ := (hK.agree parent t).mp hparent
    have hne : parent ≠ t := (hK.older parent t b hb).1.ne
    have hb₂ : m₂.kinship.bond parent t = some b := by rw [hbond₂, if_neg hne, hb]
    rcases reportExit_kinship A₂ h with ⟨hnone, -⟩ | ⟨b₁, b', hb₁, hcloses, A', hh', hk', hwakes⟩
    · rw [hb₂] at hnone
      cases hnone
    obtain rfl := Option.some.inj (hb₂.symm.trans hb₁)
    have hbond' : ∀ p c, ¬ (p = parent ∧ c = t) → k'.kinship.bond p c = m₂.kinship.bond p c := by
      intro p c hpc
      rw [hk']
      exact if_neg hpc
    refine ⟨A', hhand.trans hh', fun c => A'.record_eq_none ?_, ⟨hlive, ?_, ?_, ?_, ?_, ?_⟩, ?_⟩
    · rw [hbond' _ _ fun h => hne h.1.symm, hbond₂, if_pos rfl]
    · rw [hk']
      exact hnext₂
    · rw [hk']
      exact hparent₂
    · intro c _
      rw [hk']
      exact hstatus₂ c
    · intro p c hpc
      rw [hbond' p c, hbond₂]
      rintro ⟨rfl, rfl⟩
      exact hpc.elim (fun h => h rfl) fun h => h hparent
    · intro p ht
      obtain rfl := Option.some.inj (hparent.symm.trans ht)
      refine ⟨th.family.exitStatus, b, b', by rw [status_eq, hmth]; rfl, hb, hcloses, ?_⟩
      rw [hk', Kinship.setBond_bond_self]
    · intro p b₂ ht hb₂'
      obtain rfl := Option.some.inj (hparent.symm.trans ht)
      obtain rfl := Option.some.inj (hb.symm.trans hb₂')
      exact hwakes

/-- **An exit.** The thread leaves its family, and a parent that waits for it is woken. If another
thread runs then, it is gone. -/
theorem exit_kinship (hK : k.kinship.Sound) (h : exit k = .ok u k') :
    k'.Assigned office ∧ k.SameAtHand office k' ∧ k.kinship.Exits k.current k'.kinship ∧
      (k'.current ≠ k.current → k'.kinship.status k.current = none) ∧
      ∀ p b, k.kinship.parent k.current = some p → k.kinship.bond p k.current = some b →
        b.Serves p → b.Expected → k'.Awake p := by
  obtain ⟨m₁, m₂, m₃, -, -, h₁, hq, h, hq'⟩ := exit_eq_ok (fun _ hr => (A.running_id hr).1) h
  obtain ⟨A₁, hh₁, hn₁, hex, hwakes⟩ := leaveFamily_kinship A hK h₁
  obtain ⟨A₂, hk₂⟩ := A₁.of_kin hq.kin
  have hcurrent : m₂.current = k.current :=
    hq.current.trans (congrArg Prod.fst (post_leaveFamily _ _ _ _ h₁))
  have hn₂ : ∀ c, m₂.recordOf k.current c = none := by
    intro c
    rw [recordOf_congr (kin_ties hq.kin), hn₁]
  rw [← hk₂] at hex
  obtain ⟨A₃, hh₃, hb₃, hp₃, hs₃, hgone, hx₃⟩ : m₃.Assigned office ∧
      m₃.objects.semaphores = m₂.objects.semaphores ∧ m₃.kinship.bond = m₂.kinship.bond ∧
      m₃.kinship.parent = m₂.kinship.parent ∧
      (∀ c, c ≠ k.current → m₃.kinship.status c = m₂.kinship.status c) ∧
      (m₃.current ≠ k.current → m₃.kinship.status k.current = none) ∧
      m₃.kinship.nextThread = m₂.kinship.nextThread := by
    have he := endTurn_estate h
    split at he
    · have ht : m₃.ties = Function.update m₂.ties k.current none :=
        hcurrent ▸ congrArg Estate.ties he
      obtain ⟨A₃, hb, hp, hs⟩ := A₂.bury hn₂ ((hex.parent k.current).trans (if_pos (.inl rfl))) ht
        (congrArg Estate.objects he) (congrArg Estate.nextThread he)
      exact ⟨A₃, congrArg (·.semaphores) (congrArg Estate.objects he), hb, hp, hs,
        fun _ => by simp [kinship, ht], congrArg Estate.nextThread he⟩
    · rename_i hsame
      obtain ⟨A₃, hk₃⟩ := A₂.of_kin (congrArg Estate.kin he)
      refine ⟨A₃, kin_semaphores (congrArg Estate.kin he), by rw [hk₃], by rw [hk₃],
        fun _ _ => by rw [hk₃], fun hne => ?_, by rw [hk₃]⟩
      exact absurd ⟨rfl, fun h => hne (hcurrent ▸ h.symm)⟩ hsame
  obtain ⟨A', hk'⟩ := A₃.of_kin hq'.kin
  rw [hk', hq'.current]
  have hhand : k.SameAtHand office k' :=
    ((hh₁.trans (.of_kin hq.kin)).trans (.of_semaphores hh₃)).trans (.of_kin hq'.kin)
  refine ⟨A', hhand, ⟨hex.live, hx₃.trans hex.nextThread, fun c => hp₃ ▸ hex.parent c,
    fun c hc => (hs₃ c hc).trans (hex.status c hc), fun p c h => hb₃ ▸ hex.bond p c h,
    fun p hp => hb₃ ▸ hex.closes p hp⟩, hgone, fun p b hp hb hserves hexp => ?_⟩
  have hne : p ≠ m₂.current := by
    rw [hcurrent]
    exact (hK.older p _ b hb).1.ne
  exact (((hwakes p b hp hb hserves hexp).quiet hq).endTurn hne h).quiet hq'

end Operations

/-! ## Booting -/

/-- Nobody has ties after booting, and there are no objects. The idle thread is the second. -/
theorem boot_ties (hthreads : k.threads = ∅) (hobjects : k.objects = .empty)
    (h : boot k = .ok (.ok ()) k') : k'.objects = .empty ∧ k'.idle = k.nextThread + 1 ∧
      ∀ t x, k'.ties t = some x → x.1 = t ∧ t < k'.nextThread ∧ x.2 = .alone := by
  have hrefused : ∀ (refusal : Refusal) (m : Core),
      (shutDown >>= fun _ => (pure (.error refusal) : CoreM (Except Refusal Unit))) m ≠
        .ok (.ok ()) k' := by
    intro refusal m h
    rw [bind_eq_ok] at h
    obtain ⟨_, _, -, h⟩ := h
    cases (pure_eq_ok.mp h).1
  unfold boot at h
  rw [get_bind_eq_ok, demand_bind_eq_ok, get_bind_eq_ok] at h
  obtain ⟨-, h⟩ := h
  rw [bind_eq_ok] at h
  obtain ⟨r, m, hm, h⟩ := h
  rcases register_eq_ok hm with ⟨refusal, rfl, -⟩ | ⟨n, page, hq, rfl, rfl⟩
  · exact absurd h (hrefused refusal m)
  simp only [changeThread_bind_eq_ok, modify_bind_eq_ok] at h
  obtain ⟨-, h⟩ := h
  rw [bind_eq_ok] at h
  obtain ⟨r, m', hm', h⟩ := h
  rcases register_eq_ok hm' with ⟨refusal, rfl, -⟩ | ⟨n', page', hq', rfl, rfl⟩
  · exact absurd h (hrefused refusal m')
  simp only [modify_bind_eq_ok] at h
  simp only [bind_eq_ok, pure_eq_ok] at h
  obtain ⟨_, m₁, h₁, _, m₂, h₂, -, rfl⟩ := h
  have hq₂ :=
    (quiet_modifyMachine (f := (·.withInterrupts true)) (fun _ => rfl) h₁).trans (quiet_say h₂)
  have hn : n.threads = ∅ := hq.threads.trans hthreads
  have hnext : n'.nextThread = n.nextThread + 1 := hq'.nextThread
  refine ⟨((hq₂.objects.trans rfl).trans hq'.objects).trans (hq.objects.trans hobjects), ?_,
    fun t x hx => ?_⟩
  · rw [hq₂.idle, ← hq.nextThread]
    exact hnext
  rw [ties_congr hq₂.threads, ties] at hx
  rw [hq₂.nextThread]
  show _ ∧ t < n'.nextThread + 1 ∧ _
  have hx :
      ((n'.enlist (.create n'.nextThread (Name.clip "idle") 0 page' none none)).threads[t]?).map
      (fun th => (th.id, th.family)) = some x := hx
  rw [getElem?_enlist] at hx
  split at hx
  · rename_i ht
    cases hx
    exact ⟨ht.symm, ht ▸ Nat.lt_succ_self _, rfl⟩
  · rw [hq'.threads] at hx
    have hx : (((n.enlist (.create n.nextThread (Name.clip "main") k.config.mainPriority page none
        none)).mapThread n.nextThread fun th => { th with state := .running }).threads[t]?).map
        (fun th => (th.id, th.family)) = some x := hx
    rw [getElem?_mapThread, getElem?_enlist, getElem?_enlist, hn] at hx
    split at hx
    · rename_i ht
      rw [if_pos rfl] at hx
      cases hx
      refine ⟨ht.symm, ?_, rfl⟩
      rw [ht, hnext]
      exact (Nat.lt_succ_self _).trans (Nat.lt_succ_self _)
    · simp at hx

end Core

namespace Kinship

variable {K K' : Kinship} {p c t : ThreadId} {b b' : Bond} {d : Deed}

/-! ## What every transition keeps -/

/-- A bond may change as long as its status does not. -/
theorem Sound.setBond (hK : K.Sound) (hb : K.bond p c = some b) (hs : b'.status = b.status) :
    (K.setBond p c (some b')).Sound := by
  have hbond : ∀ q d x, (K.setBond p c (some b')).bond q d = some x →
      ∃ y, K.bond q d = some y ∧ x.status = y.status := by
    intro q d x hx
    simp only [Kinship.setBond] at hx
    split at hx
    · rename_i hqd
      obtain ⟨rfl, rfl⟩ := hqd
      cases hx
      exact ⟨b, hb, hs⟩
    · exact ⟨x, hx, rfl⟩
  refine ⟨fun q d => ?_, fun q d x hx hne => ?_, fun q d x hx => ?_⟩
  · rw [show (K.setBond p c (some b')).parent d = K.parent d from rfl, hK.agree q d]
    constructor
    · rintro ⟨y, hy, hys⟩
      simp only [Kinship.setBond]
      split
      · rename_i hqd
        obtain ⟨rfl, rfl⟩ := hqd
        obtain rfl := Option.some.inj (hb.symm.trans hy)
        exact ⟨b', rfl, hs.trans hys⟩
      · exact ⟨y, hy, hys⟩
    · rintro ⟨x, hx, hxs⟩
      obtain ⟨y, hy, he⟩ := hbond q d x hx
      exact ⟨y, hy, he ▸ hxs⟩
  · obtain ⟨y, hy, he⟩ := hbond q d x hx
    exact hK.gone q d y hy (he ▸ hne)
  · obtain ⟨y, hy, -⟩ := hbond q d x hx
    exact hK.older q d y hy

/-- The bond with a child that has exited may go. -/
theorem Sound.dropBond (hK : K.Sound) (hb : K.bond p c = some b) (hs : b.status ≠ none) :
    (K.setBond p c none).Sound := by
  have hbond : ∀ q d x, (K.setBond p c none).bond q d = some x ↔ ¬ (q = p ∧ d = c) ∧
      K.bond q d = some x := by
    intro q d x
    simp only [Kinship.setBond]
    split <;> simp_all
  refine ⟨fun q d => ?_, fun q d x hx hne => ?_, fun q d x hx => ?_⟩
  · rw [show (K.setBond p c none).parent d = K.parent d from rfl, hK.agree q d]
    constructor
    · rintro ⟨y, hy, hys⟩
      refine ⟨y, (hbond q d y).mpr ⟨?_, hy⟩, hys⟩
      rintro ⟨rfl, rfl⟩
      obtain rfl := Option.some.inj (hb.symm.trans hy)
      exact hs hys
    · rintro ⟨x, hx, hxs⟩
      exact ⟨x, ((hbond q d x).mp hx).2, hxs⟩
  · exact hK.gone q d x ((hbond q d x).mp hx).2 hne
  · exact hK.older q d x ((hbond q d x).mp hx).2

theorem Sound.addChild (hK : K.Sound) (ht : t < K.nextThread) : (K.addChild t).Sound := by
  have hfresh : ∀ q, K.bond q K.nextThread = none := by
    intro q
    cases hb : K.bond q K.nextThread with
    | none => rfl
    | some b => exact absurd (hK.older q _ b hb).2 (lt_irrefl _)
  have hnone : K.parent K.nextThread = none := by
    cases hp : K.parent K.nextThread with
    | none => rfl
    | some p =>
      obtain ⟨b, hb, -⟩ := (hK.agree p _).mp hp
      rw [hfresh] at hb
      cases hb
  refine ⟨fun q d => ?_, fun q d x hx hne => ?_, fun q d x hx => ?_⟩
  · simp only [Kinship.addChild]
    by_cases hd : d = K.nextThread
    · subst hd
      simp only [if_true, and_true, Option.some.injEq, hfresh]
      constructor
      · rintro rfl
        exact ⟨.fresh, if_pos rfl, rfl⟩
      · rintro ⟨b, hb, -⟩
        split at hb
        · rename_i hq
          exact hq.symm
        · cases hb
    · simp only [hd, and_false, if_false]
      exact hK.agree q d
  · simp only [Kinship.addChild] at hx ⊢
    split at hx
    · cases hx
      exact absurd rfl hne
    · rename_i hqd
      have := hK.older q d x hx
      rw [if_neg this.2.ne]
      exact hK.gone q d x hx hne
  · simp only [Kinship.addChild] at hx ⊢
    split at hx
    · rename_i hqd
      rw [hqd.1, hqd.2]
      exact ⟨ht, Nat.lt_succ_self _⟩
    · obtain ⟨h₁, h₂⟩ := hK.older q d x hx
      exact ⟨h₁, h₂.trans (Nat.lt_succ_self _)⟩

theorem Sound.exits (hK : K.Sound) (h : K.Exits t K') : K'.Sound := by
  -- A bond after the exit is an earlier one, or the one with `t`, which is closed then.
  have hbond : ∀ q d x, K'.bond q d = some x →
      (q ≠ t ∧ K.bond q d = some x ∧ (d ≠ t ∨ K.parent t ≠ some q)) ∨
        (d = t ∧ K.parent t = some q ∧ x.status ≠ none) := by
    intro q d x hx
    by_cases hc : d ≠ t ∨ K.parent t ≠ some q
    · rw [h.bond q d hc] at hx
      split at hx
      · cases hx
      · rename_i hq
        exact .inl ⟨hq, hx, hc⟩
    · rw [not_or, not_not, not_not] at hc
      obtain ⟨rfl, hp⟩ := hc
      obtain ⟨v, b, b', -, -, hcl, hb'⟩ := h.closes q hp
      obtain rfl := Option.some.inj (hb'.symm.trans hx)
      exact .inr ⟨rfl, hp, by simp [hcl.status]⟩
  refine ⟨fun q d => ?_, fun q d x hx hne => ?_, fun q d x hx => ?_⟩
  · rw [h.parent]
    constructor
    · intro hp
      split at hp
      · cases hp
      · rename_i hd
        rw [not_or] at hd
        obtain ⟨b, hb, hs⟩ := (hK.agree q d).mp hp
        refine ⟨b, ?_, hs⟩
        rw [h.bond q d (.inl hd.1), if_neg]
        · exact hb
        · rintro rfl
          exact hd.2 hp
    · rintro ⟨x, hx, hxs⟩
      rcases hbond q d x hx with ⟨hq, hb, hc⟩ | ⟨-, -, hs⟩
      · have hp := (hK.agree q d).mpr ⟨x, hb, hxs⟩
        rw [if_neg]
        · exact hp
        · rw [hp]
          rintro (rfl | he)
          · exact hc.elim (fun h => h rfl) fun h => h hp
          · exact hq (Option.some.inj he)
      · exact absurd hxs hs
  · rw [h.parent]
    rcases hbond q d x hx with ⟨-, hb, -⟩ | ⟨rfl, -, -⟩
    · rw [hK.gone q d x hb hne, ite_self]
    · rw [if_pos (.inl rfl)]
  · rw [h.nextThread]
    rcases hbond q d x hx with ⟨-, hb, -⟩ | ⟨rfl, hp, -⟩
    · exact hK.older q d x hb
    · obtain ⟨b, hb, -⟩ := (hK.agree q d).mp hp
      exact hK.older q d b hb

/-- What a transition does to the families keeps parents and children in agreement. -/
theorem Sound.follows (hK : K.Sound) (h : K.Follows t K' d) : K'.Sound := by
  unfold Follows at h
  split at h
  · obtain ⟨-, ht, rfl⟩ := h
    exact hK.addChild ht
  · obtain ⟨-, ht, rfl⟩ := h
    exact hK.addChild ht
  · exact hK.exits h
  · obtain ⟨-, rfl⟩ := h
    exact ⟨hK.agree, hK.gone, hK.older⟩
  · obtain ⟨p, b, o, -, hb, -, -, rfl⟩ := h
    exact hK.setBond hb rfl
  · obtain ⟨b, hb, rfl⟩ := h
    exact hK.setBond hb rfl
  · obtain ⟨b, hb, -, rfl⟩ := h
    exact hK.setBond hb rfl
  · obtain ⟨b, v, hb, hs, -, rfl⟩ := h
    exact hK.dropBond hb (by simp [hs])
  · obtain ⟨b, hb, hs, rfl⟩ := h
    exact hK.dropBond hb (by simp [hs])
  · exact h ▸ hK

/-- Nobody but a parent waits at the semaphores of its records. -/
def Served (K : Kinship) : Prop := ∀ p c b, K.bond p c = some b → b.Serves p

theorem Served.setBond (hS : K.Served) (hb : b'.Serves p) : (K.setBond p c (some b')).Served := by
  intro q d x hx
  simp only [Kinship.setBond] at hx
  split at hx
  · rename_i hqd
    obtain ⟨rfl, rfl⟩ := hqd
    cases hx
    exact hb
  · exact hS q d x hx

theorem Served.dropBond (hS : K.Served) : (K.setBond p c none).Served := by
  intro q d x hx
  simp only [Kinship.setBond] at hx
  split at hx
  · cases hx
  · exact hS q d x hx

theorem Served.addChild (hS : K.Served) : (K.addChild t).Served := by
  intro q d x hx
  simp only [Kinship.addChild] at hx
  split at hx
  · cases hx
    exact ⟨nofun, nofun⟩
  · exact hS q d x hx

theorem Served.exits (hS : K.Served) (h : K.Exits t K') : K'.Served := by
  intro q d x hx
  by_cases hc : d ≠ t ∨ K.parent t ≠ some q
  · rw [h.bond q d hc] at hx
    split at hx
    · cases hx
    · exact hS q d x hx
  · rw [not_or, not_not, not_not] at hc
    obtain ⟨rfl, hp⟩ := hc
    obtain ⟨v, b, b', -, hb, hcl, hb'⟩ := h.closes q hp
    obtain rfl := Option.some.inj (hb'.symm.trans hx)
    obtain ⟨hfork, hexit⟩ := hS q d b hb
    refine ⟨?_, hcl.exit.serves hexit⟩
    have hf := hcl.fork
    split at hf
    · rwa [hf]
    · exact hf.serves hfork

/-- No transition lines anybody else up. -/
theorem Served.follows (hS : K.Served) (h : K.Follows t K' d) : K'.Served := by
  unfold Follows at h
  split at h
  · exact h.2.2 ▸ hS.addChild
  · exact h.2.2 ▸ hS.addChild
  · exact hS.exits h
  · exact h.2 ▸ hS
  · obtain ⟨p, b, o, -, hb, -, hg, rfl⟩ := h
    exact hS.setBond ⟨hg.serves (hS p t b hb).1, (hS p t b hb).2⟩
  · obtain ⟨b, hb, rfl⟩ := h
    exact hS.setBond ⟨b.fork.serves_taken (hS t _ b hb).1, (hS t _ b hb).2⟩
  · obtain ⟨b, hb, -, rfl⟩ := h
    exact hS.setBond ⟨(hS t _ b hb).1, b.exit.serves_taken (hS t _ b hb).2⟩
  · obtain ⟨b, v, -, -, -, rfl⟩ := h
    exact hS.dropBond
  · obtain ⟨b, -, -, rfl⟩ := h
    exact hS.dropBond
  · exact h ▸ hS

theorem follows_of_aside {c : Call} {a : Answer} (hc : Session.usesKin c = false) (h : K' = K) :
    K.Follows t K' (.call c a) := by
  cases c <;> first | exact h | cases hc

theorem follows_of_looks {s : Session} {c : Call} {a : Answer} (hc : Session.usesKin c = true)
    (h : s.Looks c a) : K.Follows t K (.call c a) := by
  cases h with
  | misused h => cases c <;> first | rfl | exact h.elim
  | _ => cases hc

end Kinship

namespace Session

open ThreadCore.Core (Assigned Office)

variable {s s' : Session} {a : Answer} {c : Call} {d : Deed} {office : ObjectId → Option Office}

/-! ## Transitions -/

/-- The semaphores that callers have at hand are for callers, and no two handles are of the same
one. -/
structure Discreet (s : Session) (office : ObjectId → Option Office) : Prop where
  assigned : s.core.Assigned office
  handles : ∀ (i : Nat) id, s.semaphores[i]? = some id → office id = some .caller
  distinct : ∀ (i j : Nat) id, s.semaphores[i]? = some id → s.semaphores[j]? = some id → i = j

/-- The families are in order. -/
def Kindred (s : Session) : Prop := s.core.kinship.Sound ∧ ∃ office, s.Discreet office

/-- The semaphores and the families are as before, up to the count of numbers. -/
theorem Discreet.of_grown (hs : s.Discreet office) (hg : Grown s.core s'.core)
    (hp : s'.semaphores = s.semaphores) :
    s'.Discreet office ∧ s'.core.kinship = s.core.kinship := by
  obtain ⟨n, hle, hk⟩ := hg
  have hsem : s'.core.objects.semaphores = s.core.objects.semaphores := congrArg Kin.semaphores hk
  have hlast : s'.core.objects.lastId = n := congrArg Kin.lastId hk
  have hties : s'.core.ties = s.core.ties := congrArg Kin.ties hk
  have hnext : s'.core.nextThread = s.core.nextThread := congrArg Kin.nextThread hk
  refine ⟨⟨hs.assigned.congr hties hnext (hlast ▸ hle) (fun i o hi => ?_) fun _ _ _ _ i _ o ho =>
    ⟨o, by rw [hsem, ho]⟩, hp ▸ hs.handles, hp ▸ hs.distinct⟩, ?_⟩
  · rw [hsem] at hi
    exact (hs.assigned.semaphore i o hi).trans (hlast ▸ hle)
  · exact Core.kinship_congr hties hnext fun _ _ _ _ => by simp only [hsem, and_self]

theorem Discreet.of_estate (hs : s.Discreet office) (h : Same Core.estate s s') :
    s'.Discreet office ∧ s'.core.kinship = s.core.kinship :=
  hs.of_grown ⟨_, le_rfl, congrArg Estate.kin h.1⟩ h.2

theorem Discreet.of_kin {k : Core} (hs : s.Discreet office) (hk : k.kin = s.core.kin) :
    Discreet { s with core := k } office ∧ k.kinship = s.core.kinship := by
  obtain ⟨A, hkin⟩ := hs.assigned.of_kin hk
  exact ⟨⟨A, hs.handles, hs.distinct⟩, hkin⟩

/-- A caller's semaphore is changed. -/
theorem Discreet.of_sets {i : Nat} {id : ObjectId} {k : Core} {o : Option Semaphore}
    (hs : s.Discreet office) (hid : s.semaphores[i]? = some id) (h : s.core.SetsSemaphore k id o) :
    Discreet { s with core := k } office ∧ k.kinship = s.core.kinship := by
  have ho := hs.handles i id hid
  obtain ⟨A, hk⟩ :=
    hs.assigned.setsUnused h (hs.assigned.issued id (by simp [ho])) (hs.assigned.unused ho)
  exact ⟨⟨A, hs.handles, hs.distinct⟩, hk⟩

/-- A child is created, or refused. -/
theorem Discreet.of_spawn {name : String} {priority : Priority} {task : Option Task}
    {r : Except Refusal ThreadId} {k : Core} (hs : s.Discreet office)
    (h : Core.spawn name priority task s.core = .ok r k) :
    (∃ office', Discreet { s with core := k } office') ∧
      ((∃ refusal, r = .error refusal ∧ k.kinship = s.core.kinship) ∨
        r = .ok s.core.kinship.nextThread ∧ s.core.current < s.core.kinship.nextThread ∧
        k.kinship = s.core.kinship.addChild s.core.current) := by
  rcases Core.spawn_kinship hs.assigned h with
      ⟨refusal, rfl, hk⟩ | ⟨office', rfl, hlt, A, hoff, -, -, hk⟩
  · obtain ⟨hs', hkin⟩ := hs.of_kin hk
    exact ⟨⟨office, hs'⟩, .inl ⟨refusal, rfl, hkin⟩⟩
  · refine ⟨⟨office', A, fun i id hid => ?_, hs.distinct⟩, .inr ⟨rfl, hlt, hk⟩⟩
    have ho := hs.handles i id hid
    exact (hoff id (hs.assigned.issued id (by simp [ho]))).trans ho

/-- **Calls on families.** A call changes the families by what it says it does, in the name of the
thread at work, and by nothing else. -/
theorem execute_kinship (hK : s.core.kinship.Sound) (hs : s.Discreet office)
    (h : execute c s = .ok a s') : (∃ office', s'.Discreet office') ∧
      s.core.kinship.Follows s.core.current s'.core.kinship (.call c a) := by
  by_cases hu : usesKin c = true
  swap
  · rw [Bool.not_eq_true] at hu
    obtain ⟨hgrown, hp⟩ := execute_kin hu h
    obtain ⟨hs', hkin⟩ := hs.of_grown hgrown hp
    exact ⟨⟨office, hs'⟩, Kinship.follows_of_aside hu hkin⟩
  have hsets : ∀ {i : Nat} {id : ObjectId} {k : Core} {o : Option Semaphore},
      s.semaphores[i]? = some id → s.core.SetsSemaphore k id o →
      (∃ office', Discreet { s with core := k } office') ∧ k.kinship = s.core.kinship := by
    intro i id k o hid h
    obtain ⟨hs', hk⟩ := hs.of_sets hid h
    exact ⟨⟨office, hs'⟩, hk⟩
  obtain ⟨hl, rfl⟩ | ⟨α, e, r, k, hp, hx, rfl, rfl⟩ := execute_ok h
  · exact ⟨⟨office, hs⟩, Kinship.follows_of_looks hu hl⟩
  cases hp with
  | create _ _ | spawn _ _ _ =>
    obtain ⟨hs', ⟨refusal, rfl, hk⟩ | ⟨rfl, hlt, hk⟩⟩ := hs.of_spawn hx
    · exact ⟨hs', hk⟩
    · exact ⟨hs', rfl, hlt, hk⟩
  | exit =>
    obtain ⟨A, -, hk, -⟩ := Core.exit_kinship hs.assigned hK hx
    exact ⟨⟨office, A, hs.handles, hs.distinct⟩, hk⟩
  | newSemaphore value =>
    obtain ⟨A, hk, -, -, hlt, -⟩ := hs.assigned.newSemaphore hx (some .caller)
    have hold : ∀ (i : Nat) id', s.semaphores[i]? = some id' → id' ≠ r := fun i id' hid =>
      ((hs.assigned.issued id' (by simp [hs.handles i id' hid])).trans_lt hlt).ne
    refine ⟨⟨_, A, fun i id' hid => ?_, fun i j id' hi hj => ?_⟩, hk⟩
    · rw [Array.getElem?_push] at hid
      split at hid
      · cases hid
        exact Function.update_self ..
      · rw [Function.update_of_ne (hold i id' hid), hs.handles i id' hid]
    · rw [Array.getElem?_push] at hi hj
      split at hi <;> split at hj
      · rename_i hi' hj'
        exact hi'.trans hj'.symm
      · cases hi
        exact absurd rfl (hold j _ hj)
      · cases hj
        exact absurd rfl (hold i _ hi)
      · exact hs.distinct i j id' hi hj
  | down hid =>
    obtain ⟨th, x, -, -, hset, -⟩ := Core.down_sets hx
    exact hsets hid hset
  | tryDown hid =>
    obtain ⟨x, -, ⟨-, -, hset⟩ | ⟨-, -, hk⟩⟩ := Core.tryDown_sets hx
    · exact hsets hid hset
    · obtain ⟨hs', hkin⟩ := hs.of_kin hk
      exact ⟨⟨office, hs'⟩, hkin⟩
  | up hid =>
    obtain ⟨x, w, -, -, hset, -⟩ := Core.up_sets hx
    exact hsets hid hset
  | destroySemaphore hid =>
    rcases Core.destroySemaphore_sets hx with ⟨-, rfl⟩ | ⟨-, hset, -⟩
    · exact ⟨⟨office, hs⟩, rfl⟩
    · exact hsets hid hset
  | setExitStatus v =>
    obtain ⟨A, hst, hk⟩ := Core.setExitStatus_kinship hs.assigned hx
    exact ⟨⟨office, A, hs.handles, hs.distinct⟩, hst, hk⟩
  | reportFork =>
    rcases Core.reportFork_kinship hs.assigned hx with ⟨refusal, rfl, rfl⟩ |
      ⟨p, b, o, rfl, hp, hb, hf, hg, A, -, hk⟩
    · exact ⟨⟨office, hs⟩, rfl⟩
    · exact ⟨⟨office, A, hs.handles, hs.distinct⟩, p, b, o, hp, hb, hf, hg, hk⟩
  | awaitFork child =>
    rcases Core.awaitFork_kinship hs.assigned hx with ⟨rfl, -, rfl⟩ | ⟨b, rfl, hb, A, -, hk⟩
    · exact ⟨⟨office, hs⟩, rfl⟩
    · exact ⟨⟨office, A, hs.handles, hs.distinct⟩, b, hb, hk⟩
  | awaitExit child =>
    rcases Core.awaitExit_kinship hs.assigned hx with ⟨rfl, -, rfl⟩ | ⟨b, rfl, hb, hst, A, -, hk⟩ |
      ⟨b, v, rfl, hb, hst, A, -, hk⟩
    · exact ⟨⟨office, hs⟩, rfl⟩
    · exact ⟨⟨office, A, hs.handles, hs.distinct⟩, b, hb, hst, hk⟩
    · exact ⟨⟨office, A, hs.handles, hs.distinct⟩, b, v, hb, hst, rfl, hk⟩
  | tryCollect child =>
    obtain ⟨th, hr, hx⟩ := Core.ask_bind_eq_ok.mp hx
    rw [(hs.assigned.running_id hr).1] at hx
    rcases Core.collect_kinship hs.assigned hx with ⟨rfl, -, rfl⟩ | ⟨rfl, -, rfl⟩ |
      ⟨b, v, rfl, hb, hst, A, -, hk⟩
    · exact ⟨⟨office, hs⟩, rfl⟩
    · exact ⟨⟨office, hs⟩, rfl⟩
    · exact ⟨⟨office, A, hs.handles, hs.distinct⟩, b, hb, hst, hk⟩
  | ask ha => cases ha <;> cases hu
  | _ => cases hu

/-- **Transitions.** A transition keeps the families in order and changes them by what it says it
does. -/
theorem leads_kinship (hs : s.Kindred) (h : Leads s d s') :
    s'.Kindred ∧ s.core.kinship.Follows s.core.current s'.core.kinship d := by
  obtain ⟨hK, office, hd⟩ := hs
  have hf : (∃ office', s'.Discreet office') ∧
      s.core.kinship.Follows s.core.current s'.core.kinship d := by
    cases h with
    | call he => exact execute_kinship hK hd he
    | enter he =>
      obtain ⟨hs', hk⟩ := hd.of_estate (enterHandler_estate he)
      exact ⟨⟨office, hs'⟩, hk⟩
    | leave he =>
      obtain ⟨hs', hk⟩ := hd.of_estate (leaveHandler_estate he)
      exact ⟨⟨office, hs'⟩, hk⟩
  exact ⟨⟨hK.follows hf.2, hf.1⟩, hf.2⟩

/-- Nobody has a bond after booting, and everybody would exit with -1. -/
theorem kinship_boot {setup : Setup} {config : Config} {k : Core}
    (h : Core.boot (setup.core config) = .ok (.ok ()) k) : Kindred (ofCore k) ∧
      (∀ p c, k.kinship.bond p c = none) ∧ (∀ c, k.kinship.parent c = none) ∧
      ∀ t v, k.kinship.status t = some v → v = -1 := by
  obtain ⟨hobjects, -, hties⟩ := Core.boot_ties (k := setup.core config) rfl rfl h
  have hrec : ∀ p c, k.recordOf p c = none := by
    intro p c
    rw [Core.recordOf_eq_ties]
    cases hp : k.ties p with
    | none => rfl
    | some x => simp [(hties p x hp).2.2, Family.alone]
  have hbond : ∀ p c, k.kinship.bond p c = none := fun p c => Core.bond_of_none (hrec p c)
  have hparent : ∀ c, k.kinship.parent c = none := by
    intro c
    show k.parentOf c = none
    rw [Core.parentOf_eq_ties]
    cases hc : k.ties c with
    | none => rfl
    | some x => simp [(hties c x hc).2.2, Family.alone]
  refine ⟨⟨⟨fun p c => ?_, fun p c b hb => ?_, fun p c b hb => ?_⟩, fun _ => none,
    ⟨fun t x hx => ⟨(hties t x hx).1, (hties t x hx).2.1⟩, fun i o hi => ?_,
      fun i hi => absurd rfl hi, fun p c r hr => ?_, fun p c r hr => ?_⟩,
    fun i id hid => ?_, fun i j id hid => ?_⟩, hbond, hparent, fun t v hv => ?_⟩
  · show k.kinship.parent c = some p ↔ ∃ b, k.kinship.bond p c = some b ∧ b.status = none
    simp [hbond, hparent]
  · exact absurd ((hbond p c).symm.trans hb) (by simp)
  · exact absurd ((hbond p c).symm.trans hb) (by simp)
  · have hi : k.objects.semaphores[i]? = some o := hi
    simp [hobjects, Objects.empty] at hi
  · exact absurd ((hrec p c).symm.trans hr) (by simp)
  · exact absurd ((hrec p c).symm.trans hr) (by simp)
  · simp [ofCore] at hid
  · simp [ofCore] at hid
  · simp only [Core.kinship, Option.map_eq_some_iff] at hv
    obtain ⟨x, hx, rfl⟩ := hv
    rw [(hties t x hx).2.2]
    rfl

section

variable {allowed : List Entry → Session → Call → Prop} {log : List Entry} {frames : List Bool}

/-- The families are in order in every state of a run. -/
theorem Logged.kindred (h : Logged allowed log frames s) : s.Kindred :=
  h.invariant (P := fun _ s => s.Kindred) (fun _ _ _ _ hk => (kinship_boot hk).1)
    fun _ _ _ _ _ _ ih hd _ => (leads_kinship ih hd).1

/-- What stays true over everything a transition may do to the families holds in every state of a
run. -/
theorem Logged.families {P : List Entry → Kinship → Prop}
    (hboot : ∀ K : Kinship, (∀ p c, K.bond p c = none) → (∀ c, K.parent c = none) →
      (∀ t v, K.status t = some v → v = -1) → P [] K)
    (hstep : ∀ log (s : Session) d s', s.Kindred → P log s.core.kinship →
      s.core.kinship.Follows s.core.current s'.core.kinship d →
      P (⟨s, d, s'⟩ :: log) s'.core.kinship)
    (h : Logged allowed log frames s) : P log s.core.kinship :=
  h.invariant (P := fun log s => P log s.core.kinship)
    (fun _ _ _ _ hk => hboot _ (kinship_boot hk).2.1 (kinship_boot hk).2.2.1
      (kinship_boot hk).2.2.2)
    fun _ _ _ _ _ hs ih hd _ => hstep _ _ _ _ hs.kindred ih (leads_kinship hs.kindred hd).2

theorem Logged.served (h : Logged allowed log frames s) : s.core.kinship.Served :=
  h.families (P := fun _ K => K.Served)
    (fun _ hb _ _ p c b hpc => absurd ((hb p c).symm.trans hpc) (by simp))
    fun _ _ _ _ _ hS hf => hS.follows hf

/-- Who lives has a number that was given out. -/
theorem Kindred.live_lt (hs : s.Kindred) {t : ThreadId} (ht : s.core.kinship.status t ≠ none) :
    t < s.core.kinship.nextThread := by
  obtain ⟨-, office, hd⟩ := hs
  obtain ⟨v, hv⟩ := Option.ne_none_iff_exists'.mp ht
  simp only [Core.kinship, Option.map_eq_some_iff] at hv
  obtain ⟨x, hx, -⟩ := hv
  exact (hd.assigned.thread t x hx).2

end

end Session

end ThreadCore
