import ThreadCore.Proofs.Families

/-!
# How threads come and go

A new thread is registered, adopted by its creator and made ready (`Sound.spawn`). An exiting thread
gives up its ties first, so that nothing depends on it when its last turn ends (`Sound.exit`).
Booting makes the first state that obeys the rules (`sound_boot`).
-/

namespace ThreadCore

theorem Page.canary_asStack (p : Page) : p.asStack.canary = stackMagic := by
  unfold canary asStack wordAt
  simp only [List.ofFn, wordSize]
  simp [Fin.foldr, Fin.foldr.loop, withWord, wordSize, littleEndian, byteOf, stackMagic]

namespace Core

variable {k k' k₁ k₂ k₃ : Core} {g : Stage} {t c p : ThreadId} {u : Unit}

/-! ## Registering -/

theorem quiet_takeStack {a : Option Page} (h : takeStack k = .ok a k') : Quiet k k' := by
  unfold takeStack at h
  rw [bind_eq_ok] at h
  obtain ⟨o, m, hm, h⟩ := h
  have hq : Quiet k m := by
    refine quiet_onMachine (fun w _ w' hw => ?_) hm
    unfold Machine.takePage at hw
    rw [bind_eq_ok] at hw
    obtain ⟨b, w₁, hw₁, hw⟩ := hw
    have hh : w₁.inHandler = w.inHandler := by
      unfold Machine.onPool at hw₁
      cases hp : Pool.take w.pool with
      | ok b pool =>
        simp only [hp, EStateM.Result.ok.injEq] at hw₁
        obtain ⟨-, rfl⟩ := hw₁
        rfl
      | error e pool => simp [hp] at hw₁
    split at hw
    · rw [get_bind_eq_ok, modify_bind_eq_ok] at hw
      obtain ⟨-, rfl⟩ := pure_eq_ok.mp hw
      exact hh
    · obtain ⟨-, rfl⟩ := pure_eq_ok.mp hw
      exact hh
  cases o with
  | some page =>
    simp only [bind_eq_ok, pure_eq_ok] at h
    obtain ⟨_, _, hr, -, rfl⟩ := h
    exact hq.trans (quiet_record hr)
  | none =>
    simp only [bind_eq_ok, pure_eq_ok] at h
    obtain ⟨_, _, hr, -, rfl⟩ := h
    exact hq.trans (quiet_record hr)

/-- The core with `th` as a thread of the next number. -/
def enlist (k : Core) (th : Thread) : Core :=
  { k with nextThread := k.nextThread + 1, threads := k.threads.insert k.nextThread th }

theorem register_eq_ok {name : String} {priority : Priority} {entry : Option String}
    {task : Option Task} {a : Except Refusal ThreadId}
    (h : register name priority entry task k = .ok a k') :
    (∃ refusal, a = .error refusal ∧ Quiet k k') ∨
      ∃ m page, Quiet k m ∧ a = .ok m.nextThread ∧
        k' = m.enlist (.create m.nextThread (Name.clip name) priority page entry task) := by
  unfold register at h
  rw [bind_eq_ok] at h
  obtain ⟨o, m, hm, h⟩ := h
  have hq := quiet_takeStack hm
  cases o with
  | none =>
    simp only [pure_eq_ok] at h
    obtain ⟨rfl, rfl⟩ := h
    exact .inl ⟨.noMemory, rfl, hq⟩
  | some page =>
    simp only [get_bind_eq_ok] at h
    simp only [bind_eq_ok, increment_eq_ok, modify_eq_ok, pure_eq_ok] at h
    obtain ⟨_, _, ⟨-, rfl, rfl⟩, _, _, rfl, rfl, rfl⟩ := h
    exact .inr ⟨m, page, hq, rfl, rfl⟩

theorem getElem?_enlist (k : Core) (th : Thread) (t : ThreadId) :
    (k.enlist th).threads[t]? = if t = k.nextThread then some th else k.threads[t]? := by
  simp only [enlist, Std.ExtTreeMap.getElem?_insert, compare_eq_iff_eq]
  exact if_congr eq_comm rfl rfl

section Enlist

variable {name : String} {priority : Priority} {page : Page} {entry : Option String}
  {task : Option Task}

theorem Sound.fresh (hk : k.Sound g) : k.threads[k.nextThread]? = none := by
  cases hth : k.threads[k.nextThread]? with
  | none => rfl
  | some th => exact absurd (hk.registered.thread _ _ hth).2.1 (lt_irrefl _)

/-- A new thread sits nowhere. -/
theorem Sound.fresh_stands (hk : k.Sound g) : k.seating.Stands k.nextThread := by
  intro p hp
  obtain ⟨th, hth⟩ := hk.live_of_mem hp
  rw [hk.fresh] at hth
  cases hth

theorem seating_enlist_of_fresh (hw : k.threads[k.nextThread]? = none) :
    (k.enlist (.create k.nextThread name priority page entry task)).seating =
      k.seating.setState k.nextThread (some .blocked) := by
  unfold seating Seating.setState
  congr 1 <;> funext t <;> simp only [getElem?_enlist, Function.update_apply] <;>
    split <;> simp_all [Thread.create]

theorem seating_enlist (hk : k.Sound g) :
    (k.enlist (.create k.nextThread name priority page entry task)).seating =
      k.seating.setState k.nextThread (some .blocked) :=
  seating_enlist_of_fresh hk.fresh

theorem waits_enlist (hk : k.Sound g) :
    (k.enlist (.create k.nextThread name priority page entry task)).waits =
      k.waits.rebase k.nextThread priority := by
  have hw := hk.fresh
  have hd : k.waits.donors k.nextThread = [] := by simp [waits, hw]
  have hdue : (k.waits.setBase k.nextThread priority).due k.nextThread = priority := by
    simp [Waits.due, Waits.setBase, hd]
  unfold Waits.rebase
  rw [hdue]
  unfold waits Waits.setPriority Waits.setBase
  congr 1 <;> funext t <;> simp only [getElem?_enlist, Function.update_apply] <;>
    split <;> simp_all [Thread.create, Queue.empty]

theorem Sound.enlist (hk : k.Sound g) :
    (k.enlist (.create k.nextThread name priority page entry task)).Sound g := by
  have hfresh := hk.fresh
  obtain ⟨h₁, h₂, h₃, h₄, h₅, h₆⟩ := hk.registered
  refine ⟨hk.current, hk.idle, hk.handler, ?_, ?_, ?_, ?_, ?_, h₄, h₅, h₆⟩
  · rw [seating_enlist hk]
    exact hk.seating.register (by simp [Core.seating, hfresh])
  · rw [waits_enlist hk]
    exact hk.waits.rebase (by simp [Core.waits, hfresh]) priority
  · intro t th ht
    rw [getElem?_enlist] at ht
    split at ht
    · rename_i he
      cases ht
      refine ⟨he.symm, by rw [he]; exact Nat.lt_succ_self _, fun _ => ?_⟩
      simp [Thread.intact, Thread.create, Page.canary_asStack]
    · obtain ⟨hid, hlt, hi⟩ := h₁ t th ht
      exact ⟨hid, hlt.trans (Nat.lt_succ_self _), hi⟩
  · intro c p hp hns
    simp only [parentOf, recordOf, getElem?_enlist] at hp ⊢
    split at hp
    · simp [Thread.create, Family.alone] at hp
    · obtain ⟨r, hr, hs⟩ := h₂ c p hp hns
      have hpn : p ≠ k.nextThread := by
        rintro rfl
        simp [recordOf, hfresh] at hr
      rw [if_neg hpn]
      exact ⟨r, hr, hs⟩
  · intro l t ht
    obtain ⟨th, hth⟩ := h₃ l t ht
    rw [getElem?_enlist]
    split
    · exact ⟨_, rfl⟩
    · exact ⟨th, hth⟩

end Enlist

theorem Sound.spawn (hk : k.Sound g) (hg : g.state = .running) {name : String}
    {priority : Priority} {task : Option Task} {a : Except Refusal ThreadId}
    (h : spawn name priority task k = .ok a k') : Serves g k k' ∧ GivesWay k k' := by
  unfold Core.spawn checkPriority at h
  simp only [demand_bind_eq_ok, ask_bind_eq_ok] at h
  obtain ⟨-, th, -, h⟩ := h
  rw [bind_eq_ok] at h
  obtain ⟨r, m, hm, h⟩ := h
  rcases register_eq_ok hm with ⟨refusal, rfl, hq⟩ | ⟨n, page, hq, rfl, rfl⟩
  · simp only [bind_eq_ok, pure_eq_ok] at h
    obtain ⟨_, m', hm', -, rfl⟩ := h
    have ha := (hq.trans (quiet_say hm')).alike
    exact ⟨hk.serves_alike ha, ha.givesWay⟩
  · simp only [bind_eq_ok, pure_eq_ok] at h
    obtain ⟨_, m₁, h₁, _, m₂, h₂, _, m₃, h₃, _, m₄, h₄, -, rfl⟩ := h
    have hn := hk.quiet hq
    obtain ⟨hs, hseat, -⟩ := hn.enlist.adopt h₁
    have hstands : m₂.seating.Stands n.nextThread := by
      rw [(quiet_say h₂).seating, hseat, seating_enlist hn]
      exact hn.fresh_stands
    exact hk.serves_preempt ((hs.quiet (quiet_say h₂)).unblock hstands h₃) hg h₄

/-! ## Leaving a family -/

/-- `t` has no parent, keeps no record and holds no lock. -/
structure Untied (k : Core) (t : ThreadId) : Prop where
  parent : k.parentOf t = none
  record : ∀ c, k.recordOf t c = none
  holder : ∀ l, k.waits.holder l ≠ some t

namespace Untied

theorem of_eq (h : k.Untied t)
    (hf : (k'.threads[t]?).map Thread.family = (k.threads[t]?).map Thread.family)
    (hl : k'.objects.locks = k.objects.locks) : k'.Untied t := by
  have hbind : ∀ {β : Type} (f : Family → Option β) (o : Option Thread),
      (o.bind fun th => f th.family) = (o.map Thread.family).bind f := by
    intro β f o
    cases o <;> rfl
  constructor
  · rw [parentOf, hbind, hf, ← hbind]
    exact h.parent
  · intro c
    rw [recordOf, hbind fun f => f.children[c]?, hf, ← hbind]
    exact h.record c
  · intro l
    rw [waits, hl]
    exact h.holder l

theorem quiet (h : k.Untied t) (hq : Quiet k k') : k'.Untied t :=
  h.of_eq (by rw [hq.threads]) (by rw [hq.objects])

theorem mapThread {f : Thread → Thread} (h : k.Untied t) (hf : ∀ th, (f th).family = th.family) :
    (k.mapThread p f).Untied t :=
  h.of_eq (map_getElem?_mapThread hf t) rfl

theorem unblock (h : k.Untied t) (hu : Core.unblock p k = .ok u k') : k'.Untied t := by
  obtain ⟨-, m, th, hq, -, -, hq'⟩ := unblock_eq_ok hu
  let m₁ := m.mapThread p fun th => { th with state := .ready }
  have hm₁ : m₁.Untied t := (h.quiet hq).mapThread fun _ => rfl
  have hm₂ : Core.Untied { m₁ with ready := ⟨m.ready.entries ++ [p]⟩ } t := hm₁.of_eq rfl rfl
  exact hm₂.quiet hq'

theorem wakeOne (h : k.Untied t) {s : ObjectId} {r : Option ThreadId}
    (hw : Core.wakeOne s k = .ok r k') : k'.Untied t := by
  unfold Core.wakeOne at hw
  simp only [ask_bind_eq_ok, semaphore_eq_ok_iff] at hw
  obtain ⟨o, ho, next, -, hw⟩ := hw
  cases next with
  | some w =>
    simp only [changeSemaphore_bind_eq_ok] at hw
    simp only [bind_eq_ok, pure_eq_ok] at hw
    obtain ⟨-, _, m, hm, -, rfl⟩ := hw
    have hs :
        (k.mapSemaphore s fun sema => { sema with waiters := sema.waiters.remove w }).Untied t :=
      h.of_eq rfl rfl
    exact hs.unblock hm
  | none =>
    simp only [bind_eq_ok, increment_eq_ok, changeSemaphore_eq_ok, pure_eq_ok] at hw
    obtain ⟨_, _, ⟨-, -, rfl⟩, _, _, ⟨-, rfl⟩, -, rfl⟩ := hw
    exact h.of_eq rfl rfl

theorem insertRecord (h : k.Untied t) (hne : t ≠ p) {f : Family → Family} :
    (k.mapFamily p f).Untied t := by
  refine h.of_eq ?_ rfl
  rw [mapFamily, getElem?_mapThread, if_neg hne]

/-- Nobody gets a tie when a thread loses its parent. -/
theorem orphaned (h : k.Untied t) {th : Thread} (hth : k.threads[c]? = some th) :
    (k.mapFamily c fun f => { f with parent := none }).Untied t := by
  constructor
  · rw [parentOf_mapFamily hth]
    split
    · rfl
    · exact h.parent
  · intro d
    rw [recordOf_mapFamily hth]
    split
    · rename_i he
      rw [← h.record d, he, recordOf_eq hth]
    · exact h.record d
  · rw [waits_mapFamily]
    exact h.holder

/-- Nothing depends on a thread without ties. -/
theorem leaving (h : k.Untied k.current) (hi : k.current ≠ k.idle)
    (hk : k.Sound { g with terms := { g.terms with strays := [] } }) : k.Leaving := by
  refine ⟨hi, h.holder, fun c hc => ?_⟩
  obtain ⟨r, hr, -⟩ := hk.registered.parent c _ hc (by simp)
  rw [h.record c] at hr
  cases hr

end Untied

/-- The children of a thread that is gone lose their parent one by one. -/
theorem Sound.orphan {entries : List (ThreadId × ChildRecord)}
    (hk : k.Sound { g with terms := { g.terms with strays := entries.map Prod.fst } })
    (ht : k.Untied t) (h : orphan entries k = .ok u k') :
    k'.Sound { g with terms := { g.terms with strays := [] } } ∧ k'.Untied t := by
  induction entries generalizing k with
  | nil =>
    obtain ⟨-, rfl⟩ := pure_eq_ok.mp h
    exact ⟨hk, ht⟩
  | cons entry rest ih =>
    obtain ⟨c, r⟩ := entry
    have hdrop : ∀ m : Core,
        m.Sound { g with terms := { g.terms with strays := rest.map Prod.fst } } →
        m.Untied t → (Core.dropRecord r >>= fun _ => Core.orphan rest) m = .ok u k' →
        k'.Sound { g with terms := { g.terms with strays := [] } } ∧ k'.Untied t := by
      intro m hm htm h
      rw [bind_eq_ok] at h
      obtain ⟨_, n, hn, h⟩ := h
      obtain ⟨hs, hth, hl⟩ := hm.dropRecord hn
      exact ih hs (htm.of_eq (by rw [hth]) hl) h
    unfold Core.orphan at h
    rw [get_bind_eq_ok] at h
    split at h
    · simp only [changeFamily_bind_eq_ok] at h
      obtain ⟨⟨th, hth⟩, h⟩ := h
      refine hdrop _ ?_ (ht.orphaned hth) h
      refine hk.mapFamily (rest.map Prod.fst) fun d q hd hns => ?_
      rw [parentOf_mapFamily hth] at hd
      split at hd
      · cases hd
      · rename_i hdc
        obtain ⟨r', hr', hs'⟩ :=
          hk.registered.parent d q hd (by simpa using ⟨hdc, by simpa using hns⟩)
        refine ⟨r', ?_, hs'⟩
        rw [recordOf_mapFamily hth]
        split
        · rename_i he
          rw [← hr', he, recordOf_eq hth]
        · exact hr'
    · rename_i hc
      refine hdrop k ⟨hk.current, hk.idle, hk.handler, hk.seating, hk.waits, ?_⟩ ht h
      obtain ⟨h₁, h₂, h₃, h₄, h₅, h₆⟩ := hk.registered
      refine ⟨h₁, fun d q hd hns => ?_, h₃, h₄, h₅, h₆⟩
      -- A number that is not live has no parent.
      have hdc : d ≠ c := by
        rintro rfl
        rw [parentOf, Std.ExtTreeMap.getElem?_eq_none hc] at hd
        cases hd
      exact h₂ d q hd (by simpa using ⟨hdc, by simpa using hns⟩)

theorem Sound.reportExit (hk : k.Sound g) (ht : k.Untied t) {status : Int32}
    (h : reportExit t status p k = .ok u k') : k'.Sound g ∧ k'.Untied t := by
  unfold Core.reportExit at h
  rw [get_bind_eq_ok] at h
  cases hp : k.threads[p]? with
  | none =>
    simp only [hp, pure_eq_ok] at h
    exact h.2 ▸ ⟨hk, ht⟩
  | some pth =>
    simp only [hp] at h
    cases hr : pth.family.children[t]? with
    | none =>
      simp only [hr, pure_eq_ok] at h
      exact h.2 ▸ ⟨hk, ht⟩
    | some entry =>
      simp only [hr, changeFamily_bind_eq_ok] at h
      obtain ⟨-, h⟩ := h
      have hne : t ≠ p := by
        rintro rfl
        have := ht.record t
        rw [recordOf_eq hp, hr] at this
        cases this
      have hk₁ :=
        hk.insertRecord (c := t) (r := { entry with forked := true, status := some status })
        hp fun hpar => by
          rw [ht.parent] at hpar
          cases hpar
      have ht₁ := ht.insertRecord hne (f := fun f => { f with
        children := f.children.insert t { entry with forked := true, status := some status } })
      have hrest : ∀ m : Core, m.Sound g → m.Untied t →
          (Core.wakeOne entry.exitSemaphore >>= fun _ => say (.reports t status p)) m = .ok u k' →
          k'.Sound g ∧ k'.Untied t := by
        intro m hm htm h
        rw [bind_eq_ok] at h
        obtain ⟨_, n, hn, h⟩ := h
        exact ⟨(hm.wakeOne hn).1.quiet (quiet_say h), (htm.wakeOne hn).quiet (quiet_say h)⟩
      split at h
      · rw [bind_eq_ok] at h
        obtain ⟨_, n, hn, h⟩ := h
        exact hrest n (hk₁.wakeOne hn).1 (ht₁.wakeOne hn) h
      · exact hrest _ hk₁ ht₁ h

/-- A thread leaves its family in this order: the exit is noted, the ties of `t` are cut, its
children are orphaned, and the parent is told, if there is one. -/
theorem leaveFamily_eq_ok (h : leaveFamily t k = .ok u k') :
    ∃ th m n, k.threads[t]? = some th ∧ Quiet k m ∧
      orphan th.family.children.toList
        (m.mapFamily t fun f => { f with parent := none, children := ∅ }) = .ok () n ∧
      (th.family.parent = none ∧ k' = n ∨
        ∃ p, th.family.parent = some p ∧ reportExit t th.family.exitStatus p n = .ok u k') := by
  unfold leaveFamily at h
  simp only [ask_bind_eq_ok, thread_eq_ok_iff] at h
  obtain ⟨th, hth, h⟩ := h
  obtain ⟨m, hq, h⟩ := note_eq_ok h
  rw [changeFamily_bind_eq_ok, bind_eq_ok] at h
  obtain ⟨-, _, n, hn, h⟩ := h
  refine ⟨th, m, n, hth, hq, hn, ?_⟩
  cases hp : th.family.parent with
  | none =>
    simp only [hp, pure_eq_ok] at h
    exact .inl ⟨rfl, h.2.symm⟩
  | some p =>
    simp only [hp] at h
    exact .inr ⟨p, rfl, h⟩

/-- A thread that holds no lock has no ties once it has left its family. -/
theorem Sound.leaveFamily (hk : k.Sound g) (hg : g.terms.strays = [])
    (hl : ∀ l, k.waits.holder l ≠ some t) (h : leaveFamily t k = .ok u k') :
    k'.Sound g ∧ k'.Untied t := by
  obtain ⟨th, m, n, hth, hq, hn, h⟩ := leaveFamily_eq_ok h
  have hm := hk.quiet hq
  have hmth : m.threads[t]? = some th := by
    rw [hq.threads]
    exact hth
  have hs := hm.mapFamily (t := t) (f := fun f => { f with parent := none, children := ∅ })
    (th.family.children.toList.map Prod.fst) fun c q hc hns => by
      rw [parentOf_mapFamily hmth] at hc
      split at hc
      · cases hc
      · obtain ⟨r, hr, hst⟩ := hm.registered.parent c q hc (by simp [hg])
        refine ⟨r, ?_, hst⟩
        rw [recordOf_mapFamily hmth, if_neg]
        · exact hr
        · -- The children of `t` are strays.
          rintro rfl
          rw [recordOf_eq hmth] at hr
          refine hns (List.mem_map.mpr ⟨(c, r), ?_, rfl⟩)
          exact Std.ExtTreeMap.mem_toList_iff_getElem?_eq_some.mpr hr
  have ht : (m.mapFamily t fun f => { f with parent := none, children := ∅ }).Untied t := by
    constructor
    · rw [parentOf_mapFamily hmth, if_pos rfl]
    · intro c
      rw [recordOf_mapFamily hmth, if_pos rfl]
      simp
    · rw [waits_mapFamily, hq.waits]
      exact hl
  obtain ⟨hs', ht'⟩ := hs.orphan ht hn
  have hg' : ({ g with terms := { g.terms with strays := [] } } : Stage) = g := by
    rw [← hg]
  rw [hg'] at hs'
  rcases h with ⟨-, rfl⟩ | ⟨p, -, h⟩
  · exact ⟨hs', ht'⟩
  · exact hs'.reportExit ht' h

theorem holder_ne_of_heldBy (h : k.objects.heldBy t = none) (l : ObjectId) :
    k.waits.holder l ≠ some t := by
  intro hl
  obtain ⟨o, ho, hoh⟩ := Option.bind_eq_some_iff.mp hl
  rw [Objects.heldBy, Option.map_eq_none_iff, List.find?_eq_none] at h
  have := h (l, o) (Std.ExtTreeMap.mem_toList_iff_getElem?_eq_some.mpr ho)
  simp [hoh] at this

/-- An exit cuts the ties of the thread, which is not the idle one and holds no locks, and ends its
turn. -/
theorem exit_eq_ok (hid : ∀ th, k.running = .ok th → th.id = k.current) (h : exit k = .ok u k') :
    ∃ m₁ m₂ m₃, k.current ≠ k.idle ∧ k.objects.heldBy k.current = none ∧
      leaveFamily k.current k = .ok () m₁ ∧ Quiet m₁ m₂ ∧ endTurn .dying m₂ = .ok u m₃ ∧
      Quiet m₃ k' := by
  unfold exit at h
  simp only [outsideHandler_bind_eq_ok, ask_bind_eq_ok, get_bind_eq_ok, demand_bind_eq_ok] at h
  obtain ⟨-, th, hr, hi, h⟩ := h
  rw [hid th hr] at h hi
  cases hheld : k.objects.heldBy k.current with
  | some l =>
    simp only [hheld] at h
    rw [bind_eq_ok] at h
    simp [throw_eq_ok] at h
  | none =>
    simp only [hheld] at h
    rw [bind_eq_ok] at h
    obtain ⟨_, m₁, h₁, h⟩ := h
    simp only [ask_bind_eq_ok] at h
    obtain ⟨th', -, h⟩ := h
    rw [bind_eq_ok] at h
    obtain ⟨_, m₂, h₂, h⟩ := h
    obtain ⟨m₃, m₄, hq, h, hq'⟩ := masked_eq_ok h
    exact ⟨m₁, m₃, m₄, hi, rfl, h₁, (quiet_say h₂).trans hq, h, hq'⟩

/-- Nothing refers to the thread any more when its last turn ends. -/
theorem Sound.exit_eq_ok (hk : k.Sound g) (hns : g.terms.strays = [])
    (h : Core.exit k = .ok u k') :
    ∃ m₁ m₂ m₃, Core.leaveFamily k.current k = .ok () m₁ ∧ Quiet m₁ m₂ ∧ m₂.Sound g ∧ m₂.Leaving ∧
      Core.endTurn .dying m₂ = .ok u m₃ ∧ Quiet m₃ k' := by
  have hid : ∀ th, k.running = .ok th → th.id = k.current := fun th hr =>
    (hk.running_eq hr).1.trans hk.current.symm
  obtain ⟨m₁, m₂, m₃, hi, hheld, h₁, hq, h, hq'⟩ := Core.exit_eq_ok hid h
  rw [hk.current] at hheld
  obtain ⟨hs, hu⟩ := hk.leaveFamily hns (holder_ne_of_heldBy hheld) (hk.current ▸ h₁)
  have hm := hs.quiet hq
  have hcur : m₂.current = k.current := hm.current.trans hk.current.symm
  have hleave : m₂.Leaving := by
    refine Untied.leaving (g := g) ?_ ?_ ?_
    · rw [hcur, hk.current]
      exact hu.quiet hq
    · rw [hcur, hm.idle, ← hk.idle]
      exact hi
    · rw [← hns]
      exact hm
  exact ⟨m₁, m₂, m₃, h₁, hq, hm, hleave, h, hq'⟩

theorem Sound.exit (hk : k.Sound g) (hg : g.state = .running) (hns : g.terms.strays = [])
    (h : exit k = .ok u k') : Serves g k k' := by
  obtain ⟨m₁, m₂, m₃, -, -, hm, hleave, h, hq⟩ := hk.exit_eq_ok hns h
  refine Serves.quiet_right ?_ hq
  exact (hm.stand hg _ (by decide)).serves_endTurn hg (by decide) (fun _ => hleave) h k

/-! ## Booting -/

/-- A core without queues and objects, outside a handler. -/
structure Blank (k : Core) : Prop where
  ready : k.ready = .empty
  sleepers : k.sleepers = .empty
  objects : k.objects = .empty
  handler : k.machine.inHandler = false

theorem Blank.quiet (h : k.Blank) (hq : Quiet k k') : k'.Blank :=
  ⟨hq.ready.trans h.ready, hq.sleepers.trans h.sleepers, hq.objects.trans h.objects,
    hq.handler.trans h.handler⟩

theorem Blank.queue (h : k.Blank) (p : Seat) : k.seating.queue p = [] := by
  obtain ⟨h₁, h₂, h₃, -⟩ := h
  cases p <;> simp [seating, h₁, h₂, h₃, Objects.empty, Queue.empty]

/-- A thread that is alone and runs is in order, even in the place of the idle thread. -/
theorem Blank.sound (h : k.Blank) (name : String) (priority : Priority) (page : Page)
    (hc : k.current = t) (hi : k.idle = t) (hlt : t < k.nextThread)
    (hlive : ∀ u, k.threads[u]? =
      if u = t then some { Thread.create t name priority page none none with state := .running }
      else none) : k.Sound ⟨t, t, .running, false, ⟨true, []⟩⟩ := by
  have hq := h.queue
  obtain ⟨-, -, h₃, h₄⟩ := h
  have hcur : k.seating.current = t := hc
  have hidle : k.seating.idle = t := hi
  have hstate : ∀ u, k.seating.state u = if u = t then some .running else none := by
    intro u
    simp only [seating, hlive]
    split <;> rfl
  have hwake : ∀ u, k.seating.wakeAt u = none := by
    intro u
    simp only [seating, hlive]
    split <;> rfl
  have hno : ∀ u v, ¬ k.waits.Awaits u v := by
    intro u v hv
    obtain ⟨l, -, hl⟩ := Waits.awaits_iff.mp hv
    simp [waits, h₃, Objects.empty] at hl
  have hdon : ∀ u, k.waits.donors u = [] := by
    intro u
    simp only [waits, hlive]
    split <;> simp [Thread.create, Queue.empty]
  refine ⟨hc, hi, h₄, ?_, ⟨⟨?_, ?_, ?_, ?_, ?_⟩, ?_⟩, ?_⟩
  · have habout : ∀ u, k.seating.about .running u = if u = t then some .running else none := by
      intro u
      rw [Seating.about, hcur, hstate]
      split <;> rfl
    constructor <;> simp [hq, hstate, hwake, hcur, hidle, habout]
  · intro u l
    simp only [waits, hlive, h₃, Objects.empty]
    split <;> simp [Thread.create]
  · intro u l hu
    simp [waits, h₃, Objects.empty] at hu
  · intro u
    rw [hdon]
    exact List.nodup_nil
  · intro u v
    rw [hdon]
    simp [hno]
  · intro u hu
    obtain ⟨v, hv, -⟩ := Relation.TransGen.head'_iff.mp hu
    exact hno u v hv
  · intro u
    rw [Waits.due, hdon]
    simp only [waits, hlive, List.foldl_nil]
    split <;> simp [Thread.create]
  · refine ⟨?_, ?_, ?_, ?_, ?_, ?_⟩
    · intro u x hu
      rw [hlive] at hu
      split at hu
      · rename_i he
        cases hu
        refine ⟨he.symm, by rw [he]; exact hlt, fun _ => ?_⟩
        simp [Thread.intact, Thread.create, Page.canary_asStack]
      · cases hu
    · intro c p hp
      simp only [parentOf, hlive] at hp
      split at hp <;> simp [Thread.create, Family.alone] at hp
    · intro l u hu
      simp [waits, h₃, Objects.empty] at hu
    all_goals
      intro m x hx
      simp [h₃, Objects.empty] at hx

/-- Another thread that sits nowhere takes the place of the idle thread. -/
theorem Sound.appoint (hk : k.Sound g) (hlive : ∃ th, k.threads[t]? = some th)
    (ht : k.seating.Stands t) : ({ k with idle := t } : Core).Sound { g with idle := t } := by
  refine ⟨hk.current, rfl, hk.handler, ?_, hk.waits, hk.registered.of_eq rfl rfl rfl⟩
  obtain ⟨h₁, h₂, -, h₄, h₅, h₆, h₇, -, h₉⟩ := hk.seating
  obtain ⟨th, hth⟩ := hlive
  exact ⟨h₁, h₂, ⟨th.state, state_eq hth⟩, h₄, h₅, h₆, h₇, ht, h₉⟩

/-- The core after `main` was registered, as the thread that runs. -/
def mainOnly (k : Core) (priority : Priority) (page : Page) : Core :=
  { (k.enlist (.create k.nextThread (Name.clip "main") priority page none none)).mapThread
      k.nextThread fun th => { th with state := .running } with current := k.nextThread }

theorem Blank.sound_mainOnly (h : k.Blank) (hthreads : k.threads = ∅) (priority : Priority)
    (page : Page) : Core.Sound { k.mainOnly priority page with idle := k.nextThread }
      ⟨k.nextThread, k.nextThread, .running, false, ⟨true, []⟩⟩ := by
  refine Blank.sound ⟨h.ready, h.sleepers, h.objects, h.handler⟩ (Name.clip "main") priority page
    rfl rfl (Nat.lt_succ_self k.nextThread) ?_
  intro u
  show (((k.enlist _).mapThread k.nextThread _).threads[u]?) = _
  rw [getElem?_mapThread, getElem?_enlist, getElem?_enlist, hthreads]
  split <;> simp

/-- **Booting.** A core that was booted obeys the rules, and no thread is ready. -/
theorem sound_boot (hk : k.Blank) (hthreads : k.threads = ∅) (h : boot k = .ok (.ok ()) k') :
    k'.Sound ⟨k'.current, k'.idle, .running, false, ⟨true, []⟩⟩ ∧ k'.Orderly := by
  have hrefused : ∀ (refusal : Refusal) (m : Core),
      (shutDown >>= fun _ => (pure (.error refusal) : CoreM (Except Refusal Unit))) m ≠
        .ok (.ok ()) k' := by
    intro refusal m h
    rw [bind_eq_ok] at h
    obtain ⟨_, _, -, h⟩ := h
    cases (pure_eq_ok.mp h).1
  unfold boot at h
  rw [get_bind_eq_ok, demand_bind_eq_ok, get_bind_eq_ok] at h
  obtain ⟨-, h⟩ := h
  rw [bind_eq_ok] at h
  obtain ⟨r, m, hm, h⟩ := h
  rcases register_eq_ok hm with ⟨refusal, rfl, -⟩ | ⟨n, page, hq, rfl, rfl⟩
  · exact absurd h (hrefused refusal m)
  have hn := hk.quiet hq
  simp only [changeThread_bind_eq_ok, modify_bind_eq_ok] at h
  obtain ⟨-, h⟩ := h
  rw [bind_eq_ok] at h
  obtain ⟨r, m', hm', h⟩ := h
  rcases register_eq_ok hm' with ⟨refusal, rfl, -⟩ | ⟨n', page', hq', rfl, rfl⟩
  · exact absurd h (hrefused refusal m')
  simp only [modify_bind_eq_ok] at h
  simp only [bind_eq_ok, pure_eq_ok] at h
  obtain ⟨_, m₁, h₁, _, m₂, h₂, -, rfl⟩ := h
  have hq₂ :=
    (quiet_modifyMachine (f := (·.withInterrupts true)) (fun _ => rfl) h₁).trans (quiet_say h₂)
  -- Until the idle thread is there, `main` takes its place.
  have hmain := hn.sound_mainOnly (hq.threads.trans hthreads) k.config.mainPriority page
  have hqi : Quiet { n.mainOnly k.config.mainPriority page with idle := n.nextThread }
      { n' with idle := n.nextThread } :=
    ⟨hq'.threads, hq'.nextThread, hq'.current, rfl, hq'.ready, hq'.sleepers, hq'.objects,
      hq'.pending, hq'.handler⟩
  have hs := hmain.quiet hqi
  have he : (enlist { n' with idle := n.nextThread }
      (.create n'.nextThread (Name.clip "idle") 0 page' none none)).Sound _ := hs.enlist
  have hi := he.appoint (t := n'.nextThread) ⟨_, by rw [getElem?_enlist]; exact if_pos rfl⟩ (by
    rw [seating_enlist hs]
    exact hs.fresh_stands)
  have hk' := Sound.quiet hi hq₂
  refine ⟨?_, ?_⟩
  · rw [hk'.current, hk'.idle]
    exact hk'
  · have hready : m₂.ready = .empty := (hq₂.ready.trans hq'.ready).trans hn.ready
    unfold Orderly
    split <;> simp [hready]

end Core

end ThreadCore
