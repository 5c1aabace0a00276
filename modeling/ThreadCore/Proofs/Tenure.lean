import ThreadCore.Proofs.ExitStatuses
import ThreadCore.Proofs.Handles

/-!
# Objects and records last

An object belongs to a slot of the session or to a record, which has two semaphores of its own
(`Session.owned`). No number has two owners, and what exists is what the owners have, but for the
objects of slots that were destroyed (`Tenure`). Every transition keeps this
(`Session.Trades.tenure`): a new object gets a number of its own, and whoever loses an object is its
owner. So a call cannot take away what belongs to somebody else, and an object that was destroyed
never comes back.

New threads, too, get numbers that were not in use (`Core.Renews`), and what records say of parents
and children agrees with who is live (`Core.FamiliesAgree`).
-/

namespace ThreadCore

/-! ## Owners -/

/-- Who may have an object. -/
inductive Owner
  | slot (x : Slot)
  /-- A record, for the semaphore of the child's report. -/
  | fork (parent child : ThreadId)
  /-- A record, for the semaphore of the child's exit. -/
  | exit (parent child : ThreadId)
deriving DecidableEq, Repr

/-- The parent and the child of a record. -/
def Owner.record : Owner → Option (ThreadId × ThreadId)
  | .slot _ => none
  | .fork p c | .exit p c => some (p, c)

/-- Every object has one owner and every number is that of one object. `own` says who was given
what, `gone` which slots lost what they were given, and `last` is the number given last. -/
structure Tenure (last : ObjectId) (has : Handle → Prop) (own : Owner → Option Handle)
    (gone : Slot → Prop) : Prop where
  issued : ∀ o h, own o = some h → h.number ≤ last
  distinct : ∀ o q h g, own o = some h → own q = some g → h.number = g.number → o = q
  has_iff : ∀ h, has h ↔ ∃ o, own o = some h ∧ ∀ x, o = .slot x → ¬ gone x
  given : ∀ x, gone x → own (.slot x) ≠ none

namespace Tenure

variable {last : ObjectId} {has : Handle → Prop} {own : Owner → Option Handle} {gone : Slot → Prop}
  {o : Owner} {x : Slot} {h : Handle}

/-- Nobody has an object. -/
theorem nothing (last : ObjectId) : Tenure last (fun _ => False) (fun _ => none) fun _ => False :=
  ⟨nofun, nofun, fun _ => ⟨nofun, nofun⟩, nofun⟩

variable (T : Tenure last has own gone)

include T

/-- A new object gets the next number and an owner who had nothing. -/
theorem grant (ho : own o = none) (hn : h.number = last + 1) :
    Tenure (last + 1) (fun g => g = h ∨ has g) (Function.update own o (some h)) gone := by
  have hold : ∀ {q g}, own q = some g → g.number ≠ h.number := fun hq he =>
    absurd (he.trans hn ▸ T.issued _ _ hq) (Nat.not_succ_le_self _)
  refine ⟨fun q g hq => ?_, fun q r g f hq hr he => ?_, fun g => ⟨?_, ?_⟩, fun x hx => ?_⟩
  · rw [Function.update_apply] at hq
    split at hq
    · cases hq
      exact hn.le
    · exact (T.issued q g hq).trans (Nat.le_succ _)
  · rw [Function.update_apply] at hq hr
    split at hq <;> split at hr
    · rename_i hqo hro
      exact hqo.trans hro.symm
    · cases hq
      exact absurd he.symm (hold hr)
    · cases hr
      exact absurd he (hold hq)
    · exact T.distinct q r g f hq hr he
  · rintro (rfl | hg)
    · refine ⟨o, Function.update_self .., ?_⟩
      rintro x rfl hx
      exact T.given x hx ho
    · obtain ⟨q, hq, hx⟩ := (T.has_iff g).mp hg
      have hqo : q ≠ o := by
        rintro rfl
        exact absurd (hq.symm.trans ho) nofun
      exact ⟨q, by rwa [Function.update_of_ne hqo], hx⟩
  · rintro ⟨q, hq, hx⟩
    rw [Function.update_apply] at hq
    split at hq
    · exact .inl (Option.some.inj hq).symm
    · exact .inr ((T.has_iff g).mpr ⟨q, hq, hx⟩)
  · rw [Function.update_apply]
    split
    · nofun
    · exact T.given x hx

/-- The object of a slot is destroyed. -/
theorem destroy (hx : own (.slot x) = some h) :
    Tenure last (fun g => has g ∧ g ≠ h) own fun y => y = x ∨ gone y := by
  refine ⟨T.issued, T.distinct, fun g => ⟨?_, ?_⟩, fun y => ?_⟩
  · rintro ⟨hg, hne⟩
    obtain ⟨q, hq, hy⟩ := (T.has_iff g).mp hg
    refine ⟨q, hq, ?_⟩
    rintro y rfl (rfl | hgone)
    · exact hne (Option.some.inj (hq.symm.trans hx))
    · exact hy y rfl hgone
  · rintro ⟨q, hq, hy⟩
    refine ⟨(T.has_iff g).mpr ⟨q, hq, fun y hqy hgone => hy y hqy (.inr hgone)⟩, ?_⟩
    rintro rfl
    exact hy x (T.distinct q _ g g hq hx rfl) (.inl rfl)
  · rintro (rfl | hy)
    · simp [hx]
    · exact T.given y hy

/-- Some records go, and what they own goes with them. -/
theorem retire (Q : Owner → Prop) [DecidablePred Q] (hQ : ∀ x, ¬ Q (.slot x)) :
    Tenure last (fun g => has g ∧ ∀ o, Q o → own o ≠ some g) (fun o => if Q o then none else own o)
      gone := by
  have hown : ∀ {q g}, (if Q q then none else own q) = some g → ¬ Q q ∧ own q = some g := by
    intro q g hq
    split at hq
    · cases hq
    · exact ⟨‹_›, hq⟩
  refine ⟨fun q g hq => T.issued q g (hown hq).2,
    fun q r g f hq hr => T.distinct q r g f (hown hq).2 (hown hr).2, fun g => ⟨?_, ?_⟩,
      fun x hx => ?_⟩
  · rintro ⟨hg, hnot⟩
    obtain ⟨q, hq, hx⟩ := (T.has_iff g).mp hg
    exact ⟨q, by rwa [if_neg fun h => hnot q h hq], hx⟩
  · rintro ⟨q, hq, hx⟩
    obtain ⟨hnot, hq⟩ := hown hq
    refine ⟨(T.has_iff g).mpr ⟨q, hq, hx⟩, fun o ho hg => hnot ?_⟩
    rwa [T.distinct q o g g hq hg rfl]
  · rw [if_neg (hQ x)]
    exact T.given x hx

end Tenure

/-- Who owns what if the slots have these handles. -/
def Stock.owned (S : Stock) (slot : Slot → Option Handle) : Owner → Option Handle
  | .slot x => slot x
  | .fork p c => (S.pair p c).map fun r => .semaphore r.1
  | .exit p c => (S.pair p c).map fun r => .semaphore r.2

namespace Stock

variable {S : Stock} {slot : Slot → Option Handle} {p c : ThreadId}

theorem owned_update (x : Slot) (o : Option Handle) :
    S.owned (Function.update slot x o) = Function.update (S.owned slot) (.slot x) o := by
  funext q
  cases q with
  | slot y => simp [owned, Function.update_apply]
  | fork p c => simp [owned]
  | exit p c => simp [owned]

theorem owned_hire : (S.hire p c).owned slot =
    Function.update (Function.update (S.owned slot) (.fork p c) (some (.semaphore (S.lastId + 1))))
      (.exit p c) (some (.semaphore (S.lastId + 2))) := by
  funext q
  cases q with
  | slot y => simp [owned]
  | fork q d =>
    by_cases hq : q = p ∧ d = c <;> simp [owned, hire, setPair, add, hq]
  | exit q d =>
    by_cases hq : q = p ∧ d = c <;> simp [owned, hire, setPair, add, hq]

theorem owned_dismiss (r : ObjectId × ObjectId) : (S.dismiss p c r).owned slot =
    fun o => if o.record = some (p, c) then none else S.owned slot o := by
  funext q
  cases q with
  | slot y => simp [owned, Owner.record]
  | fork q d =>
    by_cases hq : q = p ∧ d = c <;> simp [owned, dismiss, setPair, drop, Owner.record, hq]
  | exit q d =>
    by_cases hq : q = p ∧ d = c <;> simp [owned, dismiss, setPair, drop, Owner.record, hq]

theorem owned_disown : (S.disown p).owned slot =
    fun o => if o.record.map Prod.fst = some p then none else S.owned slot o := by
  funext q
  cases q with
  | slot y => simp [owned, Owner.record]
  | fork q d => by_cases hq : q = p <;> simp [owned, disown, Owner.record, hq]
  | exit q d => by_cases hq : q = p <;> simp [owned, disown, Owner.record, hq]

/-- What a record owns are its semaphores. -/
theorem owned_ne_iff (slot : Slot → Option Handle) {g : Handle} :
    (∀ o : Owner, o.record = some (p, c) → S.owned slot o ≠ some g) ↔
      ∀ r, S.pair p c = some r → g ≠ .semaphore r.1 ∧ g ≠ .semaphore r.2 := by
  constructor
  · intro h r hr
    have hfork := h (.fork p c) rfl
    have hexit := h (.exit p c) rfl
    simp only [owned, hr] at hfork hexit
    exact ⟨fun hg => hfork (congrArg some hg.symm), fun hg => hexit (congrArg some hg.symm)⟩
  · rintro h o ho hg
    cases o with
    | slot x => cases ho
    | fork q d =>
      cases ho
      obtain ⟨r, hr, rfl⟩ := Option.map_eq_some_iff.mp hg
      exact (h r hr).1 rfl
    | exit q d =>
      cases ho
      obtain ⟨r, hr, rfl⟩ := Option.map_eq_some_iff.mp hg
      exact (h r hr).2 rfl

theorem has_dismiss {r : ObjectId × ObjectId} (hr : S.pair p c = some r) : (S.dismiss p c r).has =
    fun g => S.has g ∧ ∀ o : Owner, o.record = some (p, c) → S.owned slot o ≠ some g := by
  funext g
  rw [owned_ne_iff, hr]
  simp [dismiss, drop, setPair, and_assoc]

theorem has_disown : (S.disown p).has =
    fun g => S.has g ∧ ∀ o : Owner, o.record.map Prod.fst = some p → S.owned slot o ≠ some g := by
  funext g
  refine congrArg (S.has g ∧ ·) (propext ?_)
  refine (forall_congr' fun c => (owned_ne_iff slot).symm).trans
    ⟨fun h o ho => ?_, fun h c o ho => ?_⟩
  · obtain ⟨⟨q, c⟩, hq, rfl⟩ := Option.map_eq_some_iff.mp ho
    exact h c o hq
  · exact h o (by rw [ho]; rfl)

end Stock

/-- The object of the slot was destroyed. -/
def Destroyed (log : List Entry) (x : Slot) : Prop := ∃ e ∈ log, e.deed.destroys = some x

instance (log : List Entry) (x : Slot) : Decidable (Destroyed log x) :=
  inferInstanceAs (Decidable (∃ e ∈ log, e.deed.destroys = some x))

namespace Kinship.Follows

variable {K K' : Kinship} {t : ThreadId} {d : Deed}

/-- Whoever is live now was live before or has a number that had not been given. -/
theorem renews (h : K.Follows t K' d) : K.nextThread ≤ K'.nextThread ∧
    ∀ v, K'.status v ≠ none → K.status v ≠ none ∨ K.nextThread ≤ v := by
  cases hn : d.creates with
  | some n =>
    obtain ⟨-, -, rfl⟩ := h.create hn
    refine ⟨Nat.le_succ _, fun v hv => ?_⟩
    by_cases hv' : v = K.nextThread
    · exact .inr hv'.ge
    · exact .inl fun hnone => hv ((if_neg hv').trans hnone)
  | none =>
    cases hc : d.collects with
    | some c =>
      obtain ⟨_, -, -, rfl⟩ := h.collect hc
      exact ⟨le_rfl, fun _ => .inl⟩
    | none =>
      cases hs : d.setsStatus with
      | some x =>
        obtain ⟨hlive, rfl⟩ := h.set hs
        refine ⟨le_rfl, fun v hv => .inl ?_⟩
        by_cases hv' : v = t
        · exact hv' ▸ hlive
        · exact fun hnone => hv ((Function.update_of_ne hv' ..).trans hnone)
      | none =>
        cases hx : d.exits with
        | true =>
          have hex := h.exit hx
          refine ⟨hex.nextThread.ge, fun v hv => .inl ?_⟩
          by_cases hv' : v = t
          · exact hv' ▸ hex.live
          · exact hex.status v hv' ▸ hv
        | false =>
          obtain ⟨hnext, hstatus, -⟩ := h.plain hn hc hs hx
          exact ⟨hnext.ge, fun v hv => .inl (hstatus ▸ hv)⟩

end Kinship.Follows

namespace Core

variable {k k' m : Core}

/-- A live thread and its parent agree about each other, and a record shows an exit status only if
the child is gone. -/
structure FamiliesAgree (k : Core) : Prop where
  parent : ∀ (c p : ThreadId) (th : Thread), k.threads[c]? = some th →
    (th.family.parent = some p ↔ ∃ (pth : Thread) (r : ChildRecord), k.threads[p]? = some pth ∧
      pth.family.children[c]? = some r ∧ r.status = none)
  exited : ∀ (p c : ThreadId) (pth : Thread) (r : ChildRecord), k.threads[p]? = some pth →
    pth.family.children[c]? = some r → r.status ≠ none → k.threads[c]? = none

/-- What is live or exists in the later state did so before, or has a number that had not been given
then. -/
structure Renews (k k' : Core) : Prop where
  nextThread : k.nextThread ≤ k'.nextThread
  lastId : k.objects.lastId ≤ k'.objects.lastId
  thread : ∀ t ∈ k'.threads, t ∈ k.threads ∨ k.nextThread ≤ t
  object : ∀ h, k'.objects.Has h → k.objects.Has h ∨ k.objects.lastId < h.number

theorem Renews.refl (k : Core) : k.Renews k := ⟨le_rfl, le_rfl, fun _ => .inl, fun _ => .inl⟩

theorem Renews.trans (h : k.Renews m) (h' : m.Renews k') : k.Renews k' where
  nextThread := h.nextThread.trans h'.nextThread
  lastId := h.lastId.trans h'.lastId
  thread t ht := (h'.thread t ht).elim (h.thread t) fun hle => .inr (h.nextThread.trans hle)
  object g hg := (h'.object g hg).elim (h.object g) fun hlt => .inr (h.lastId.trans_lt hlt)

end Core

namespace Session

open ThreadCore.Core (Renews FamiliesAgree)

variable {s s' : Session} {d : Deed} {log : List Entry} {frames : List Bool} {x : Slot} {h : Handle}

/-! ## Owners in a session -/

/-- What the owners have in a session. -/
def owned (s : Session) : Owner → Option Handle
  | .slot x => s.slot x
  | .fork p c => (s.core.recordOf p c).map fun r => .semaphore r.forkSemaphore
  | .exit p c => (s.core.recordOf p c).map fun r => .semaphore r.exitSemaphore

theorem owned_eq (s : Session) : s.owned = s.core.stock.owned s.slot := by
  funext o
  cases o with
  | slot x => rfl
  | fork p c => simp only [owned, Stock.owned, Core.stock_pair, Option.map_map]; rfl
  | exit p c => simp only [owned, Stock.owned, Core.stock_pair, Option.map_map]; rfl

/-- Every object of the session has one owner, and slots have what was not destroyed. -/
def Tenured (log : List Entry) (s : Session) : Prop :=
  Tenure s.core.objects.lastId s.core.objects.Has s.owned (Destroyed log)

theorem destroyed_cons :
    Destroyed (⟨s, d, s'⟩ :: log) x ↔ d.destroys = some x ∨ Destroyed log x := by
  simp only [Destroyed, List.mem_cons, exists_eq_or_imp]

theorem destroyed_cons_of (hd : d.destroys = none) :
    Destroyed (⟨s, d, s'⟩ :: log) = Destroyed log := by
  funext x
  rw [destroyed_cons, or_iff_right fun h => by simp [hd] at h]

/-- **Transitions.** Every transition keeps the owners in order. -/
theorem Trades.tenured (h : Trades s d s') (T : s.Tenured log) :
    s'.Tenured (⟨s, d, s'⟩ :: log) := by
  have T' :
      Tenure s.core.stock.lastId s.core.stock.has (s.core.stock.owned s.slot) (Destroyed log) :=
    owned_eq s ▸ T
  suffices hT : Tenure s'.core.stock.lastId s'.core.stock.has (s'.core.stock.owned s'.slot)
      (Destroyed (⟨s, d, s'⟩ :: log)) by
    rw [← owned_eq] at hT
    exact hT
  cases h with
  | keep hd hstock hslot => rwa [destroyed_cons_of hd, hstock, hslot]
  | make x h hd hx hn hstock hslot =>
    rw [destroyed_cons_of hd, hstock, hslot, Stock.owned_update]
    exact T'.grant hx hn
  | destroy x h hd hx hstock hslot =>
    have hgone : Destroyed (⟨s, d, s'⟩ :: log) = fun y => y = x ∨ Destroyed log y := by
      funext y
      rw [destroyed_cons, hd, Option.some.injEq, eq_comm (a := x)]
    rw [hgone, hstock, hslot]
    exact T'.destroy hx
  | hire p c hd hp hstock hslot =>
    rw [destroyed_cons_of hd, hstock, hslot, Stock.owned_hire]
    have hfork : s.core.stock.owned s.slot (.fork p c) = none := by simp [Stock.owned, hp]
    have hexit : s.core.stock.owned s.slot (.exit p c) = none := by simp [Stock.owned, hp]
    refine (T'.grant hfork rfl).grant ?_ rfl
    rwa [Function.update_of_ne (by simp)]
  | dismiss p c r hd hr hstock hslot =>
    rw [destroyed_cons_of hd, hstock, hslot, Stock.owned_dismiss, Stock.has_dismiss hr]
    exact T'.retire (fun o => o.record = some (p, c)) nofun
  | disown p hd hstock hslot =>
    rw [destroyed_cons_of hd, hstock, hslot, Stock.owned_disown, Stock.has_disown]
    exact T'.retire (fun o => o.record.map Prod.fst = some p) nofun

/-! ## Runs -/

section

variable {allowed : List Entry → Session → Call → Prop}

theorem Logged.tenured (h : Logged allowed log frames s) : s.Tenured log := by
  refine h.invariant (P := fun log s => s.Tenured log) (fun setup config k _ hk => ?_)
    fun log frames s d s' hs T hd _ => (hd.trades hs.kindred hs.steered).tenured T
  obtain ⟨⟨-, office, hd⟩, hbond, -⟩ := kinship_boot hk
  have hobjects : k.objects = .empty := (Core.boot_ties rfl rfl hk).1
  have hrecord : ∀ p c, k.recordOf p c = none := fun p c => by
    by_contra hr
    obtain ⟨r, hr⟩ := Option.ne_none_iff_exists'.mp hr
    obtain ⟨_, _, -, -, hb⟩ := hd.assigned.bond hr
    exact absurd ((hbond p c).symm.trans hb) nofun
  have howned : (ofCore k).owned = fun _ => none := by
    funext o
    cases o with
    | slot x => cases x <;> rfl
    | fork p c => exact congrArg (Option.map _) (hrecord p c)
    | exit p c => exact congrArg (Option.map _) (hrecord p c)
  have hhas : k.objects.Has = fun _ => False := by
    funext h
    cases h <;> simp [Objects.Has, hobjects, Objects.empty]
  have hgone : Destroyed [] = fun _ => False := by
    funext x
    simp [Destroyed]
  show Tenure k.objects.lastId k.objects.Has (ofCore k).owned (Destroyed [])
  rw [howned, hhas, hgone]
  exact .nothing _

/-- Every transition gives numbers to what is new that had not been given. -/
theorem Leads.renews (hs : s.Kindred) (hk : s.core.Steered .running) (hd : Leads s d s') :
    s.core.Renews s'.core := by
  obtain ⟨hnext, hlive⟩ := (leads_kinship hs hd).2.renews
  obtain ⟨hlast, hobject⟩ := (hd.trades hs hk).renews
  have hmem : ∀ (k : Core) t, t ∈ k.threads ↔ k.kinship.status t ≠ none := fun k t => by
    rw [Core.status_eq, Ne, Option.map_eq_none_iff, Std.ExtTreeMap.mem_iff_isSome_getElem?,
      Option.isSome_iff_ne_none]
  refine ⟨hnext, hlast, fun t ht => ?_, hobject⟩
  rw [hmem]
  exact hlive t ((hmem _ t).mp ht)

theorem Later.renews (hs : s.Kindred) (hk : s.core.Steered .running) (hl : Later s s') :
    s.core.Renews s'.core :=
  (hl.invariant (P := fun m => m.Kindred ∧ m.core.Steered .running ∧ s.core.Renews m.core)
    ⟨hs, hk, .refl _⟩ fun _ _ _ ⟨hs, hk, hr⟩ hd =>
      ⟨(leads_kinship hs hd).1, hk.course hd.course, hr.trans (hd.renews hs hk)⟩).2.2

theorem Logged.familiesAgree (h : Logged allowed log frames s) : s.core.FamiliesAgree := by
  obtain ⟨hK, office, hd⟩ := h.kindred
  constructor
  · intro c p th hth
    rw [← Core.parentOf_eq hth]
    refine (hK.agree p c).trans ⟨?_, ?_⟩
    · rintro ⟨b, hb, hs⟩
      obtain ⟨r, hr, -, -, -, hstatus⟩ := Core.of_bond hb
      obtain ⟨pth, hpth, hchild⟩ := Option.bind_eq_some_iff.mp hr
      exact ⟨pth, r, hpth, hchild, hstatus.symm.trans hs⟩
    · rintro ⟨pth, r, hpth, hchild, hs⟩
      obtain ⟨f, e, -, -, hb⟩ := hd.assigned.bond ((Core.recordOf_eq hpth c).trans hchild)
      exact ⟨_, hb, hs⟩
  · intro p c pth r hpth hchild hs
    obtain ⟨f, e, -, -, hb⟩ := hd.assigned.bond ((Core.recordOf_eq hpth c).trans hchild)
    have hleft := (h.chronicle.bond p c _ hb).2.2.1
    by_contra hc
    obtain ⟨th, hth⟩ := Option.ne_none_iff_exists'.mp hc
    have hstatus : s.core.kinship.status c = some th.family.exitStatus := by
      rw [Core.status_eq, hth]; rfl
    exact hs (hleft.trans (h.chronicle.status c _ hstatus).2)

/-- What a session can rely on about its objects and threads. -/
structure Reliable (log : List Entry) (s : Session) : Prop where
  families : s.core.FamiliesAgree
  /-- Semaphores of records and handles, those of destroyed objects too, have numbers of their
  own. -/
  owners : s.Tenured log
  semaphores : ∀ i, i ∈ s.core.objects.semaphores ↔
    (∃ j, s.semaphores[j]? = some i ∧ ¬ Destroyed log (.semaphore j)) ∨
      ∃ p c r, s.core.recordOf p c = some r ∧ (i = r.forkSemaphore ∨ i = r.exitSemaphore)
  thread_lt : ∀ t ∈ s.core.threads, t < s.core.nextThread
  object_le : ∀ h, s.core.objects.Has h → h.number ≤ s.core.objects.lastId
  /-- So whoever has died stays dead, and what was destroyed never exists again. -/
  renews : ∀ s', Later s s' → s.core.Renews s'.core
  /-- Only the call that destroys the object of a slot takes it away. -/
  stays : ∀ d s' x h, Leads s d s' → s.slot x = some h → s.core.objects.Has h →
    d.destroys ≠ some x → s'.slot x = some h ∧ s'.core.objects.Has h
  halts : ∀ x c, Destroyed log x → x ∈ c.slots → (∀ y ∈ c.slots, s.slot y ≠ none) →
    ∃ e s', execute c s = .error e s'

theorem Tenured.has_slot_iff (T : s.Tenured log) (hx : s.slot x = some h) :
    s.core.objects.Has h ↔ ¬ Destroyed log x := by
  refine (T.has_iff h).trans ⟨?_, fun hd => ⟨.slot x, hx, fun y hy => by cases hy; exact hd⟩⟩
  rintro ⟨o, ho, hd⟩
  exact hd x (T.distinct o (.slot x) h h ho hx rfl)

theorem Tenured.mem_semaphores_iff (T : s.Tenured log) (i : ObjectId) :
    i ∈ s.core.objects.semaphores ↔
    (∃ j, s.semaphores[j]? = some i ∧ ¬ Destroyed log (.semaphore j)) ∨
      ∃ p c r, s.core.recordOf p c = some r ∧ (i = r.forkSemaphore ∨ i = r.exitSemaphore) := by
  refine (T.has_iff (.semaphore i)).trans ⟨?_, ?_⟩
  · rintro ⟨o, ho, hd⟩
    cases o with
    | slot x =>
      cases x with
      | semaphore j =>
        obtain ⟨id, hid, he⟩ := Option.map_eq_some_iff.mp ho
        cases he
        exact .inl ⟨j, hid, hd _ rfl⟩
      | lock j =>
        obtain ⟨id, -, he⟩ := Option.map_eq_some_iff.mp ho
        cases he
      | condition j =>
        obtain ⟨id, -, he⟩ := Option.map_eq_some_iff.mp ho
        cases he
    | fork p c =>
      obtain ⟨r, hr, he⟩ := Option.map_eq_some_iff.mp ho
      cases he
      exact .inr ⟨p, c, r, hr, .inl rfl⟩
    | exit p c =>
      obtain ⟨r, hr, he⟩ := Option.map_eq_some_iff.mp ho
      cases he
      exact .inr ⟨p, c, r, hr, .inr rfl⟩
  · rintro (⟨j, hj, hd⟩ | ⟨p, c, r, hr, rfl | rfl⟩)
    · exact ⟨.slot (.semaphore j), congrArg (Option.map Handle.semaphore) hj,
        fun y hy => by cases hy; exact hd⟩
    · exact ⟨.fork p c, congrArg (Option.map _) hr, nofun⟩
    · exact ⟨.exit p c, congrArg (Option.map _) hr, nofun⟩

theorem Logged.object_le (hlog : Logged allowed log frames s) (hh : s.core.objects.Has h) :
    h.number ≤ s.core.objects.lastId := by
  obtain ⟨o, ho, -⟩ := (hlog.tenured.has_iff h).mp hh
  exact hlog.tenured.issued o h ho

/-- Only the call that destroys the object of a slot takes it away. -/
theorem Logged.stays (hlog : Logged allowed log frames s) (hd : Leads s d s')
    (hx : s.slot x = some h) (hh : s.core.objects.Has h) (hne : d.destroys ≠ some x) :
    s'.slot x = some h ∧ s'.core.objects.Has h := by
  have htrades := hd.trades hlog.kindred hlog.steered
  have hx' := htrades.slot_eq hx
  refine ⟨hx', ((htrades.tenured hlog.tenured).has_slot_iff hx').mpr ?_⟩
  rw [destroyed_cons]
  rintro (hd | hd)
  · exact hne hd
  · exact (hlog.tenured.has_slot_iff hx).mp hh hd

/-- **Objects and families.** In every state of a run, whatever it calls, parents and children agree
about each other, every object has one owner and stays until its owner loses it, and no number is
given twice. -/
theorem logged_reliable (hlog : Logged allowed log frames s) : s.Reliable log where
  families := hlog.familiesAgree
  owners := hlog.tenured
  semaphores := hlog.tenured.mem_semaphores_iff
  thread_lt t ht := (hlog.steered.number t _ (Std.ExtTreeMap.getElem?_eq_some_getElem ht)).2
  object_le _ := hlog.object_le
  renews s' hl := hl.renews hlog.kindred hlog.steered
  stays _ _ _ _ := hlog.stays
  halts x c hx hc hall := by
    cases he : execute c s with
    | error e s' => exact ⟨e, s', rfl⟩
    | ok a s' =>
      obtain ⟨h, hh⟩ := Option.ne_none_iff_exists'.mp (hall x hc)
      exact absurd hx ((hlog.tenured.has_slot_iff hh).mp (execute_needs hall hc hh he))

/-- A semaphore was destroyed, a child has exited, and its parent has not collected the status. -/
theorem logged_reliable_uncollected : ∃ log s, Logged (fun _ _ _ => True) log [] s ∧
    s.semaphores = #[1, 4] ∧ Destroyed log (.semaphore 0) ∧ 3 ∉ s.core.threads ∧
      (s.core.recordOf 1 3).map (fun r => (r.forkSemaphore, r.exitSemaphore, r.status)) =
        some (2, 3, some (-1)) ∧ s.Reliable log := by
  have hrun : (replayFrom (fun _ _ _ => true) ⟨none, none, none, false, none⟩
      [.newSemaphore 0, .create "child" 40, .exit, .destroySemaphore 0, .newSemaphore 7]).any
      (fun r =>
        r.2.semaphores = #[1, 4] ∧ Destroyed r.1 (.semaphore 0) ∧ 3 ∉ r.2.core.threads ∧
          (r.2.core.recordOf 1 3).map (fun r => (r.forkSemaphore, r.exitSemaphore, r.status)) =
            some (2, 3, some (-1))) = true := by
    decide +kernel
  obtain ⟨⟨log, s⟩, hs, hrun⟩ := (Option.any_eq_true _ _).mp hrun
  obtain ⟨hslots, hdestroyed, hdead, hrecord⟩ := of_decide_eq_true hrun
  have hlog : Logged (fun _ _ _ => True) log [] s := logged_replayFrom (fun _ _ _ _ => trivial) hs
  exact ⟨log, s, hlog, hslots, hdestroyed, hdead, hrecord, logged_reliable hlog⟩

end

end Session

end ThreadCore
