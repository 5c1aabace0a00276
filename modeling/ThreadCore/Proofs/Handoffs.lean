import ThreadCore.Proofs.FamilyCalls
import ThreadCore.Proofs.Audits
import ThreadCore.Proofs.Inheritance

/-!
# Units are handed over

What happens to the semaphores that callers have at hand, over a run. Every transition leaves them
alone but for what its call says (`Session.Shifts`). So the units that a semaphore began with and
those that were brought are the ones that are left and the ones that were granted
(`Session.Conserved`), and a unit that was brought while threads waited is granted at once: to the
most urgent of them, which nobody can forestall (`Session.logged_handsOver`).
-/

namespace ThreadCore

open Relation

variable {log : List Entry} {s s' : Session} {d : Deed} {e : Entry} {i j : Nat} {x : Semaphore}
  {o : Option Semaphore} {t : ThreadId}

namespace Session

/-! ## Semaphores at hand -/

/-- The semaphore that handle `i` is of, unless it was destroyed. -/
def semaphoreAt (s : Session) (i : Nat) : Option Semaphore :=
  s.semaphores[i]?.bind fun id => s.core.objects.semaphores[id]?

/-- The threads that wait for a unit of it, in the order in which they came. -/
def waitersAt (s : Session) (i : Nat) : List ThreadId :=
  (s.semaphoreAt i).elim [] fun x => x.waiters.entries

theorem waitersAt_of_some (h : s.semaphoreAt i = some x) : s.waitersAt i = x.waiters.entries := by
  rw [waitersAt, h]
  rfl

theorem waitersAt_congr (h : s'.semaphoreAt i = s.semaphoreAt i) :
    s'.waitersAt i = s.waitersAt i := by
  rw [waitersAt, h, waitersAt]

/-- Waiters of a semaphore at hand are in the queue of a semaphore. -/
theorem exists_seat_of_mem (h : t ∈ s.waitersAt i) :
    ∃ id, t ∈ s.core.seating.queue (.semaphore id) := by
  cases hx : s.semaphoreAt i with
  | none =>
    rw [waitersAt, hx] at h
    cases h
  | some x =>
    rw [waitersAt_of_some hx] at h
    obtain ⟨id, -, hid⟩ := Option.bind_eq_some_iff.mp hx
    exact ⟨id, Core.queue_semaphore hid ▸ h⟩

/-- There are as many handles as before, and the one of `j` is of `o` now. -/
structure Replaces (s s' : Session) (j : Nat) (o : Option Semaphore) : Prop where
  size : s'.semaphores.size = s.semaphores.size
  at_hand : ∀ i, s'.semaphoreAt i = if i = j then o else s.semaphoreAt i

/-- The semaphores at hand are as before. -/
structure Rests (s s' : Session) : Prop where
  size : s'.semaphores.size = s.semaphores.size
  at_hand : ∀ i, s'.semaphoreAt i = s.semaphoreAt i

/-- What a transition does to the semaphores at hand. -/
def Shifts (s s' : Session) : Deed → Prop
  | .call (.newSemaphore v) _ => s'.semaphores.size = s.semaphores.size + 1 ∧
      ∀ i, s'.semaphoreAt i = if i = s.semaphores.size then some ⟨v, .empty⟩ else s.semaphoreAt i
  | .call (.down j) (.done _) => ∃ x, s.semaphoreAt j = some x ∧
      (0 < x.value → s'.core.current = s.core.current) ∧
      s.Replaces s' j (some (x.taken s.core.current))
  | .call (.tryDown j) (.done _) => ∃ x, s.semaphoreAt j = some x ∧ 0 < x.value ∧
      s.Replaces s' j (some { x with value := x.value - 1 })
  | .call (.up j) (.done _) => ∃ x r, s.semaphoreAt j = some x ∧
      x.waiters.foremost s.core.outranks = r ∧ s.Replaces s' j (some (x.given r)) ∧
      ∀ t, r = some t → s'.core.Awake t
  | .call (.destroySemaphore j) (.done _) => ∃ x, s.semaphoreAt j = some x ∧
      x.waiters.entries = [] ∧ s.Replaces s' j none
  | _ => s.Rests s'

/-! ## Calls -/

section Calls

variable {office : ObjectId → Option Core.Office} {c : Call} {a : Answer} {k : Core} {id : ObjectId}

theorem Rests.refl (s : Session) : s.Rests s := ⟨rfl, fun _ => rfl⟩

theorem rests_of_semaphores (hp : s'.semaphores = s.semaphores)
    (hs : s'.core.objects.semaphores = s.core.objects.semaphores) : s.Rests s' :=
  ⟨by rw [hp], fun i => by simp only [semaphoreAt, hp, hs]⟩

theorem rests_of_grown (h : Grown s.core s'.core) (hp : s'.semaphores = s.semaphores) :
    s.Rests s' := by
  obtain ⟨n, -, hk⟩ := h
  exact rests_of_semaphores hp (congrArg Kin.semaphores hk)

theorem rests_of_estate (h : Same Core.estate s s') : s.Rests s' :=
  rests_of_grown ⟨_, le_rfl, congrArg Estate.kin h.1⟩ h.2

/-- What leaves the semaphores for callers alone leaves those at hand alone. -/
theorem Discreet.rests (hs : s.Discreet office) (h : s.core.SameAtHand office k) :
    s.Rests { s with core := k } := by
  refine ⟨rfl, fun i => ?_⟩
  simp only [semaphoreAt]
  cases hid : s.semaphores[i]? with
  | none => rfl
  | some id => exact h id (hs.handles i id hid)

theorem Discreet.replaces (hs : s.Discreet office) (hid : s.semaphores[j]? = some id)
    (h : s.core.SetsSemaphore k id o) : s.Replaces { s with core := k } j o := by
  refine ⟨rfl, fun i => ?_⟩
  simp only [semaphoreAt]
  split
  · rename_i hij
    rw [hij, hid, Option.bind_some, h.semaphores, if_pos rfl]
  · rename_i hij
    cases hi : s.semaphores[i]? with
    | none => rfl
    | some id' =>
      rw [Option.bind_some, Option.bind_some, h.semaphores, if_neg]
      rintro rfl
      exact hij (hs.distinct i j _ hi hid)

theorem semaphoreAt_eq (hid : s.semaphores[i]? = some id) :
    s.semaphoreAt i = s.core.objects.semaphores[id]? := by
  rw [semaphoreAt, hid, Option.bind_some]

/-- A call that is not about semaphores or families leaves the semaphores at hand alone. -/
theorem shifts_of_aside (hc : usesKin c = false) (h : s.Rests s') : s.Shifts s' (.call c a) := by
  cases c <;> first | exact h | cases hc

/-- So does one on a semaphore that is not at hand. -/
theorem shifts_of_looks (hc : usesKin c = true) (h : s.Looks c a) : s.Shifts s (.call c a) := by
  cases h with
  | misused h => cases c <;> first | exact .refl s | exact h.elim
  | _ => cases hc

/-- **Calls on semaphores.** A call does to the semaphores at hand what it says it does, and nothing
else. -/
theorem execute_shifts (hK : s.core.kinship.Sound) (hs : s.Discreet office)
    (h : execute c s = .ok a s') : s.Shifts s' (.call c a) := by
  by_cases hu : usesKin c = true
  swap
  · rw [Bool.not_eq_true] at hu
    obtain ⟨hgrown, hp⟩ := execute_kin hu h
    exact shifts_of_aside hu (rests_of_grown hgrown hp)
  obtain ⟨hl, rfl⟩ | ⟨α, e, r, k, hp, hx, rfl, rfl⟩ := execute_ok h
  · exact shifts_of_looks hu hl
  cases hp with
  | create _ _ | spawn _ _ _ =>
    rcases Core.spawn_kinship hs.assigned hx with ⟨-, -, hk⟩ | ⟨-, -, -, -, -, -, hh, -⟩
    · exact hs.rests (.of_kin hk)
    · exact hs.rests hh
  | exit => exact hs.rests (Core.exit_kinship hs.assigned hK hx).2.1
  | newSemaphore value =>
    obtain ⟨-, -, -, hnew, hlt, hkeep⟩ := hs.assigned.newSemaphore hx (some .caller)
    refine ⟨Array.size_push _, fun i => ?_⟩
    simp only [semaphoreAt, Array.getElem?_push]
    split
    · exact hnew
    · cases hi : s.semaphores[i]? with
      | none => rfl
      | some id' =>
        have hle := hs.assigned.issued id' (by simp [hs.handles i id' hi])
        exact hkeep id' (hle.trans_lt hlt).ne
  | down hid =>
    obtain ⟨th, x, hr, hx, hset, hseat⟩ := Core.down_sets hx
    rw [(hs.assigned.running_id hr).1] at hset
    exact ⟨x, (semaphoreAt_eq hid).trans hx, fun hv => congrArg Seating.current (hseat hv),
      hs.replaces hid hset⟩
  | tryDown hid =>
    obtain ⟨x, hx', ⟨hv, rfl, hset⟩ | ⟨-, rfl, hk⟩⟩ := Core.tryDown_sets hx
    · exact ⟨x, (semaphoreAt_eq hid).trans hx', hv, hs.replaces hid hset⟩
    · exact hs.rests (.of_kin hk)
  | up hid =>
    obtain ⟨x, w, hx, hw, hset, hawake⟩ := Core.up_sets hx
    exact ⟨x, w, (semaphoreAt_eq hid).trans hx, hw, hs.replaces hid hset, hawake⟩
  | destroySemaphore hid =>
    rcases Core.destroySemaphore_sets hx with ⟨rfl, rfl⟩ | ⟨rfl, hset, x, hx, hnone⟩
    · exact .refl _
    · exact ⟨x, (semaphoreAt_eq hid).trans hx, hnone, hs.replaces hid hset⟩
  | setExitStatus _ =>
    obtain ⟨th, -, hx⟩ := Core.ask_bind_eq_ok.mp hx
    obtain ⟨-, rfl⟩ := Core.changeFamily_eq_ok.mp hx
    exact hs.rests (.mapFamily s.core th.id _)
  | reportFork =>
    rcases Core.reportFork_kinship hs.assigned hx with
        ⟨-, -, rfl⟩ | ⟨-, -, -, -, -, -, -, -, -, hh, -⟩
    · exact .refl _
    · exact hs.rests hh
  | awaitFork _ =>
    rcases Core.awaitFork_kinship hs.assigned hx with ⟨-, -, rfl⟩ | ⟨-, -, -, -, hh, -⟩
    · exact .refl _
    · exact hs.rests hh
  | awaitExit _ =>
    rcases Core.awaitExit_kinship hs.assigned hx with ⟨-, -, rfl⟩ | ⟨-, -, -, -, -, hh, -⟩ |
      ⟨-, -, -, -, -, -, hh, -⟩
    · exact .refl _
    · exact hs.rests hh
    · exact hs.rests hh
  | tryCollect _ =>
    obtain ⟨th, -, hx⟩ := Core.ask_bind_eq_ok.mp hx
    rcases Core.collect_kinship hs.assigned hx with ⟨-, -, rfl⟩ | ⟨-, -, rfl⟩ |
      ⟨-, -, -, -, -, -, hh, -⟩
    · exact .refl _
    · exact .refl _
    · exact hs.rests hh
  | ask ha => cases ha <;> cases hu
  | _ => cases hu

theorem leads_shifts (hs : s.Kindred) (h : Leads s d s') : s.Shifts s' d := by
  obtain ⟨hK, office, hd⟩ := hs
  cases h with
  | call he => exact execute_shifts hK hd he
  | enter he => exact rests_of_estate (enterHandler_estate he)
  | leave he => exact rests_of_estate (leaveHandler_estate he)

end Calls

end Session

/-! ## Units in a log -/

/-- The value of the semaphore that the transition creates. -/
def Deed.makes : Deed → Option Nat
  | .call (.newSemaphore v) _ => some v
  | _ => none

/-- Whether the transition brings a unit to the semaphore at `i`. -/
def Deed.brings (i : Nat) : Deed → Bool
  | .call (.up j) (.done _) => j = i
  | _ => false

/-- How many units of the semaphore at `i` the transition grants: one to a caller that takes it and
goes on, or one to each waiter that it wakes. -/
def Entry.grants (i : Nat) (e : Entry) : Nat :=
  match e.deed with
  | .call (.down j) (.done _) => if j = i ∧ e.after.core.current = e.caller then 1 else 0
  | .call (.tryDown j) (.done _) => if j = i then 1 else 0
  | .call (.up j) (.done _) =>
      if j = i then (e.before.waitersAt i).length - (e.after.waitersAt i).length else 0
  | _ => 0

/-- The values that the semaphores at hand were created with. -/
def initialValues : List Entry → List Nat
  | [] => []
  | e :: log => initialValues log ++ e.deed.makes.toList

/-- How many units were brought to the semaphore at `i`. -/
def unitsBrought (log : List Entry) (i : Nat) : Nat := log.countP fun e => e.deed.brings i

/-- How many units of it were granted. -/
def unitsGranted (log : List Entry) (i : Nat) : Nat := (log.map (Entry.grants i)).sum

theorem unitsBrought_cons (e : Entry) (log : List Entry) (i : Nat) :
    unitsBrought (e :: log) i = unitsBrought log i + if e.deed.brings i = true then 1 else 0 :=
  List.countP_cons

theorem unitsGranted_cons (e : Entry) (log : List Entry) (i : Nat) :
    unitsGranted (e :: log) i = unitsGranted log i + e.grants i := by
  rw [unitsGranted, List.map_cons, List.sum_cons, Nat.add_comm]
  rfl

theorem initialValues_cons_of (h : d.makes = none) :
    initialValues (⟨s, d, s'⟩ :: log) = initialValues log := by
  rw [initialValues, h]
  exact List.append_nil _

theorem unitsBrought_cons_of (h : d.brings i = false) :
    unitsBrought (⟨s, d, s'⟩ :: log) i = unitsBrought log i := by
  rw [unitsBrought_cons, if_neg (by simp [h]), Nat.add_zero]

theorem unitsGranted_cons_of (h : Entry.grants i ⟨s, d, s'⟩ = 0) :
    unitsGranted (⟨s, d, s'⟩ :: log) i = unitsGranted log i := by
  rw [unitsGranted_cons, h, Nat.add_zero]

theorem unitsBrought_append (later log : List Entry) (i : Nat) :
    unitsBrought (later ++ log) i = unitsBrought later i + unitsBrought log i :=
  List.countP_append

theorem unitsGranted_append (later log : List Entry) (i : Nat) :
    unitsGranted (later ++ log) i = unitsGranted later i + unitsGranted log i := by
  rw [unitsGranted, List.map_append, List.sum_append]
  rfl

/-- Later semaphores do not change the earlier ones' places. -/
theorem initialValues_append (later log : List Entry) :
    ∃ vs, initialValues (later ++ log) = initialValues log ++ vs := by
  induction later with
  | nil => exact ⟨[], (List.append_nil _).symm⟩
  | cons e later ih =>
    obtain ⟨vs, h⟩ := ih
    exact ⟨vs ++ e.deed.makes.toList, by rw [List.cons_append, initialValues, h, List.append_assoc]⟩

/-- The units that a semaphore at hand began with and those that were brought are the ones that are
left and the ones that were granted. While units are left, nobody waits. -/
structure Conserved (log : List Entry) (s : Session) : Prop where
  made : (initialValues log).length = s.semaphores.size
  untouched : ∀ i, s.semaphores.size ≤ i → unitsBrought log i = 0 ∧ unitsGranted log i = 0
  balance : ∀ i v x, (initialValues log)[i]? = some v → s.semaphoreAt i = some x →
    v + unitsBrought log i = x.value + unitsGranted log i
  patient : ∀ i x, s.semaphoreAt i = some x → 0 < x.value → x.waiters.entries = []

namespace Session

theorem lt_size_of_semaphoreAt (h : s.semaphoreAt i = some x) : i < s.semaphores.size := by
  obtain ⟨id, hid, -⟩ := Option.bind_eq_some_iff.mp h
  exact (Array.getElem?_eq_some_iff.mp hid).1

end Session

namespace Conserved

variable (H : Conserved log s)

include H

/-- The semaphore at `j` is changed or gone, and the change is accounted for. -/
theorem replaces (hr : s.Replaces s' j o) (hx : s.semaphoreAt j = some x) (hm : d.makes = none)
    (hother : ∀ i, i ≠ j → d.brings i = false ∧ Entry.grants i ⟨s, d, s'⟩ = 0)
    (hself : ∀ x', o = some x' → x.value + (if d.brings j = true then 1 else 0) =
      x'.value + Entry.grants j ⟨s, d, s'⟩)
    (hpatient : ∀ x', o = some x' → 0 < x'.value → x'.waiters.entries = []) :
    Conserved (⟨s, d, s'⟩ :: log) s' := by
  refine ⟨by
    rw [initialValues_cons_of hm, H.made, hr.size], fun i hi => ?_, fun i v x' hv hx' => ?_,
    fun i x' hx' => ?_⟩
  · rw [hr.size] at hi
    obtain ⟨hb, hg⟩ := hother i ((Session.lt_size_of_semaphoreAt hx).trans_le hi).ne'
    rw [unitsBrought_cons_of hb, unitsGranted_cons_of hg]
    exact H.untouched i hi
  · rw [initialValues_cons_of hm] at hv
    rw [hr.at_hand] at hx'
    split at hx'
    · rename_i hij
      subst hij
      have h₁ := H.balance i v x hv hx
      have h₂ := hself x' hx'
      rw [unitsBrought_cons, unitsGranted_cons]
      show _ + (_ + if d.brings i = true then 1 else 0) = _
      omega
    · rename_i hij
      obtain ⟨hb, hg⟩ := hother i hij
      rw [unitsBrought_cons_of hb, unitsGranted_cons_of hg]
      exact H.balance i v x' hv hx'
  · rw [hr.at_hand] at hx'
    split at hx'
    · exact hpatient x' hx'
    · exact H.patient i x' hx'

/-- Nothing happens to the semaphores at hand. -/
theorem rests (hr : s.Rests s') (hm : d.makes = none)
    (hnone : ∀ i, d.brings i = false ∧ Entry.grants i ⟨s, d, s'⟩ = 0) :
    Conserved (⟨s, d, s'⟩ :: log) s' := by
  refine ⟨by rw [initialValues_cons_of hm, H.made, hr.size], fun i hi => ?_, fun i v x hv hx => ?_,
    fun i x hx => ?_⟩
  · rw [unitsBrought_cons_of (hnone i).1, unitsGranted_cons_of (hnone i).2]
    exact H.untouched i (hr.size ▸ hi)
  · rw [initialValues_cons_of hm] at hv
    rw [hr.at_hand] at hx
    rw [unitsBrought_cons_of (hnone i).1, unitsGranted_cons_of (hnone i).2]
    exact H.balance i v x hv hx
  · rw [hr.at_hand] at hx
    exact H.patient i x hx

/-- A semaphore is created. -/
theorem makes {v : Nat} {a : Answer} (hsize : s'.semaphores.size = s.semaphores.size + 1)
    (hat : ∀ i, s'.semaphoreAt i = if i = s.semaphores.size then some ⟨v, .empty⟩
      else s.semaphoreAt i) :
    Conserved (⟨s, .call (.newSemaphore v) a, s'⟩ :: log) s' := by
  have hvalues : initialValues (⟨s, .call (.newSemaphore v) a, s'⟩ :: log) =
      initialValues log ++ [v] := rfl
  refine ⟨by rw [hvalues, List.length_append, H.made, hsize]; rfl, fun i hi => ?_,
    fun i w x hw hx => ?_, fun i x hx => ?_⟩
  · rw [unitsBrought_cons_of rfl, unitsGranted_cons_of rfl]
    exact H.untouched i (by omega)
  · rw [hvalues] at hw
    rw [hat] at hx
    rw [unitsBrought_cons_of rfl, unitsGranted_cons_of rfl]
    split at hx
    · rename_i hi
      cases hx
      rw [hi, ← H.made, List.getElem?_concat_length, Option.some.injEq] at hw
      obtain ⟨hb, hg⟩ := H.untouched i hi.ge
      rw [hb, hg, hw]
    · have hlt : i < (initialValues log).length := H.made ▸ Session.lt_size_of_semaphoreAt hx
      rw [List.getElem?_append_left hlt] at hw
      exact H.balance i w x hw hx
  · rw [hat] at hx
    split at hx
    · cases hx
      exact fun _ => rfl
    · exact H.patient i x hx

/-- Every transition conserves the units, if a thread that is in a queue afterwards does not run. -/
theorem step (h : s.Shifts s' d) (hseat : ∀ i, s'.core.current ∉ s'.waitersAt i) :
    Conserved (⟨s, d, s'⟩ :: log) s' := by
  unfold Session.Shifts at h
  split at h
  · exact H.makes h.1 h.2
  · -- A unit is taken, or the caller lines up and another thread runs.
    rename_i j r
    obtain ⟨x, hx, hgoes, hr⟩ := h
    have hgrants : ∀ i, Entry.grants i ⟨s, .call (.down j) (.done r), s'⟩ =
        if j = i ∧ s'.core.current = s.core.current then 1 else 0 := fun i => rfl
    refine H.replaces hr hx rfl (fun i hi => ⟨rfl, if_neg fun he => hi he.1.symm⟩) ?_ ?_
    · rintro x' hx'
      obtain rfl := Option.some.inj hx'
      rw [hgrants]
      show x.value + 0 = _
      by_cases hv : 0 < x.value
      · rw [if_pos ⟨rfl, hgoes hv⟩, Semaphore.taken_of_pos hv]
        show x.value + 0 = x.value - 1 + 1
        omega
      · have hat := (hr.at_hand j).trans (if_pos rfl)
        rw [Semaphore.taken_of_zero (by omega)] at hat ⊢
        rw [if_neg]
        rintro ⟨-, hc⟩
        refine hseat j ?_
        rw [Session.waitersAt_of_some hat, hc]
        exact List.mem_append_right _ (List.mem_singleton_self _)
    · rintro x' hx' hv'
      obtain rfl := Option.some.inj hx'
      by_cases hv : 0 < x.value
      · rw [Semaphore.taken_of_pos hv]
        exact H.patient j x hx hv
      · rw [Semaphore.taken_of_zero (by omega)] at hv'
        exact absurd hv' hv
  · rename_i j r
    obtain ⟨x, hx, hv, hr⟩ := h
    refine H.replaces hr hx rfl (fun i hi => ⟨rfl, if_neg fun he => hi he.symm⟩) ?_ ?_
    · rintro x' hx'
      obtain rfl := Option.some.inj hx'
      show x.value + 0 = x.value - 1 + if j = j then 1 else 0
      rw [if_pos rfl]
      omega
    · rintro x' hx' -
      obtain rfl := Option.some.inj hx'
      exact H.patient j x hx hv
  · -- A unit is brought, for the count or for a waiter.
    rename_i j r
    obtain ⟨x, w, hx, hw, hr, -⟩ := h
    have hat := (hr.at_hand j).trans (if_pos rfl)
    have hgrants : Entry.grants j ⟨s, .call (.up j) (.done r), s'⟩ =
        x.waiters.entries.length - (x.given w).waiters.entries.length := by
      rw [← Session.waitersAt_of_some hx, ← Session.waitersAt_of_some hat]
      exact if_pos rfl
    refine H.replaces hr hx rfl
      (fun i hi => ⟨decide_eq_false (Ne.symm hi), if_neg fun he => hi he.symm⟩) ?_ ?_
    · rintro x' hx'
      obtain rfl := Option.some.inj hx'
      rw [hgrants]
      show x.value + (if decide (j = j) = true then 1 else 0) = _
      rw [if_pos (decide_eq_true rfl)]
      cases w with
      | none =>
        show x.value + 1 = x.value + 1 + (x.waiters.entries.length - x.waiters.entries.length)
        omega
      | some t =>
        have ht : t ∈ x.waiters.entries := Queue.mem_of_foremostOf hw
        have hlen := List.length_erase_of_mem ht
        have hpos := List.length_pos_of_mem ht
        show x.value + 1 = x.value + (x.waiters.entries.length - (x.waiters.entries.erase t).length)
        omega
    · rintro x' hx' hv
      obtain rfl := Option.some.inj hx'
      cases w with
      | none => exact Queue.foremostOf_eq_none_iff.mp hw
      | some t =>
        have ht : t ∈ x.waiters.entries := Queue.mem_of_foremostOf hw
        rw [H.patient j x hx hv] at ht
        cases ht
  · rename_i j r
    obtain ⟨x, hx, -, hr⟩ := h
    exact H.replaces hr hx rfl (fun i _ => ⟨rfl, rfl⟩) nofun nofun
  · rename_i hnew hdown htry hup _
    refine H.rests h ?_ fun i => ⟨?_, ?_⟩
    · unfold Deed.makes
      split
      · exact (hnew _ _ rfl).elim
      · rfl
    · unfold Deed.brings
      split
      · exact (hup _ _ rfl).elim
      · rfl
    · unfold Entry.grants
      split
      · exact (hdown _ _ ‹_›).elim
      · exact (htry _ _ ‹_›).elim
      · exact (hup _ _ ‹_›).elim
      · rfl

end Conserved

namespace Session

variable {frames : List Bool}

/-! ## Runs -/

/-- What a transition does to the waiters of a semaphore at hand: its caller comes last, or the
earliest of the most urgent waiters is woken. -/
theorem Shifts.waitersAt (h : s.Shifts s' d) (i : Nat) :
    s'.waitersAt i = s.waitersAt i ∨
    (∃ r, d = .call (.down i) (.done r) ∧ s'.waitersAt i = s.waitersAt i ++ [s.core.current]) ∨
    ∃ r t earlier later, d = .call (.up i) (.done r) ∧ s.waitersAt i = earlier ++ t :: later ∧
      s'.waitersAt i = earlier ++ later ∧
      (∀ u ∈ earlier, s.core.priorityOf u < s.core.priorityOf t) ∧
      (∀ u ∈ later, s.core.priorityOf u ≤ s.core.priorityOf t) ∧ s'.core.Awake t ∧
      ∃ x, s.semaphoreAt i = some x ∧ s'.semaphoreAt i = some (x.given (some t)) := by
  -- A semaphore with the same waiters takes the place of the one at `j`.
  have hsame : ∀ {j : Nat} {x x' : Semaphore}, s.semaphoreAt j = some x →
      s.Replaces s' j (some x') → x'.waiters.entries = x.waiters.entries →
      s'.waitersAt i = s.waitersAt i := by
    intro j x x' hx hr he
    by_cases hij : i = j
    · subst hij
      rw [waitersAt_of_some ((hr.at_hand i).trans (if_pos rfl)), waitersAt_of_some hx, he]
    · exact waitersAt_congr ((hr.at_hand i).trans (if_neg hij))
  unfold Shifts at h
  split at h
  · obtain ⟨hsize, hat⟩ := h
    left
    by_cases hi : i = s.semaphores.size
    · rw [waitersAt_of_some ((hat i).trans (if_pos hi))]
      have hnone : s.semaphoreAt i = none := by
        rw [semaphoreAt, Array.getElem?_eq_none hi.ge]
        rfl
      rw [Session.waitersAt, hnone]
      rfl
    · exact waitersAt_congr ((hat i).trans (if_neg hi))
  · rename_i j r
    obtain ⟨x, hx, -, hr⟩ := h
    by_cases hv : 0 < x.value
    · rw [Semaphore.taken_of_pos hv] at hr
      exact .inl (hsame hx hr rfl)
    · rw [Semaphore.taken_of_zero (by omega)] at hr
      by_cases hij : i = j
      · subst hij
        refine .inr (.inl ⟨r, rfl, ?_⟩)
        rw [waitersAt_of_some ((hr.at_hand i).trans (if_pos rfl)), waitersAt_of_some hx]
      · exact .inl (waitersAt_congr ((hr.at_hand i).trans (if_neg hij)))
  · obtain ⟨x, hx, -, hr⟩ := h
    exact .inl (hsame hx hr rfl)
  · rename_i j r
    obtain ⟨x, w, hx, hw, hr, hawake⟩ := h
    cases w with
    | none => exact .inl (hsame hx hr rfl)
    | some t =>
      by_cases hij : i = j
      · subst hij
        obtain ⟨earlier, later, he, hearlier, hlater⟩ := Queue.foremostOf_eq_some hw
        have hat := (hr.at_hand i).trans (if_pos rfl)
        refine .inr (.inr ⟨r, t, earlier, later, rfl, (waitersAt_of_some hx).trans he, ?_, hearlier,
          hlater, hawake t rfl, x, hx, hat⟩)
        have ht : t ∉ earlier := fun h => lt_irrefl _ (hearlier t h)
        rw [waitersAt_of_some hat]
        show x.waiters.entries.erase t = _
        rw [he, List.erase_append_right _ ht, List.erase_cons_head]
      · exact .inl (waitersAt_congr ((hr.at_hand i).trans (if_neg hij)))
  · rename_i j r
    obtain ⟨x, hx, he, hr⟩ := h
    left
    by_cases hij : i = j
    · subst hij
      rw [Session.waitersAt, hr.at_hand, if_pos rfl, waitersAt_of_some hx, he]
      rfl
    · exact waitersAt_congr ((hr.at_hand i).trans (if_neg hij))
  · exact .inl (waitersAt_congr (h.at_hand i))

/-- Around each transition of a run are states of the run. -/
theorem Logged.of_append {allowed : List Entry → Session → Call → Prop} {later earlier : List Entry}
    (h : Logged allowed (later ++ e :: earlier) frames s) :
    ∃ frames₁ frames₂, Logged allowed earlier frames₁ e.before ∧ Leads e.before e.deed e.after ∧
      Logged allowed (e :: earlier) frames₂ e.after := by
  induction later generalizing frames s with
  | nil =>
    cases h with
    | call h ha he => exact ⟨_, _, h, .call he, h.call ha he⟩
    | enter h he => exact ⟨_, _, h, .enter he, h.enter he⟩
    | leave h he => exact ⟨_, _, h, .leave he, h.leave he⟩
  | cons e' later ih =>
    cases h with
    | call h _ _ => exact ih h
    | enter h _ => exact ih h
    | leave h _ => exact ih h

/-- Each call of a run was allowed when it was made. -/
theorem Logged.allowed_of_cons {allowed : List Entry → Session → Call → Prop} {c : Call}
    {a : Answer} (h : Logged allowed (e :: log) frames s) (hd : e.deed = .call c a) :
    allowed log e.before c := by
  cases h with
  | call _ ha _ =>
    cases hd
    exact ha
  | enter _ _ => cases hd
  | leave _ _ => cases hd

section Disciplined

variable (h : Logged (fun _ => Disciplined) log frames s)

include h

theorem Logged.disciplined : s.core.InOrder true :=
  Reached.inOrder (h.reached fun _ _ _ hd => hd)

/-- Whoever waits at a semaphore at hand does not run. -/
theorem Logged.current_not_mem_waitersAt (i : Nat) : s.core.current ∉ s.waitersAt i := by
  intro hmem
  obtain ⟨id, hseat⟩ := exists_seat_of_mem hmem
  exact h.disciplined.ne_current_of_mem rfl hseat rfl

/-- Units are conserved in every state of a disciplined run. -/
theorem Logged.conserved : Conserved log s := by
  induction h with
  | boot hb hk =>
    refine ⟨rfl, fun _ _ => ⟨rfl, rfl⟩, fun i v x hv => ?_, fun i x hx => ?_⟩
    · cases hv
    · cases hx
  | call h ha he ih =>
    exact ih.step (leads_shifts h.kindred (.call he)) (h.call ha he).current_not_mem_waitersAt
  | enter h he ih =>
    exact ih.step (leads_shifts h.kindred (.enter he)) (h.enter he).current_not_mem_waitersAt
  | leave h he ih =>
    exact ih.step (leads_shifts h.kindred (.leave he)) (h.leave he).current_not_mem_waitersAt

/-- Whoever waits at a semaphore at hand is blocked, and as urgent as the most urgent thread that
waits for it. -/
theorem Logged.waiting (ht : t ∈ s.waitersAt i) : s.core.seating.state t = some .blocked ∧
    IsGreatest {p | ∃ u th, ReflTransGen s.core.Awaits u t ∧ s.core.threads[u]? = some th ∧
      th.base = p} (s.core.priorityOf t) := by
  obtain ⟨id, hseat⟩ := exists_seat_of_mem ht
  have hk := h.disciplined
  obtain ⟨th, hth, hs⟩ := hk.state_of_mem rfl hseat
  refine ⟨(Core.state_eq hth).trans (congrArg some hs), ?_⟩
  rw [show s.core.priorityOf t = th.priority by rw [Core.priorityOf, hth]]
  exact hk.isGreatest_priority hth

/-- After a waiter was woken, no units are granted but those that were brought since. -/
theorem Logged.conserved_since {later earlier : List Entry} (hlog : log = later ++ e :: earlier)
    (hw : (e.after.waitersAt i).length < (e.before.waitersAt i).length)
    (hx : s.semaphoreAt i = some x) :
    x.value + unitsGranted later i = unitsBrought later i := by
  subst hlog
  obtain ⟨_, _, hbefore, hd, hafter⟩ := h.of_append
  rcases (leads_shifts hbefore.kindred hd).waitersAt i with hsame | ⟨r, -, hjoin⟩ |
    ⟨_, t, _, _, -, he, -, -, -, -, y, hy, hy'⟩
  · rw [hsame] at hw
    exact absurd hw (lt_irrefl _)
  · rw [hjoin, List.length_append] at hw
    omega
  -- When the waiter was woken there were no units.
  have hzero : y.value = 0 := by
    by_contra hv
    rw [waitersAt_of_some hy, hbefore.conserved.patient i y hy (Nat.pos_of_ne_zero hv)] at he
    simp at he
  have hlt : i < (initialValues (e :: earlier)).length :=
    hafter.conserved.made ▸ lt_size_of_semaphoreAt hy'
  obtain ⟨vs, hvs⟩ := initialValues_append later (e :: earlier)
  have hv := List.getElem?_eq_getElem hlt
  have h₁ := hafter.conserved.balance i _ _ hv hy'
  have h₂ := h.conserved.balance i _ x (by rw [hvs, List.getElem?_append_left hlt, hv]) hx
  rw [unitsBrought_append, unitsGranted_append] at h₂
  have hgiven : (y.given (some t)).value = y.value := rfl
  omega

end Disciplined

/-- **Units are handed over.** In every state of a disciplined run:

* a semaphore's first value and the units brought to it are its value and the units granted, and
  nobody waits while it has units;
* whoever waits at it is blocked, and as urgent as the most urgent thread that waits for it in turn;
* the waiters change only by a caller who lines up and by units that are brought: each wakes the
  earliest of the most urgent waiters;
* once it has woken a waiter, no units are granted but those that were brought since. -/
theorem logged_handsOver (h : Logged (fun _ => Disciplined) log frames s) :
    (∀ i v x, (initialValues log)[i]? = some v → s.semaphoreAt i = some x →
      v + unitsBrought log i = x.value + unitsGranted log i ∧
        (0 < x.value → s.waitersAt i = [])) ∧
    (∀ i, ∀ t ∈ s.waitersAt i, s.core.seating.state t = some .blocked ∧
      IsGreatest {p | ∃ u th, ReflTransGen s.core.Awaits u t ∧ s.core.threads[u]? = some th ∧
        th.base = p} (s.core.priorityOf t)) ∧
    (∀ e ∈ log, ∀ i, e.after.waitersAt i = e.before.waitersAt i ∨
      (∃ r, e.deed = .call (.down i) (.done r) ∧
        e.after.waitersAt i = e.before.waitersAt i ++ [e.caller]) ∨
      ∃ r t earlier later, e.deed = .call (.up i) (.done r) ∧
        e.before.waitersAt i = earlier ++ t :: later ∧ e.after.waitersAt i = earlier ++ later ∧
        (∀ u ∈ earlier, e.before.core.priorityOf u < e.before.core.priorityOf t) ∧
        (∀ u ∈ later, e.before.core.priorityOf u ≤ e.before.core.priorityOf t) ∧
        e.after.core.Awake t) ∧
    ∀ later e earlier i x, log = later ++ e :: earlier →
      (e.after.waitersAt i).length < (e.before.waitersAt i).length → s.semaphoreAt i = some x →
      x.value + unitsGranted later i = unitsBrought later i := by
  refine ⟨fun i v x hv hx => ⟨h.conserved.balance i v x hv hx, fun hpos => ?_⟩,
    fun i t ht => h.waiting ht, fun e he i => ?_,
    fun later e earlier i x hlog hw hx => h.conserved_since hlog hw hx⟩
  · rw [waitersAt_of_some hx]
    exact h.conserved.patient i x hx hpos
  · obtain ⟨later, earlier, rfl⟩ := List.append_of_mem he
    obtain ⟨_, _, hbefore, hd, -⟩ := h.of_append
    rcases (leads_shifts hbefore.kindred hd).waitersAt i with hsame | hjoin |
      ⟨r, t, earlier, later, hup, hb, ha, hearlier, hlater, hawake, -⟩
    · exact .inl hsame
    · exact .inr (.inl hjoin)
    · exact .inr (.inr ⟨r, t, earlier, later, hup, hb, ha, hearlier, hlater, hawake⟩)

/-- Thread 4 comes to wait after thread 3, which has the greater base priority, and holds a lock
that an urgent thread waits for: the unit goes to thread 4, and none is left. -/
theorem logged_handsOver_donated : ∃ e log s x, Logged (fun _ => Disciplined) (e :: log) [] s ∧
    e.before.waitersAt 0 = [3, 4] ∧ s.waitersAt 0 = [3] ∧ s.core.current = 4 ∧
    s.semaphoreAt 0 = some x ∧ unitsBrought (e :: log) 0 = 1 ∧ unitsGranted (e :: log) 0 = 1 ∧
    x.value = 0 ∧ s.core.seating.state 3 = some .blocked := by
  have hrun : (replayFrom (fun _ => isPlain) ⟨none, none, none, false, none⟩
      [.newLock, .newSemaphore 0, .create "early" 35, .down 0, .create "late" 33, .acquire 0,
        .down 0, .create "urgent" 40, .acquire 0, .up 0]).any (fun r =>
        (r.1.head?.any fun e => e.before.waitersAt 0 = [3, 4]) = true ∧
        (r.2.waitersAt 0 = [3] ∧ r.2.core.current = 4 ∧ (r.2.semaphoreAt 0).isSome = true) ∧
        initialValues r.1 = [0] ∧ unitsBrought r.1 0 = 1 ∧ unitsGranted r.1 0 = 1) = true := by
    decide +kernel
  obtain ⟨⟨log, s⟩, hs, hrun⟩ := (Option.any_eq_true _ _).mp hrun
  obtain ⟨hhead, ⟨hwaiters, hcurrent, hx⟩, hvalues, hbrought, hgranted⟩ := of_decide_eq_true hrun
  obtain ⟨x, hx⟩ := Option.isSome_iff_exists.mp hx
  obtain ⟨e, he, hbefore⟩ := (Option.any_eq_true _ _).mp hhead
  obtain ⟨log, rfl⟩ := List.head?_eq_some_iff.mp he
  have hlog : Logged (fun _ => Disciplined) (e :: log) [] s :=
    logged_replayFrom (fun _ _ _ hc => .plain (isPlain_iff.mp hc).1 (isPlain_iff.mp hc).2) hs
  obtain ⟨hbalance, hblocked, -⟩ := logged_handsOver hlog
  have hb := (hbalance 0 0 x (by rw [hvalues]; rfl) hx).1
  rw [hbrought, hgranted] at hb
  refine ⟨e, log, s, x, hlog, of_decide_eq_true hbefore, hwaiters, hcurrent, hx, hbrought, hgranted,
    by omega, (hblocked 0 3 ?_).1⟩
  rw [hwaiters]
  exact List.mem_singleton_self _

end Session

end ThreadCore
