import ThreadCore.Proofs.Units

/-!
# Parents, children and their semaphores

What a call does to the families. `Core.kinship` shows, for a parent and a child, the record that
the parent keeps together with the states of its two semaphores, and who is whose parent. The
numbers of the semaphores are left out: every semaphore of a record has an office of its own
(`Core.Assigned`), so none is in two records and none is at hand for callers.

Here is how the view follows the changes of semaphores and records, and what a transition may do to
it (`Kinship.Follows`).
-/

namespace ThreadCore

/-! ## The view -/

/-- A record of a child with the states of its semaphores. -/
structure Bond where
  forked : Bool
  status : Option Int32
  fork : Semaphore
  exit : Semaphore

/-- The bond with a child that has neither reported nor exited, when nobody waits for it. -/
def Bond.fresh : Bond := ⟨false, none, ⟨0, .empty⟩, ⟨0, .empty⟩⟩

/-- Who keeps which records, who is whose parent, and the statuses that live threads will exit
with. -/
structure Kinship where
  bond : ThreadId → ThreadId → Option Bond
  parent : ThreadId → Option ThreadId
  status : ThreadId → Option Int32
  nextThread : ThreadId

namespace Kinship

/-- The bond between `p` and `c` is `o`. -/
def setBond (K : Kinship) (p c : ThreadId) (o : Option Bond) : Kinship :=
  { K with bond := fun q d => if q = p ∧ d = c then o else K.bond q d }

@[simp] theorem setBond_setBond (K : Kinship) (p c : ThreadId) (o o' : Option Bond) :
    (K.setBond p c o).setBond p c o' = K.setBond p c o' := by
  simp only [setBond, mk.injEq, and_true]
  funext q d
  split <;> rfl

@[simp] theorem setBond_bond_self (K : Kinship) (p c : ThreadId) (o : Option Bond) :
    (K.setBond p c o).bond p c = o :=
  if_pos ⟨rfl, rfl⟩

/-- The next thread is a child of `p`. -/
def addChild (K : Kinship) (p : ThreadId) : Kinship where
  bond q d := if q = p ∧ d = K.nextThread then some .fresh else K.bond q d
  parent d := if d = K.nextThread then some p else K.parent d
  status d := if d = K.nextThread then some (-1) else K.status d
  nextThread := K.nextThread + 1

def setParents (K : Kinship) (parent : ThreadId → Option ThreadId) : Kinship :=
  { K with parent := parent }

def setStatus (K : Kinship) (t : ThreadId) (v : Int32) : Kinship :=
  { K with status := Function.update K.status t (some v) }

end Kinship

/-- A semaphore gets a unit, and gives it to a waiter if there is one. -/
def Semaphore.Gives (o o' : Semaphore) : Prop :=
  ∃ r, (r = none → o.waiters.entries = []) ∧ (∀ t, r = some t → t ∈ o.waiters.entries) ∧
    o' = o.given r

theorem Semaphore.gives_given {o : Semaphore} {outranks : ThreadId → ThreadId → Bool}
    {r : Option ThreadId} (h : o.waiters.foremost outranks = r) : o.Gives (o.given r) :=
  ⟨r, fun hr => Queue.foremostOf_eq_none_iff.mp (h.trans hr),
    fun _ ht => Queue.mem_of_foremostOf (h.trans ht), rfl⟩

namespace Semaphore

variable {o o' : Semaphore} {p : ThreadId}

/-- Nobody joins the waiters when a unit comes. -/
theorem Gives.serves (h : o.Gives o') (hp : ∀ t ∈ o.waiters.entries, t = p) :
    ∀ t ∈ o'.waiters.entries, t = p := by
  obtain ⟨r, -, -, rfl⟩ := h
  cases r with
  | none => exact hp
  | some v => exact fun t ht => hp t (List.mem_of_mem_erase ht)

theorem serves_taken (o : Semaphore) (hp : ∀ t ∈ o.waiters.entries, t = p) :
    ∀ t ∈ (o.taken p).waiters.entries, t = p := by
  unfold taken
  split
  · exact hp
  · intro t ht
    rcases List.mem_append.mp ht with ht | ht
    · exact hp t ht
    · exact List.mem_singleton.mp ht

end Semaphore

/-- If anybody waits, it is `p`. -/
def Bond.Serves (b : Bond) (p : ThreadId) : Prop :=
  (∀ t ∈ b.fork.waiters.entries, t = p) ∧ ∀ t ∈ b.exit.waiters.entries, t = p

/-- Somebody waits for the exit of the child, or for its report and it has not reported. -/
def Bond.Expected (b : Bond) : Prop :=
  (b.forked = false ∧ b.fork.waiters.entries ≠ []) ∨ b.exit.waiters.entries ≠ []

/-- The bond after the child has exited with status `v`. -/
structure Bond.Closes (b : Bond) (v : Int32) (b' : Bond) : Prop where
  forked : b'.forked = true
  status : b'.status = some v
  fork : if b.forked then b'.fork = b.fork else b.fork.Gives b'.fork
  exit : b.exit.Gives b'.exit

namespace Kinship

/-- Thread `t` exits: its own records are gone, its children have no parent, and the record that its
parent keeps is closed. -/
structure Exits (K : Kinship) (t : ThreadId) (K' : Kinship) : Prop where
  live : K.status t ≠ none
  nextThread : K'.nextThread = K.nextThread
  parent : ∀ c, K'.parent c = if c = t ∨ K.parent c = some t then none else K.parent c
  status : ∀ c, c ≠ t → K'.status c = K.status c
  bond : ∀ p c, c ≠ t ∨ K.parent t ≠ some p → K'.bond p c = if p = t then none else K.bond p c
  closes : ∀ p, K.parent t = some p → ∃ v b b', K.status t = some v ∧ K.bond p t = some b ∧
    b.Closes v b' ∧ K'.bond p t = some b'

/-- What a transition in the name of `t` does to the families. -/
def Follows (K : Kinship) (t : ThreadId) (K' : Kinship) : Deed → Prop
  | .call (.create _ _) (.done (.number n)) | .call (.spawn _ _ _) (.done (.number n)) =>
      n = K.nextThread ∧ t < K.nextThread ∧ K' = K.addChild t
  | .call .exit _ => K.Exits t K'
  | .call (.setExitStatus v) _ => K.status t ≠ none ∧ K' = K.setStatus t v
  | .call .reportFork (.done _) => ∃ p b o, K.parent t = some p ∧ K.bond p t = some b ∧
      b.forked = false ∧ b.fork.Gives o ∧
        K' = K.setBond p t (some { b with forked := true, fork := o })
  | .call (.awaitFork c) (.done _) => ∃ b, K.bond t c = some b ∧
      K' = K.setBond t c (some { b with fork := b.fork.taken t })
  | .call (.awaitExit c) (.refused .busy) => ∃ b, K.bond t c = some b ∧ b.status = none ∧
      K' = K.setBond t c (some { b with exit := b.exit.taken t })
  | .call (.awaitExit c) (.done a) => ∃ b v, K.bond t c = some b ∧ b.status = some v ∧
      a = .integer v.toInt ∧ K' = K.setBond t c none
  | .call (.tryCollect c) (.done (.child (.exited v))) => ∃ b, K.bond t c = some b ∧
      b.status = some v ∧ K' = K.setBond t c none
  | _ => K' = K

/-- Parents and children agree about each other, and a child is younger than its parent. -/
structure Sound (K : Kinship) : Prop where
  agree : ∀ p c, K.parent c = some p ↔ ∃ b, K.bond p c = some b ∧ b.status = none
  gone : ∀ p c b, K.bond p c = some b → b.status ≠ none → K.parent c = none
  older : ∀ p c b, K.bond p c = some b → p < c ∧ c < K.nextThread

end Kinship

namespace Core

variable {k k' m : Core} {p q c d t : ThreadId} {s : ObjectId} {r : ChildRecord} {b : Bond}
  {u : Unit}

def kinship (k : Core) : Kinship where
  bond p c := (k.recordOf p c).bind fun r => (k.objects.semaphores[r.forkSemaphore]?).bind fun f =>
    (k.objects.semaphores[r.exitSemaphore]?).map fun e => ⟨r.forked, r.status, f, e⟩
  parent := k.parentOf
  status t := (k.ties t).map fun x => x.2.exitStatus
  nextThread := k.nextThread

/-- What a semaphore was made for. -/
inductive Office
  /-- It is at hand for callers. -/
  | caller
  | fork (parent child : ThreadId)
  | exit (parent child : ThreadId)

/-- The semaphores of the records have the offices they were made for, and numbers that are in use
were given out. -/
structure Assigned (k : Core) (office : ObjectId → Option Office) : Prop where
  thread : ∀ t x, k.ties t = some x → x.1 = t ∧ t < k.nextThread
  semaphore : ∀ (i : ObjectId) o, k.objects.semaphores[i]? = some o → i ≤ k.objects.lastId
  issued : ∀ i, office i ≠ none → i ≤ k.objects.lastId
  offices : ∀ p c r, k.recordOf p c = some r →
    office r.forkSemaphore = some (.fork p c) ∧ office r.exitSemaphore = some (.exit p c)
  present : ∀ p c r, k.recordOf p c = some r →
    (∃ f, k.objects.semaphores[r.forkSemaphore]? = some f) ∧
      ∃ e, k.objects.semaphores[r.exitSemaphore]? = some e

/-- The semaphores that are at hand for callers are as before. -/
def SameAtHand (k : Core) (office : ObjectId → Option Office) (k' : Core) : Prop :=
  ∀ i, office i = some .caller → k'.objects.semaphores[i]? = k.objects.semaphores[i]?

namespace SameAtHand

variable {office : ObjectId → Option Office} {o : Option Semaphore}

theorem refl (k : Core) (office : ObjectId → Option Office) : k.SameAtHand office k :=
  fun _ _ => rfl

theorem trans (h : k.SameAtHand office m) (h' : m.SameAtHand office k') : k.SameAtHand office k' :=
  fun i hi => (h' i hi).trans (h i hi)

theorem of_semaphores (h : k'.objects.semaphores = k.objects.semaphores) : k.SameAtHand office k' :=
  fun i _ => by rw [h]

theorem of_kin (h : k'.kin = k.kin) : k.SameAtHand office k' := of_semaphores (kin_semaphores h)

theorem mapFamily (k : Core) (t : ThreadId) (f : Family → Family) :
    k.SameAtHand office (k.mapFamily t f) :=
  of_semaphores rfl

/-- A semaphore of a record is changed. -/
theorem of_sets (h : SetsSemaphore k k' s o) (ho : office s ≠ some .caller) :
    k.SameAtHand office k' := by
  intro i hi
  rw [h.semaphores, if_neg]
  rintro rfl
  exact ho hi

end SameAtHand

/-- A bond is a record with its semaphores. -/
theorem of_bond (h : k.kinship.bond p c = some b) :
    ∃ r, k.recordOf p c = some r ∧ k.objects.semaphores[r.forkSemaphore]? = some b.fork ∧
      k.objects.semaphores[r.exitSemaphore]? = some b.exit ∧ b.forked = r.forked ∧
      b.status = r.status := by
  simp only [kinship, Option.bind_eq_some_iff, Option.map_eq_some_iff] at h
  obtain ⟨r, hr, f, hf, e, he, rfl⟩ := h
  exact ⟨r, hr, hf, he, rfl, rfl⟩

theorem bond_of_none (h : k.recordOf p c = none) : k.kinship.bond p c = none := by
  simp only [kinship, h, Option.bind_none]

/-- A bond stays as it is if the record and its semaphores do. -/
theorem bond_congr (hr : k'.recordOf p c = k.recordOf p c)
    (hs : ∀ r, k.recordOf p c = some r →
      k'.objects.semaphores[r.forkSemaphore]? = k.objects.semaphores[r.forkSemaphore]? ∧
        k'.objects.semaphores[r.exitSemaphore]? = k.objects.semaphores[r.exitSemaphore]?) :
    k'.kinship.bond p c = k.kinship.bond p c := by
  simp only [kinship, hr]
  cases h : k.recordOf p c with
  | none => rfl
  | some r => simp only [Option.bind_some, hs r h]

theorem parentOf_congr (h : k'.ties = k.ties) : k'.parentOf = k.parentOf := by
  funext c
  rw [parentOf_eq_ties, parentOf_eq_ties, h]

theorem recordOf_congr (h : k'.ties = k.ties) : k'.recordOf = k.recordOf := by
  funext p c
  rw [recordOf_eq_ties, recordOf_eq_ties, h]

theorem kinship_eq {K : Kinship} (hb : ∀ p c, k.kinship.bond p c = K.bond p c)
    (hp : ∀ c, k.parentOf c = K.parent c) (hs : ∀ t, k.kinship.status t = K.status t)
    (hn : k.nextThread = K.nextThread) : k.kinship = K := by
  obtain ⟨bond, parent, status, next⟩ := K
  obtain rfl : k.kinship.bond = bond := funext fun p => funext (hb p)
  obtain rfl : k.parentOf = parent := funext hp
  obtain rfl : k.kinship.status = status := funext hs
  obtain rfl : k.nextThread = next := hn
  rfl

theorem status_congr (h : k'.ties = k.ties) : k'.kinship.status = k.kinship.status := by
  simp only [kinship, h]

/-- The families stay as they are if nobody's ties change and no record loses sight of a
semaphore. -/
theorem kinship_congr (ht : k'.ties = k.ties) (hn : k'.nextThread = k.nextThread)
    (hs : ∀ p c r, k.recordOf p c = some r →
      k'.objects.semaphores[r.forkSemaphore]? = k.objects.semaphores[r.forkSemaphore]? ∧
        k'.objects.semaphores[r.exitSemaphore]? = k.objects.semaphores[r.exitSemaphore]?) :
    k'.kinship = k.kinship :=
  kinship_eq (fun p c => bond_congr (by rw [recordOf_congr ht]) (hs p c))
    (congrFun (parentOf_congr ht)) (congrFun (status_congr ht)) hn

theorem status_eq (k : Core) (t : ThreadId) :
    k.kinship.status t = (k.threads[t]?).map fun th => th.family.exitStatus := by
  simp only [kinship, ties, Option.map_map]
  rfl

theorem status_mapFamily {f : Family → Family} (hf : ∀ x, (f x).exitStatus = x.exitStatus)
    (d : ThreadId) : (k.mapFamily t f).kinship.status d = k.kinship.status d := by
  rw [status_eq, status_eq]
  exact map_getElem?_mapThread (g := fun th => th.family.exitStatus) (fun th => hf th.family) d

namespace Assigned

variable {office : ObjectId → Option Office} (A : k.Assigned office)

include A

/-- A record shows as a bond. -/
theorem bond (hr : k.recordOf p c = some r) :
    ∃ f e, k.objects.semaphores[r.forkSemaphore]? = some f ∧
      k.objects.semaphores[r.exitSemaphore]? = some e ∧
      k.kinship.bond p c = some ⟨r.forked, r.status, f, e⟩ := by
  obtain ⟨⟨f, hf⟩, e, he⟩ := A.present p c r hr
  exact ⟨f, e, hf, he, by simp only [kinship, hr, hf, he, Option.bind_some, Option.map_some]⟩

theorem record_eq_none (h : k.kinship.bond p c = none) : k.recordOf p c = none := by
  cases hr : k.recordOf p c with
  | none => rfl
  | some r =>
    obtain ⟨f, e, -, -, hb⟩ := A.bond hr
    rw [hb] at h
    cases h

/-- Two records with a semaphore in common are the same one. -/
theorem same_fork {r' : ChildRecord} (hr : k.recordOf p c = some r) (hr' : k.recordOf q d = some r')
    (h : r'.forkSemaphore = r.forkSemaphore) : q = p ∧ d = c := by
  have h₁ := (A.offices p c r hr).1
  rw [← h, (A.offices q d r' hr').1] at h₁
  cases h₁
  exact ⟨rfl, rfl⟩

theorem same_exit {r' : ChildRecord} (hr : k.recordOf p c = some r) (hr' : k.recordOf q d = some r')
    (h : r'.exitSemaphore = r.exitSemaphore) : q = p ∧ d = c := by
  have h₁ := (A.offices p c r hr).2
  rw [← h, (A.offices q d r' hr').2] at h₁
  cases h₁
  exact ⟨rfl, rfl⟩

theorem fork_ne_exit {r' : ChildRecord} (hr : k.recordOf p c = some r)
    (hr' : k.recordOf q d = some r') : r.forkSemaphore ≠ r'.exitSemaphore := by
  intro h
  have h₁ := (A.offices p c r hr).1
  rw [h, (A.offices q d r' hr').2] at h₁
  cases h₁

/-! ### Changes of a semaphore -/

/-- The offices are as before if no ties change and no semaphore of a record is gone. -/
theorem congr (ht : k'.ties = k.ties) (hn : k'.nextThread = k.nextThread)
    (hl : k.objects.lastId ≤ k'.objects.lastId)
    (hi : ∀ (i : ObjectId) o, k'.objects.semaphores[i]? = some o → i ≤ k'.objects.lastId)
    (hs : ∀ p c r, k.recordOf p c = some r →
      ∀ i : ObjectId, i = r.forkSemaphore ∨ i = r.exitSemaphore →
      ∀ o, k.objects.semaphores[i]? = some o → ∃ o', k'.objects.semaphores[i]? = some o') :
    k'.Assigned office := by
  have hrec := recordOf_congr ht
  refine ⟨?_, hi, fun i h => (A.issued i h).trans hl, ?_, ?_⟩
  · rw [ht, hn]
    exact A.thread
  · rw [hrec]
    exact A.offices
  · rw [hrec]
    intro p c r hr
    obtain ⟨⟨f, hf⟩, e, he⟩ := A.present p c r hr
    exact ⟨hs p c r hr _ (.inl rfl) f hf, hs p c r hr _ (.inr rfl) e he⟩

theorem of_kin (h : k'.kin = k.kin) : k'.Assigned office ∧ k'.kinship = k.kinship := by
  have hs := kin_semaphores h
  refine ⟨A.congr (kin_ties h) (kin_nextThread h) (kin_lastId h).ge ?_ fun _ _ _ _ i _ o ho =>
    ⟨o, by rw [hs, ho]⟩,
      kinship_congr (kin_ties h) (kin_nextThread h) fun _ _ _ _ => by simp only [hs, and_self]⟩
  rw [hs, kin_lastId h]
  exact A.semaphore

/-- A semaphore of no record changes or is gone. -/
theorem setsUnused {o : Option Semaphore} (hs : SetsSemaphore k k' s o) (hl : s ≤ k.objects.lastId)
    (hu : ∀ p c r, k.recordOf p c = some r → r.forkSemaphore ≠ s ∧ r.exitSemaphore ≠ s) :
    k'.Assigned office ∧ k'.kinship = k.kinship := by
  have hkeep : ∀ p c r, k.recordOf p c = some r →
      k'.objects.semaphores[r.forkSemaphore]? = k.objects.semaphores[r.forkSemaphore]? ∧
        k'.objects.semaphores[r.exitSemaphore]? = k.objects.semaphores[r.exitSemaphore]? := by
    intro p c r hr
    rw [hs.semaphores, hs.semaphores, if_neg (hu p c r hr).1, if_neg (hu p c r hr).2]
    exact ⟨rfl, rfl⟩
  refine ⟨A.congr hs.ties hs.nextThread hs.lastId.ge (fun i o hi => ?_) ?_,
    kinship_congr hs.ties hs.nextThread hkeep⟩
  · rw [hs.lastId]
    rw [hs.semaphores] at hi
    split at hi
    · rename_i he
      exact he ▸ hl
    · exact A.semaphore i o hi
  · rintro p c r hr i (rfl | rfl) o ho
    · exact ⟨o, (hkeep p c r hr).1.trans ho⟩
    · exact ⟨o, (hkeep p c r hr).2.trans ho⟩

/-- A semaphore of callers is in no record. -/
theorem unused (ho : office s = some .caller) (p c : ThreadId) (r : ChildRecord)
    (hr : k.recordOf p c = some r) : r.forkSemaphore ≠ s ∧ r.exitSemaphore ≠ s := by
  obtain ⟨h₁, h₂⟩ := A.offices p c r hr
  constructor
  · rintro rfl
    simp [ho] at h₁
  · rintro rfl
    simp [ho] at h₂

/-- A semaphore of a record is not at hand for callers. -/
theorem not_caller (hr : k.recordOf p c = some r) :
    office r.forkSemaphore ≠ some .caller ∧ office r.exitSemaphore ≠ some .caller := by
  obtain ⟨h₁, h₂⟩ := A.offices p c r hr
  simp [h₁, h₂]

/-- A semaphore that is there changes. -/
theorem sets {o o' : Semaphore} (hs : SetsSemaphore k k' s (some o'))
    (ho : k.objects.semaphores[s]? = some o) : k'.Assigned office := by
  refine A.congr hs.ties hs.nextThread hs.lastId.ge (fun i x hi => ?_) fun _ _ _ _ i _ x hx => ?_
  · rw [hs.lastId]
    rw [hs.semaphores] at hi
    split at hi
    · rename_i he
      exact he ▸ A.semaphore s o ho
    · exact A.semaphore i x hi
  · rw [hs.semaphores]
    split
    · exact ⟨o', rfl⟩
    · exact ⟨x, hx⟩

theorem kinship_setsFork {o : Semaphore} (hr : k.recordOf p c = some r)
    (hb : k.kinship.bond p c = some b) (hs : SetsSemaphore k k' r.forkSemaphore (some o)) :
    k'.kinship = k.kinship.setBond p c (some { b with fork := o }) := by
  obtain ⟨f, e, hf, he, hb'⟩ := A.bond hr
  obtain rfl := Option.some.inj (hb'.symm.trans hb)
  have hrec := recordOf_congr hs.ties
  refine kinship_eq (fun q d => ?_) (congrFun (parentOf_congr hs.ties))
    (congrFun (status_congr hs.ties)) hs.nextThread
  show _ = if q = p ∧ d = c then _ else k.kinship.bond q d
  split
  · rename_i hqd
    obtain ⟨rfl, rfl⟩ := hqd
    have hne := (A.fork_ne_exit hr hr).symm
    simp only [kinship, hrec, hr, Option.bind_some, hs.semaphores, if_pos, if_neg hne, he,
      Option.map_some]
  · rename_i hqd
    refine bond_congr (by rw [hrec]) fun r' hr' => ?_
    rw [hs.semaphores, hs.semaphores, if_neg fun h => hqd (A.same_fork hr hr' h),
      if_neg (A.fork_ne_exit hr hr').symm]
    exact ⟨rfl, rfl⟩

theorem kinship_setsExit {o : Semaphore} (hr : k.recordOf p c = some r)
    (hb : k.kinship.bond p c = some b) (hs : SetsSemaphore k k' r.exitSemaphore (some o)) :
    k'.kinship = k.kinship.setBond p c (some { b with exit := o }) := by
  obtain ⟨f, e, hf, he, hb'⟩ := A.bond hr
  obtain rfl := Option.some.inj (hb'.symm.trans hb)
  have hrec := recordOf_congr hs.ties
  refine kinship_eq (fun q d => ?_) (congrFun (parentOf_congr hs.ties))
    (congrFun (status_congr hs.ties)) hs.nextThread
  show _ = if q = p ∧ d = c then _ else k.kinship.bond q d
  split
  · rename_i hqd
    obtain ⟨rfl, rfl⟩ := hqd
    have hne := A.fork_ne_exit hr hr
    simp only [kinship, hrec, hr, Option.bind_some, hs.semaphores, if_pos, if_neg hne, hf,
      Option.map_some]
  · rename_i hqd
    refine bond_congr (by rw [hrec]) fun r' hr' => ?_
    rw [hs.semaphores, hs.semaphores, if_neg fun h => hqd (A.same_exit hr hr' h),
      if_neg (A.fork_ne_exit hr' hr)]
    exact ⟨rfl, rfl⟩

/-- A new semaphore gets an office, or none. -/
theorem newSemaphore {v : Nat} (h : newSemaphore v k = .ok s k') (o : Option Office) :
    k'.Assigned (Function.update office s o) ∧ k'.kinship = k.kinship ∧ k'.ties = k.ties ∧
      k'.objects.semaphores[s]? = some ⟨v, .empty⟩ ∧ k.objects.lastId < s ∧
      ∀ i : ObjectId, i ≠ s → k'.objects.semaphores[i]? = k.objects.semaphores[i]? := by
  obtain ⟨rfl, rfl⟩ := newSemaphore_eq_ok h
  set s := k.objects.lastId + 1
  have hins : ∀ i : ObjectId, (k.objects.semaphores.insert s ⟨v, .empty⟩)[i]? =
      if i = s then some ⟨v, .empty⟩ else k.objects.semaphores[i]? := by
    intro i
    simp only [Std.ExtTreeMap.getElem?_insert, compare_eq_iff_eq]
    exact if_congr eq_comm rfl rfl
  have hne : ∀ i : ObjectId, i ≤ k.objects.lastId → i ≠ s :=
    fun i hi => (Nat.lt_succ_of_le hi).ne
  have hused : ∀ p c r, k.recordOf p c = some r → r.forkSemaphore ≠ s ∧ r.exitSemaphore ≠ s := by
    intro p c r hr
    obtain ⟨h₁, h₂⟩ := A.offices p c r hr
    exact ⟨hne _ (A.issued _ (by simp [h₁])), hne _ (A.issued _ (by simp [h₂]))⟩
  refine ⟨⟨A.thread, ?_, ?_, ?_, ?_⟩, ?_, rfl, by rw [hins, if_pos rfl], Nat.lt_succ_self _, ?_⟩
  · intro i x hi
    rw [hins] at hi
    split at hi
    · rename_i he
      exact he.le
    · exact (A.semaphore i x hi).trans (Nat.le_succ _)
  · intro i hi
    rw [Function.update_apply] at hi
    split at hi
    · rename_i he
      exact he.le
    · exact (A.issued i hi).trans (Nat.le_succ _)
  · intro p c r hr
    obtain ⟨hf, he⟩ := hused p c r hr
    rw [Function.update_of_ne hf, Function.update_of_ne he]
    exact A.offices p c r hr
  · intro p c r hr
    obtain ⟨hf, he⟩ := hused p c r hr
    rw [hins, hins, if_neg hf, if_neg he]
    exact A.present p c r hr
  · refine kinship_congr rfl rfl fun p c r hr => ?_
    obtain ⟨hf, he⟩ := hused p c r hr
    rw [hins, hins, if_neg hf, if_neg he]
    exact ⟨rfl, rfl⟩
  · intro i hi
    rw [hins, if_neg hi]

/-! ### Changes of a family -/

section Family

variable {f : Family → Family} {th : Thread} (hth : k.threads[t]? = some th)

include hth

theorem mapFamily (hf : ∀ c r, (f th.family).children[c]? = some r →
    (office r.forkSemaphore = some (.fork t c) ∧ office r.exitSemaphore = some (.exit t c)) ∧
      (∃ x, k.objects.semaphores[r.forkSemaphore]? = some x) ∧
      ∃ x, k.objects.semaphores[r.exitSemaphore]? = some x) :
      (k.mapFamily t f).Assigned office := by
  refine ⟨?_, A.semaphore, A.issued, ?_, ?_⟩
  · intro u x hx
    rw [ties, Core.mapFamily, getElem?_mapThread] at hx
    split at hx
    · rename_i hu
      subst hu
      rw [hth] at hx
      cases hx
      exact A.thread u (th.id, th.family) (by rw [ties, hth]; rfl)
    · exact A.thread u x hx
  · intro p c r hr
    rw [recordOf_mapFamily hth] at hr
    split at hr
    · rename_i hp
      exact hp ▸ (hf c r hr).1
    · exact A.offices p c r hr
  · intro p c r hr
    rw [recordOf_mapFamily hth] at hr
    split at hr
    · exact (hf c r hr).2
    · exact A.present p c r hr

/-- A record is put in. -/
theorem insert (r : ChildRecord)
    (ho : office r.forkSemaphore = some (.fork t c) ∧ office r.exitSemaphore = some (.exit t c))
    {x y : Semaphore} (hx : k.objects.semaphores[r.forkSemaphore]? = some x)
    (hy : k.objects.semaphores[r.exitSemaphore]? = some y) :
    (k.mapFamily t fun f => { f with children := f.children.insert c r }).Assigned office ∧
      (k.mapFamily t fun f => { f with children := f.children.insert c r }).kinship =
        k.kinship.setBond t c (some ⟨r.forked, r.status, x, y⟩) := by
  have hins : ∀ d, (th.family.children.insert c r)[d]? =
      if d = c then some r else th.family.children[d]? := by
    intro d
    simp only [Std.ExtTreeMap.getElem?_insert, compare_eq_iff_eq]
    exact if_congr eq_comm rfl rfl
  constructor
  · refine A.mapFamily hth fun d r' hr' => ?_
    rw [hins] at hr'
    split at hr'
    · rename_i hd
      cases hr'
      exact ⟨hd ▸ ho, ⟨x, hx⟩, y, hy⟩
    · have hrec : k.recordOf t d = some r' := by rw [recordOf_eq hth, hr']
      exact ⟨A.offices t d r' hrec, A.present t d r' hrec⟩
  · refine kinship_eq ?_ ?_ ?_ rfl
    · intro q d
      show _ = if q = t ∧ d = c then _ else k.kinship.bond q d
      split
      · rename_i hqd
        obtain ⟨rfl, rfl⟩ := hqd
        have hrec :
            (k.mapFamily q fun f => { f with children := f.children.insert d r }).recordOf q d =
            some r := by rw [recordOf_mapFamily hth, if_pos rfl, hins, if_pos rfl]
        simp only [kinship, hrec, Option.bind_some]
        show (k.objects.semaphores[r.forkSemaphore]?).bind _ = _
        rw [hx, Option.bind_some]
        show (k.objects.semaphores[r.exitSemaphore]?).map _ = _
        rw [hy, Option.map_some]
      · rename_i hqd
        refine bond_congr ?_ fun _ _ => ⟨rfl, rfl⟩
        rw [recordOf_mapFamily hth]
        split
        · rename_i hq
          rw [hins, if_neg fun hd => hqd ⟨hq, hd⟩, hq, recordOf_eq hth]
        · rfl
    · intro d
      show (k.mapFamily t _).parentOf d = k.parentOf d
      rw [parentOf_mapFamily hth]
      split
      · rename_i hd
        rw [hd, parentOf_eq hth]
      · rfl
    · exact status_mapFamily (fun _ => rfl)

/-- A record is taken out. -/
theorem erase : (k.mapFamily t fun f => { f with children := f.children.erase c }).Assigned office ∧
    (k.mapFamily t fun f => { f with children := f.children.erase c }).kinship =
      k.kinship.setBond t c none := by
  have herase : ∀ d, (th.family.children.erase c)[d]? =
      if d = c then none else th.family.children[d]? := by
    intro d
    simp only [Std.ExtTreeMap.getElem?_erase, compare_eq_iff_eq]
    exact if_congr eq_comm rfl rfl
  constructor
  · refine A.mapFamily hth fun d r' hr' => ?_
    rw [herase] at hr'
    split at hr'
    · cases hr'
    · have hrec : k.recordOf t d = some r' := by rw [recordOf_eq hth, hr']
      exact ⟨A.offices t d r' hrec, A.present t d r' hrec⟩
  · refine kinship_eq (fun q d => ?_) (fun d => ?_) (status_mapFamily fun _ => rfl) rfl
    · show _ = if q = t ∧ d = c then _ else k.kinship.bond q d
      split
      · rename_i hqd
        obtain ⟨rfl, rfl⟩ := hqd
        refine bond_of_none ?_
        rw [recordOf_mapFamily hth, if_pos rfl, herase, if_pos rfl]
      · rename_i hqd
        refine bond_congr ?_ fun _ _ => ⟨rfl, rfl⟩
        rw [recordOf_mapFamily hth]
        split
        · rename_i hq
          rw [herase, if_neg fun hd => hqd ⟨hq, hd⟩, hq, recordOf_eq hth]
        · rfl
    · show (k.mapFamily t _).parentOf d = k.parentOf d
      rw [parentOf_mapFamily hth]
      split
      · rename_i hd
        rw [hd, parentOf_eq hth]
      · rfl

/-- A change that keeps the records changes no bond. -/
theorem keepRecords (hf : ∀ x, (f x).children = x.children) :
    (k.mapFamily t f).Assigned office ∧ (k.mapFamily t f).kinship.bond = k.kinship.bond := by
  constructor
  · refine A.mapFamily hth fun c r hr => ?_
    rw [hf, ← recordOf_eq hth] at hr
    exact ⟨A.offices t c r hr, A.present t c r hr⟩
  · funext q d
    refine bond_congr ?_ fun _ _ => ⟨rfl, rfl⟩
    rw [recordOf_mapFamily hth]
    split
    · rename_i hq
      rw [hf, hq, recordOf_eq hth]
    · rfl

end Family

/-- A new thread has no ties. -/
theorem enlist {name : String} {priority : Priority} {page : Page}
    {entry : Option String} {task : Option Task} {n : Core}
    (hn : n = k.enlist (.create k.nextThread name priority page entry task)) :
    n.Assigned office ∧ n.kinship.bond = k.kinship.bond ∧ n.parentOf = k.parentOf ∧
      (∀ t, n.kinship.status t = if t = k.nextThread then some (-1) else k.kinship.status t) ∧
      k.parentOf k.nextThread = none := by
  subst hn
  have hfresh : k.threads[k.nextThread]? = none := by
    cases hth : k.threads[k.nextThread]? with
    | none => rfl
    | some th =>
      exact absurd (A.thread k.nextThread (th.id, th.family) (by rw [ties, hth]; rfl)).2
        (lt_irrefl _)
  set th := Thread.create k.nextThread name priority page entry task
  have hrec : (k.enlist th).recordOf = k.recordOf := by
    funext p c
    rw [recordOf, getElem?_enlist, recordOf]
    split
    · rename_i hp
      rw [hp, hfresh]
      simp [th, Thread.create, Family.alone]
    · rfl
  refine ⟨⟨?_, A.semaphore, A.issued, ?_, ?_⟩, ?_, ?_, ?_, by rw [parentOf, hfresh]; rfl⟩
  · intro t x hx
    rw [ties, getElem?_enlist] at hx
    split at hx
    · rename_i ht
      cases hx
      exact ⟨ht.symm, ht ▸ Nat.lt_succ_self _⟩
    · obtain ⟨h₁, h₂⟩ := A.thread t x hx
      exact ⟨h₁, h₂.trans (Nat.lt_succ_self _)⟩
  · rw [hrec]
    exact A.offices
  · rw [hrec]
    exact A.present
  · funext p c
    exact bond_congr (by rw [hrec]) fun _ _ => ⟨rfl, rfl⟩
  · funext c
    rw [parentOf, getElem?_enlist, parentOf]
    split
    · rename_i hc
      rw [hc, hfresh]
      rfl
    · rfl
  · intro t
    rw [status_eq, getElem?_enlist]
    split
    · rfl
    · rw [status_eq]

/-- A thread without ties is gone. -/
theorem bury (hn : ∀ c, k.recordOf t c = none) (hp : k.parentOf t = none)
    (ht : k'.ties = Function.update k.ties t none) (ho : k'.objects = k.objects)
    (hx : k'.nextThread = k.nextThread) :
    k'.Assigned office ∧ k'.kinship.bond = k.kinship.bond ∧ k'.kinship.parent = k.kinship.parent ∧
      ∀ c, c ≠ t → k'.kinship.status c = k.kinship.status c := by
  have hrec : k'.recordOf = k.recordOf := by
    funext p c
    rw [recordOf_eq_ties, ht, Function.update_apply]
    split
    · rename_i hpt
      rw [hpt, hn]
      rfl
    · rw [recordOf_eq_ties]
  refine ⟨⟨?_, ?_, ?_, ?_, ?_⟩, ?_, ?_, ?_⟩
  · intro u x hux
    rw [ht, Function.update_apply] at hux
    split at hux
    · cases hux
    · rw [hx]
      exact A.thread u x hux
  · rw [ho]
    exact A.semaphore
  · rw [ho]
    exact A.issued
  · rw [hrec]
    exact A.offices
  · rw [hrec, ho]
    exact A.present
  · funext p c
    exact bond_congr (by rw [hrec]) fun r _ => by rw [ho]; exact ⟨rfl, rfl⟩
  · funext c
    show k'.parentOf c = k.parentOf c
    rw [parentOf_eq_ties, ht, Function.update_apply]
    split
    · rename_i hct
      rw [hct, hp]
      rfl
    · rw [parentOf_eq_ties]
  · intro c hc
    simp only [kinship, ht, Function.update_of_ne hc]

/-- The semaphores of a record that was taken out are destroyed. -/
theorem dropRecord (ho : office r.forkSemaphore = some (.fork p c) ∧
      office r.exitSemaphore = some (.exit p c)) (hn : k.recordOf p c = none)
    (h : dropRecord r k = .ok u k') : k'.Assigned office ∧ k'.kinship = k.kinship ∧
      k'.ties = k.ties ∧ k.SameAtHand office k' := by
  have hunused : ∀ q d r', k.recordOf q d = some r' →
      (r'.forkSemaphore ≠ r.forkSemaphore ∧ r'.exitSemaphore ≠ r.forkSemaphore) ∧
        r'.forkSemaphore ≠ r.exitSemaphore ∧ r'.exitSemaphore ≠ r.exitSemaphore := by
    intro q d r' hr'
    obtain ⟨h₁, h₂⟩ := A.offices q d r' hr'
    refine ⟨⟨fun h => ?_, fun h => ?_⟩, fun h => ?_, fun h => ?_⟩
    · rw [h, ho.1] at h₁
      cases h₁
      rw [hn] at hr'
      cases hr'
    · rw [h, ho.1] at h₂
      cases h₂
    · rw [h, ho.2] at h₁
      cases h₁
    · rw [h, ho.2] at h₂
      cases h₂
      rw [hn] at hr'
      cases hr'
  unfold Core.dropRecord at h
  rw [bind_eq_ok] at h
  obtain ⟨_, m, hm, h⟩ := h
  have hs := dropSemaphore_sets hm
  obtain ⟨Am, hkm⟩ := A.setsUnused hs (A.issued _ (by simp [ho.1]))
    fun q d r' hr' => (hunused q d r' hr').1
  have hs' := dropSemaphore_sets h
  obtain ⟨A', hk'⟩ := Am.setsUnused hs' (Am.issued _ (by simp [ho.2])) fun q d r' hr' =>
    (hunused q d r' (by rwa [← recordOf_congr hs.ties])).2
  exact ⟨A', hk'.trans hkm, hs'.ties.trans hs.ties,
    (SameAtHand.of_sets hs (by simp [ho.1])).trans (.of_sets hs' (by simp [ho.2]))⟩

end Assigned

end Core

end ThreadCore
