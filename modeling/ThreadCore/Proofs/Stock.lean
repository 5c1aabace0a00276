import ThreadCore.Proofs.FamilyCalls

/-!
# The stock of objects

`Core.stock` says which objects exist and which semaphores belong to which record. Waiting, waking
and handing over leave the stock alone, whatever they do to the states of objects. An object comes
with a number of its own and stays until it is destroyed, and a record comes and goes with its two
semaphores.
-/

namespace ThreadCore

/-- The number of an object. -/
def Handle.number : Handle → ObjectId
  | .semaphore id | .lock id | .condition id => id

/-- Which objects exist, and which semaphores are those of a record. -/
@[ext] structure Stock where
  /-- The number given last. -/
  lastId : ObjectId
  has : Handle → Prop
  /-- The semaphores of the record that a parent keeps of a child. -/
  pair : ThreadId → ThreadId → Option (ObjectId × ObjectId)

namespace Stock

/-- The next number is given to a new object. -/
def add (S : Stock) (h : Handle) : Stock :=
  { S with lastId := S.lastId + 1, has := fun g => g = h ∨ S.has g }

def drop (S : Stock) (h : Handle) : Stock := { S with has := fun g => S.has g ∧ g ≠ h }

/-- The semaphores of a record are these. -/
def setPair (S : Stock) (p c : ThreadId) (o : Option (ObjectId × ObjectId)) : Stock :=
  { S with pair := fun q d => if q = p ∧ d = c then o else S.pair q d }

/-- `p` gets a record of `c` with two new semaphores. -/
def hire (S : Stock) (p c : ThreadId) : Stock :=
  ((S.add (.semaphore (S.lastId + 1))).add (.semaphore (S.lastId + 2))).setPair p c
    (some (S.lastId + 1, S.lastId + 2))

/-- The record that `p` keeps of `c` goes, and its semaphores go with it. -/
def dismiss (S : Stock) (p c : ThreadId) (r : ObjectId × ObjectId) : Stock :=
  ((S.setPair p c none).drop (.semaphore r.1)).drop (.semaphore r.2)

/-- All records that `p` keeps go, and their semaphores with them. -/
def disown (S : Stock) (p : ThreadId) : Stock where
  lastId := S.lastId
  has h := S.has h ∧ ∀ c r, S.pair p c = some r → h ≠ .semaphore r.1 ∧ h ≠ .semaphore r.2
  pair q d := if q = p then none else S.pair q d

end Stock

/-- The semaphores of a record. -/
def ChildRecord.pair (r : ChildRecord) : ObjectId × ObjectId := (r.forkSemaphore, r.exitSemaphore)

namespace Objects

/-- The object exists. -/
def Has (o : Objects) : Handle → Prop
  | .semaphore s => s ∈ o.semaphores
  | .lock l => l ∈ o.locks
  | .condition c => c ∈ o.conditions

end Objects

def Estate.stock (e : Estate) : Stock where
  lastId := e.objects.lastId
  has := e.objects.Has
  pair p c := ((e.ties p).bind fun x => x.2.children[c]?).map ChildRecord.pair

namespace Core

variable {α : Type} {k k' m : Core} {p c d t : ThreadId} {s l : ObjectId} {r : ChildRecord}
  {u : Unit}

def stock (k : Core) : Stock := k.estate.stock

theorem stock_pair (k : Core) (p c : ThreadId) :
    k.stock.pair p c = (k.recordOf p c).map ChildRecord.pair := by
  rw [recordOf_eq_ties]
  rfl

theorem pair_of_record (h : k.recordOf p c = some r) : k.stock.pair p c = some r.pair := by
  rw [stock_pair, h]
  rfl

theorem exists_record (h : k.stock.pair p c = some (s, l)) :
    ∃ r, k.recordOf p c = some r ∧ r.forkSemaphore = s ∧ r.exitSemaphore = l := by
  rw [stock_pair, Option.map_eq_some_iff] at h
  obtain ⟨r, hr, he⟩ := h
  exact ⟨r, hr, congrArg Prod.fst he, congrArg Prod.snd he⟩

theorem ofEstate_stock : OfEstate stock := ⟨fun _ _ h => congrArg Estate.stock h⟩

theorem Quiet.stock (h : Quiet k k') : k'.stock = k.stock := congrArg Estate.stock h.estate

/-! ## States of objects -/

theorem has_mapSemaphore (f : Semaphore → Semaphore) :
    (k.mapSemaphore s f).objects.Has = k.objects.Has := by
  funext h
  cases h with
  | semaphore i => exact propext Std.ExtTreeMap.mem_modify
  | lock i => rfl
  | condition i => rfl

theorem semaphoreBlind_stock : SemaphoreBlind stock where
  toOfEstate := ofEstate_stock
  changeSemaphore s g := by
    intro k _ k' h
    obtain ⟨-, rfl⟩ := changeSemaphore_eq_ok.mp h
    exact congrArg (fun has => { k.stock with has := has }) (has_mapSemaphore g)

theorem lockBlind_stock : LockBlind stock where
  toOfEstate := ofEstate_stock
  changeLock l g := by
    intro k _ k' h
    obtain ⟨-, rfl⟩ := changeLock_eq_ok.mp h
    have hhas : (k.mapLock l g).objects.Has = k.objects.Has := by
      funext h
      cases h with
      | semaphore i => rfl
      | lock i => exact propext Std.ExtTreeMap.mem_modify
      | condition i => rfl
    exact congrArg (fun has => { k.stock with has := has }) hhas
  changeCondition c g := by
    intro k _ k' h
    obtain ⟨-, rfl⟩ := changeCondition_eq_ok.mp h
    have hhas : (k.mapCondition c g).objects.Has = k.objects.Has := by
      funext h
      cases h with
      | semaphore i => rfl
      | lock i => rfl
      | condition i => exact propext Std.ExtTreeMap.mem_modify
    exact congrArg (fun has => { k.stock with has := has }) hhas

/-! ## Objects -/

theorem newSemaphore_stock {v : Nat} (h : newSemaphore v k = .ok s k') :
    s = k.stock.lastId + 1 ∧ k'.stock = k.stock.add (.semaphore s) := by
  obtain ⟨hs, rfl⟩ := newSemaphore_eq_ok h
  refine ⟨hs, Stock.ext rfl (funext fun g => ?_) rfl⟩
  cases g with
  | semaphore i =>
    refine propext (Std.ExtTreeMap.mem_insert.trans (or_congr ?_ Iff.rfl))
    rw [compare_eq_iff_eq, Handle.semaphore.injEq, eq_comm]
  | lock i => simp [stock, Estate.stock, Stock.add, Objects.Has, estate]
  | condition i => simp [stock, Estate.stock, Stock.add, Objects.Has, estate]

theorem newLock_stock (h : newLock k = .ok l k') :
    l = k.stock.lastId + 1 ∧ k'.stock = k.stock.add (.lock l) := by
  obtain ⟨hl, rfl⟩ := newLock_eq_ok h
  refine ⟨hl, Stock.ext rfl (funext fun g => ?_) rfl⟩
  cases g with
  | semaphore i => simp [stock, Estate.stock, Stock.add, Objects.Has, estate]
  | lock i =>
    refine propext (Std.ExtTreeMap.mem_insert.trans (or_congr ?_ Iff.rfl))
    rw [compare_eq_iff_eq, Handle.lock.injEq, eq_comm]
  | condition i => simp [stock, Estate.stock, Stock.add, Objects.Has, estate]

theorem newCondition_stock (h : newCondition k = .ok c k') :
    c = k.stock.lastId + 1 ∧ k'.stock = k.stock.add (.condition c) := by
  obtain ⟨hc, rfl⟩ := newCondition_eq_ok h
  refine ⟨hc, Stock.ext rfl (funext fun g => ?_) rfl⟩
  cases g with
  | semaphore i => simp [stock, Estate.stock, Stock.add, Objects.Has, estate]
  | lock i => simp [stock, Estate.stock, Stock.add, Objects.Has, estate]
  | condition i =>
    refine propext (Std.ExtTreeMap.mem_insert.trans (or_congr ?_ Iff.rfl))
    rw [compare_eq_iff_eq, Handle.condition.injEq, eq_comm]

theorem dropSemaphore_stock (h : dropSemaphore s k = .ok u k') :
    k'.stock = k.stock.drop (.semaphore s) := by
  rw [dropSemaphore, modify_eq_ok] at h
  subst h
  refine Stock.ext rfl (funext fun g => ?_) rfl
  cases g with
  | semaphore i =>
    refine propext (Std.ExtTreeMap.mem_erase.trans (and_comm.trans (and_congr Iff.rfl ?_)))
    rw [Ne, compare_eq_iff_eq, Ne, Handle.semaphore.injEq, eq_comm]
  | lock i => simp [stock, Estate.stock, Stock.drop, Objects.Has, estate]
  | condition i => simp [stock, Estate.stock, Stock.drop, Objects.Has, estate]

theorem destroySemaphore_stock {a : Except Refusal Unit} (h : destroySemaphore s k = .ok a k') :
    (a = .error .busy ∧ k' = k) ∨ (a = .ok () ∧ k'.stock = k.stock.drop (.semaphore s)) := by
  unfold destroySemaphore at h
  simp only [ask_bind_eq_ok] at h
  obtain ⟨o, -, h⟩ := h
  split at h
  · obtain ⟨_, m, hm, h⟩ := bind_eq_ok.mp h
    obtain ⟨rfl, rfl⟩ := pure_eq_ok.mp h
    exact .inr ⟨rfl, dropSemaphore_stock hm⟩
  · obtain ⟨rfl, rfl⟩ := pure_eq_ok.mp h
    exact .inl ⟨rfl, rfl⟩

theorem destroyLock_stock {a : Except Refusal Unit} (h : destroyLock l k = .ok a k') :
    (a = .error .busy ∧ k' = k) ∨ (a = .ok () ∧ k'.stock = k.stock.drop (.lock l)) := by
  unfold destroyLock at h
  simp only [ask_bind_eq_ok] at h
  obtain ⟨o, -, h⟩ := h
  cases ho : o.holder with
  | some holder =>
    simp only [ho, pure_eq_ok] at h
    exact .inl ⟨h.1.symm, h.2.symm⟩
  | none =>
    simp only [ho, modify_bind_eq_ok, pure_eq_ok] at h
    obtain ⟨rfl, rfl⟩ := h
    refine .inr ⟨rfl, Stock.ext rfl (funext fun g => ?_) rfl⟩
    cases g with
    | semaphore i => simp [stock, Estate.stock, Stock.drop, Objects.Has, estate]
    | lock i =>
      refine propext (Std.ExtTreeMap.mem_erase.trans (and_comm.trans (and_congr Iff.rfl ?_)))
      rw [Ne, compare_eq_iff_eq, Ne, Handle.lock.injEq, eq_comm]
    | condition i => simp [stock, Estate.stock, Stock.drop, Objects.Has, estate]

theorem destroyCondition_stock {a : Except Refusal Unit} (h : destroyCondition c k = .ok a k') :
    (a = .error .busy ∧ k' = k) ∨ (a = .ok () ∧ k'.stock = k.stock.drop (.condition c)) := by
  unfold destroyCondition at h
  simp only [ask_bind_eq_ok] at h
  obtain ⟨o, -, h⟩ := h
  split at h
  · simp only [modify_bind_eq_ok, pure_eq_ok] at h
    obtain ⟨rfl, rfl⟩ := h
    refine .inr ⟨rfl, Stock.ext rfl (funext fun g => ?_) rfl⟩
    cases g with
    | semaphore i => simp [stock, Estate.stock, Stock.drop, Objects.Has, estate]
    | lock i => simp [stock, Estate.stock, Stock.drop, Objects.Has, estate]
    | condition i =>
      refine propext (Std.ExtTreeMap.mem_erase.trans (and_comm.trans (and_congr Iff.rfl ?_)))
      rw [Ne, compare_eq_iff_eq, Ne, Handle.condition.injEq, eq_comm]
  · obtain ⟨rfl, rfl⟩ := pure_eq_ok.mp h
    exact .inl ⟨rfl, rfl⟩

/-! ## Records -/

theorem pair_eq {th : Thread} (hth : k.threads[p]? = some th) (c : ThreadId) :
    k.stock.pair p c = (th.family.children[c]?).map ChildRecord.pair := by
  rw [stock_pair, recordOf_eq hth]

/-- A change of a family shows in the records that the thread keeps. -/
theorem stock_mapFamily {th : Thread} (hth : k.threads[t]? = some th) {f : Family → Family}
    {P : ThreadId → ThreadId → Option (ObjectId × ObjectId)}
    (ht : ∀ c, ((f th.family).children[c]?).map ChildRecord.pair = P t c)
    (hP : ∀ q c, q ≠ t → k.stock.pair q c = P q c) :
    (k.mapFamily t f).stock = { k.stock with pair := P } := by
  refine Stock.ext rfl rfl (funext fun q => funext fun c => ?_)
  rw [stock_pair, recordOf_mapFamily hth]
  split
  · rename_i hq
    exact hq ▸ ht c
  · rename_i hq
    rw [← stock_pair]
    exact hP q c hq

theorem stock_insert {th : Thread} (hth : k.threads[p]? = some th) (r : ChildRecord) :
    (k.mapFamily p fun f => { f with children := f.children.insert c r }).stock =
      k.stock.setPair p c (some r.pair) := by
  refine stock_mapFamily hth (fun d => ?_) fun q d hq => (if_neg fun h => hq h.1).symm
  simp only [Std.ExtTreeMap.getElem?_insert, compare_eq_iff_eq, true_and]
  by_cases hd : c = d
  · rw [if_pos hd, if_pos hd.symm]
    rfl
  · rw [if_neg hd, if_neg (Ne.symm hd), pair_eq hth]

theorem stock_erase {th : Thread} (hth : k.threads[p]? = some th) :
    (k.mapFamily p fun f => { f with children := f.children.erase c }).stock =
      k.stock.setPair p c none := by
  refine stock_mapFamily hth (fun d => ?_) fun q d hq => (if_neg fun h => hq h.1).symm
  simp only [Std.ExtTreeMap.getElem?_erase, compare_eq_iff_eq, true_and]
  by_cases hd : c = d
  · rw [if_pos hd, if_pos hd.symm]
    rfl
  · rw [if_neg hd, if_neg (Ne.symm hd), pair_eq hth]

theorem stock_keepRecords {th : Thread} (hth : k.threads[t]? = some th) {f : Family → Family}
    (hf : ∀ x, (f x).children = x.children) : (k.mapFamily t f).stock = k.stock :=
  stock_mapFamily hth (P := k.stock.pair) (fun c => by rw [hf, pair_eq hth]) fun _ _ _ => rfl

/-- Another record of the same child with the same semaphores. -/
theorem stock_update {r' : ChildRecord} {th : Thread} (hth : k.threads[p]? = some th)
    (hr : k.recordOf p c = some r) (hp : r'.pair = r.pair) :
    (k.mapFamily p fun f => { f with children := f.children.insert c r' }).stock = k.stock := by
  rw [stock_insert hth, hp]
  refine Stock.ext rfl rfl (funext fun q => funext fun d => ?_)
  show (if q = p ∧ d = c then _ else _) = _
  split
  · rename_i h
    rw [h.1, h.2, pair_of_record hr]
  · rfl

theorem keeps_changeRecords {f : Family → Family} (hf : ∀ x, (f x).children = x.children) :
    Keeps stock (changeFamily t f) := by
  intro k _ k' h
  obtain ⟨⟨th, hth⟩, rfl⟩ := changeFamily_eq_ok.mp h
  exact stock_keepRecords hth hf

theorem dropRecord_stock (h : dropRecord r k = .ok u k') :
    k'.stock = (k.stock.drop (.semaphore r.forkSemaphore)).drop (.semaphore r.exitSemaphore) := by
  obtain ⟨_, m, hm, h⟩ := bind_eq_ok.mp h
  rw [dropSemaphore_stock h, dropSemaphore_stock hm]

/-! ## Families -/

theorem setExitStatus_stock (v : Int32) : Keeps stock (setExitStatus v) :=
  (keeps_ask _).bind fun _ => keeps_changeRecords fun _ => rfl

theorem reportFork_stock : Keeps stock reportFork := by
  intro k _ k' h
  unfold reportFork at h
  simp only [ask_bind_eq_ok] at h
  obtain ⟨th, -, th', -, h⟩ := h
  cases hp : th'.family.parent with
  | none =>
    simp only [hp, pure_eq_ok] at h
    exact h.2 ▸ rfl
  | some p =>
    simp only [hp, ask_bind_eq_ok, childRecord_eq_ok] at h
    obtain ⟨o, ⟨⟨pth, hpth⟩, ho⟩, h⟩ := h
    cases o with
    | none => exact (pure_eq_ok.mp h).2 ▸ rfl
    | some r =>
      by_cases hf : r.forked = true
      · simp only [hf, if_true, pure_eq_ok] at h
        exact h.2 ▸ rfl
      · simp only [if_neg hf, changeFamily_bind_eq_ok] at h
        obtain ⟨-, h⟩ := h
        obtain ⟨_, m, hm, h⟩ := bind_eq_ok.mp h
        obtain ⟨-, rfl⟩ := pure_eq_ok.mp h
        exact (semaphoreBlind_stock.up _ _ _ _ hm).trans (stock_update hpth ho rfl)

/-- A child is put on record with two new semaphores. -/
theorem adopt_stock (h : adopt p c k = .ok u k') : k'.stock = k.stock.hire p c := by
  unfold adopt at h
  simp only [bind_eq_ok, changeFamily_eq_ok] at h
  obtain ⟨f, m₁, h₁, e, m₂, h₂, _, _, ⟨⟨pth, hpth⟩, rfl⟩, ⟨cth, hcth⟩, rfl⟩ := h
  obtain ⟨rfl, hm₁⟩ := newSemaphore_stock h₁
  obtain ⟨rfl, hm₂⟩ := newSemaphore_stock h₂
  refine (stock_keepRecords hcth ?_).trans ?_
  · exact fun _ => rfl
  · rw [stock_insert hpth, hm₂, hm₁]
    rfl

/-- A new thread keeps no records. -/
theorem stock_enlist (hfresh : k.threads[k.nextThread]? = none) (name : String)
    (priority : Priority) (page : Page) (entry : Option String) (task : Option Task) :
    (k.enlist (.create k.nextThread name priority page entry task)).stock = k.stock := by
  refine Stock.ext rfl rfl (funext fun p => funext fun c => ?_)
  rw [stock_pair, stock_pair, recordOf, recordOf, getElem?_enlist]
  split
  · rename_i hp
    rw [hp, hfresh]
    simp [Thread.create, Family.alone]
  · rfl

theorem spawn_stock {name : String} {priority : Priority} {task : Option Task}
    {a : Except Refusal ThreadId} (hfresh : k.threads[k.nextThread]? = none)
    (h : spawn name priority task k = .ok a k') :
    (∃ refusal, a = .error refusal ∧ k'.stock = k.stock) ∨
      ∃ th, k.running = .ok th ∧ a = .ok k.nextThread ∧
        k'.stock = k.stock.hire th.id k.nextThread := by
  unfold spawn checkPriority at h
  simp only [demand_bind_eq_ok, ask_bind_eq_ok] at h
  obtain ⟨-, th, hr, h⟩ := h
  obtain ⟨r, m, hm, h⟩ := bind_eq_ok.mp h
  rcases register_eq_ok hm with ⟨refusal, rfl, hq⟩ | ⟨n, page, hq, rfl, rfl⟩
  · simp only [bind_eq_ok, pure_eq_ok] at h
    obtain ⟨_, m', hm', rfl, rfl⟩ := h
    exact .inl ⟨_, rfl, (quiet_say hm').stock.trans hq.stock⟩
  · simp only [bind_eq_ok, pure_eq_ok] at h
    obtain ⟨_, m₁, h₁, _, m₂, h₂, _, m₃, h₃, _, m₄, h₄, rfl, rfl⟩ := h
    refine .inr ⟨th, hr, by rw [hq.nextThread], ?_⟩
    have hrest : m₄.stock = m₁.stock := by
      rw [ofEstate_stock.keeps keeps_preempt _ _ _ h₄,
        ofEstate_stock.keeps (keeps_unblock _) _ _ _ h₃, (quiet_say h₂).stock]
    rw [hrest, adopt_stock h₁, stock_enlist (by rw [hq.nextThread, hq.threads]; exact hfresh),
      hq.stock, hq.nextThread]

theorem collect_stock {a : Except Refusal ChildStatus} (h : collect p c k = .ok a k') :
    k' = k ∨ ∃ r v, a = .ok (.exited v) ∧ k.stock.pair p c = some r ∧
      k'.stock = k.stock.dismiss p c r := by
  unfold collect at h
  simp only [ask_bind_eq_ok, childRecord_eq_ok] at h
  obtain ⟨o, ⟨⟨th, hth⟩, ho⟩, h⟩ := h
  cases o with
  | none => exact .inl (pure_eq_ok.mp h).2.symm
  | some r =>
    cases hs : r.status with
    | none =>
      simp only [hs, pure_eq_ok] at h
      exact .inl h.2.symm
    | some v =>
      simp only [hs, changeFamily_bind_eq_ok] at h
      obtain ⟨-, h⟩ := h
      obtain ⟨_, m, hm, h⟩ := bind_eq_ok.mp h
      obtain ⟨rfl, rfl⟩ := pure_eq_ok.mp h
      refine .inr ⟨r.pair, v, rfl, pair_of_record ho, ?_⟩
      rw [dropRecord_stock hm, stock_erase hth]
      rfl

theorem tryCollect_stock {a : Except Refusal ChildStatus} (h : tryCollect c k = .ok a k') :
    k'.stock = k.stock ∨ ∃ p r, k.stock.pair p c = some r ∧ k'.stock = k.stock.dismiss p c r := by
  unfold tryCollect at h
  rw [ask_bind_eq_ok] at h
  obtain ⟨th, -, h⟩ := h
  exact (collect_stock h).imp (congrArg stock) fun ⟨r, _, _, hr, hk⟩ => ⟨th.id, r, hr, hk⟩

theorem awaitExit_stock {a : Except Refusal Int32} (h : awaitExit c k = .ok a k') :
    k'.stock = k.stock ∨ ∃ p r, k.stock.pair p c = some r ∧ k'.stock = k.stock.dismiss p c r := by
  unfold awaitExit at h
  rw [ask_bind_eq_ok] at h
  obtain ⟨th, -, h⟩ := h
  obtain ⟨first, m, hm, hrest⟩ := bind_eq_ok.mp h
  rcases collect_stock hm with rfl | ⟨r, v, rfl, hr, hk⟩
  · split at hrest
    · exact .inl ((pure_eq_ok.mp hrest).2 ▸ rfl)
    · exact .inl ((pure_eq_ok.mp hrest).2 ▸ rfl)
    obtain ⟨o, -, h⟩ := ask_bind_eq_ok.mp hrest
    cases o with
    | none => exact .inl ((pure_eq_ok.mp h).2 ▸ rfl)
    | some r =>
      obtain ⟨_, n, hn, h⟩ := bind_eq_ok.mp h
      have hstock : n.stock = m.stock := semaphoreBlind_stock.down _ _ _ _ hn
      rw [get_bind_eq_ok] at h
      split at h
      · exact .inl ((pure_eq_ok.mp h).2 ▸ hstock)
      · obtain ⟨second, n', hn', h⟩ := bind_eq_ok.mp h
        have hk' : k' = n' := by
          split at h
          · exact (pure_eq_ok.mp h).2.symm
          · exact (pure_eq_ok.mp h).2.symm
          · cases h
        rw [hk', ← hstock]
        exact (collect_stock hn').imp (congrArg stock) fun ⟨r, _, _, hr, hk⟩ => ⟨th.id, r, hr, hk⟩
  · obtain ⟨-, rfl⟩ := pure_eq_ok.mp hrest
    exact .inr ⟨th.id, r, hr, hk⟩

/-! ## Exits -/

theorem reportExit_stock (v : Int32) : Keeps stock (reportExit t v p) := by
  intro k _ k' h
  rcases reportExit_eq_ok h with ⟨-, rfl⟩ | ⟨r, pth, m, n, w, hpth, hr, hforked, hfork, hn, hq⟩
  · rfl
  have hclosed : (k.closeRecord p t r v).stock = k.stock := stock_update hpth hr rfl
  have hm : m.stock = k.stock := by
    cases hf : r.forked with
    | true => exact hforked hf ▸ hclosed
    | false =>
      obtain ⟨w', hm⟩ := hfork hf
      exact (semaphoreBlind_stock.wakeOne _ _ _ _ hm).trans hclosed
  rw [hq.stock, semaphoreBlind_stock.wakeOne _ _ _ _ hn, hm]

theorem orphan_stock {entries : List (ThreadId × ChildRecord)} (h : orphan entries k = .ok u k') :
    k'.stock = { k.stock with
      has := fun g => k.stock.has g ∧ ∀ e ∈ entries,
        g ≠ .semaphore e.2.forkSemaphore ∧ g ≠ .semaphore e.2.exitSemaphore } := by
  induction entries generalizing k with
  | nil =>
    obtain ⟨-, rfl⟩ := pure_eq_ok.mp h
    simp
  | cons entry rest ih =>
    obtain ⟨m, hm, h⟩ : ∃ m : Core, m.stock = k.stock ∧
        (dropRecord entry.2 >>= fun _ => orphan rest) m = .ok u k' := by
      unfold orphan at h
      rw [get_bind_eq_ok] at h
      split at h
      · obtain ⟨_, m, hm, h⟩ := bind_eq_ok.mp h
        have hkeep : Keeps stock (changeFamily entry.1 fun f => { f with parent := none }) :=
          keeps_changeRecords fun _ => rfl
        exact ⟨m, hkeep _ _ _ hm, h⟩
      · exact ⟨k, rfl, h⟩
    obtain ⟨_, n, hn, h⟩ := bind_eq_ok.mp h
    rw [ih h, dropRecord_stock hn, hm]
    refine Stock.ext rfl (funext fun g => propext ?_) rfl
    simp only [Stock.drop, List.forall_mem_cons, and_assoc]

/-- A thread that leaves its family takes its records with it. -/
theorem leaveFamily_stock (h : leaveFamily t k = .ok u k') : k'.stock = k.stock.disown t := by
  obtain ⟨th, m, n, hth, hq, hn, h⟩ := leaveFamily_eq_ok h
  have hmth : m.threads[t]? = some th := hq.threads ▸ hth
  have hempty : (m.mapFamily t fun f => { f with parent := none, children := ∅ }).stock =
      { k.stock with pair := (k.stock.disown t).pair } := by
    rw [← hq.stock]
    refine stock_mapFamily hmth (fun c => ?_) fun q c hq => (if_neg hq).symm
    simp [Stock.disown]
  have hstock : n.stock = k.stock.disown t := by
    rw [orphan_stock hn, hempty]
    refine Stock.ext rfl (funext fun g => propext (and_congr Iff.rfl ?_)) rfl
    constructor
    · intro hg c r hr
      rw [pair_eq hth, Option.map_eq_some_iff] at hr
      obtain ⟨r, hr, rfl⟩ := hr
      exact hg (c, r) (Std.ExtTreeMap.mem_toList_iff_getElem?_eq_some.mpr hr)
    · rintro hg ⟨c, r⟩ he
      refine hg c r.pair ?_
      rw [pair_eq hth, Std.ExtTreeMap.mem_toList_iff_getElem?_eq_some.mp he]
      rfl
  rcases h with ⟨-, rfl⟩ | ⟨p, -, h⟩
  · exact hstock
  · exact (reportExit_stock _ _ _ _ h).trans hstock

/-- A thread that is gone has kept no records. -/
theorem endTurn_stock {σ : ThreadState} (hnone : ∀ c, k.stock.pair k.current c = none)
    (h : endTurn σ k = .ok u k') : k'.stock = k.stock := by
  have he := endTurn_estate h
  split at he
  · refine (congrArg Estate.stock he).trans (Stock.ext rfl rfl (funext fun p => funext fun c => ?_))
    show (((Function.update k.ties k.current none) p).bind fun x => x.2.children[c]?).map _ =
      k.stock.pair p c
    rw [Function.update_apply]
    split
    · rename_i hp
      rw [hp, hnone]
      rfl
    · rw [stock_pair, recordOf_eq_ties]
  · exact congrArg Estate.stock he

theorem exit_stock {office : ObjectId → Option Office} (A : k.Assigned office)
    (h : exit k = .ok u k') : k'.stock = k.stock.disown k.current := by
  obtain ⟨m₁, m₂, m₃, -, -, h₁, hq, h, hq'⟩ := exit_eq_ok (fun _ hr => (A.running_id hr).1) h
  have hcurrent : m₂.current = k.current :=
    hq.current.trans (congrArg Prod.fst (post_leaveFamily _ _ _ _ h₁))
  have hm₂ : m₂.stock = k.stock.disown k.current := hq.stock.trans (leaveFamily_stock h₁)
  rw [hq'.stock, endTurn_stock (fun c => ?_) h, hm₂]
  rw [hm₂, hcurrent]
  exact if_pos rfl

end Core

end ThreadCore
