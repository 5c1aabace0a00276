import ThreadCore.Proofs.Books

/-!
# No page is lost

In every state of a run the pages in use are those of the live threads and of the threads that have
exited and wait to be reclaimed (`Core.Accounted`). A thread that has exited waits until the
processor has left it and the turn of another thread ends. When the core shuts down, or cannot be
booted for want of pages, every page that was handed out has been taken back once (`Core.Returned`).
-/

namespace ThreadCore

/-- The most pages that may be in use. -/
def Setup.limit (setup : Setup) : Nat :=
  match setup.pages with
  | none => Word.greatest
  | some n => n

/-- The priority of the thread that the call makes, if it makes one. -/
def Call.birth? : Call → Option Priority
  | .create _ priority => some priority
  | .spawn _ priority _ => some (priority.getD .usual)
  | _ => none

namespace Core

variable {k k' m : Core} {u : Unit}

/-- Every page is accounted for. Pages are numbered like the threads they are handed out to. -/
structure Accounted (k : Core) : Prop where
  in_use : k.machine.pool.inUse = k.threads.size + k.dead.length
  in_use_le : k.machine.pool.inUse ≤ k.machine.pool.capacity
  one_dead : k.dead.length ≤ 1
  /-- A thread whose stack waits to be reclaimed does not run, and is not even live. -/
  dead_gone : ∀ th ∈ k.dead, th.id ≠ k.current ∧ k.threads[th.id]? = none
  /-- The processor has left it, and comes back no more. -/
  dead_left : ∀ th ∈ k.dead, Left k.journal.events.toList th.id
  dead_stack : ∀ th ∈ k.dead, th.stack.frame = th.id
  live_stack : ∀ (t : ThreadId) (th : Thread), k.threads[t]? = some th → th.stack.frame = t
  allocated : allocations k.journal.events.toList = List.range' 1 k.machine.handedOut
  freed_once : (frees k.journal.events.toList).Nodup
  /-- A page that was handed out is a live thread's, or waits, or was taken back, and only one of
  these. -/
  freed_iff : ∀ f, f ∈ frees k.journal.events.toList ↔ f ∈ allocations k.journal.events.toList ∧
    k.threads[f]? = none ∧ ∀ th ∈ k.dead, th.id ≠ f
  /-- It was taken back after the processor had left its thread. -/
  freed_left : ∀ before f after, k.journal.events.toList = before ++ .freed f :: after →
    Left before f

/-- Pages are taken back at the end of a turn only, and only those that waited when the turn
began. -/
structure Reclaims (k : Core) : Prop where
  turn : ∀ k', Turn k k' →
    frees k'.journal.events.toList = frees k.journal.events.toList ++ k.dead.map Thread.id
  between : ∀ k', Act k k' ∨ Birth k k' →
    frees k'.journal.events.toList = frees k.journal.events.toList

/-- Every page that was handed out has been taken back, once. -/
structure Returned (k : Core) : Prop where
  none_in_use : k.machine.pool.inUse = 0
  once : (frees k.journal.events.toList).Nodup
  all : (frees k.journal.events.toList).Perm (allocations k.journal.events.toList)

variable {limit : Nat}

theorem Booked.accounted (h : k.Booked limit) : k.Accounted := by
  obtain ⟨cth, hcth⟩ := h.steered.live_current
  have hdead : ∀ th ∈ k.dead, (th.id, th.stack.frame) ∈ k.books.dead := fun th hth =>
    List.mem_map_of_mem hth
  have hgone : ∀ th ∈ k.dead, k.threads[th.id]? = none := fun th hth =>
    Option.map_eq_none_iff.mp (h.books.dead_frame _ (hdead th hth)).2.2.2
  have hlength : k.books.dead.length = k.dead.length := List.length_map _
  refine ⟨hlength ▸ h.books.inUse, h.books.inUse_le, hlength ▸ h.books.one_dead, fun th hth => ?_,
    fun th hth => h.books.dead_left _ (hdead th hth), fun th hth => ?_, fun t th hth => ?_,
    h.books.allocated, h.books.freed_once, fun f => ?_, h.books.freed_left⟩
  · refine ⟨fun he => ?_, hgone th hth⟩
    rw [← he, hgone th hth] at hcth
    cases hcth
  · exact (h.books.dead_frame _ (hdead th hth)).1
  · exact (h.books.frame t th.stack.frame (by simp [Core.books, hth])).1
  · refine (h.books.freed_iff f).trans ?_
    have hrange : f ∈ allocations k.journal.events.toList ↔ 0 < f ∧ f ≤ k.books.handedOut := by
      rw [show allocations k.journal.events.toList = _ from h.books.allocated, List.mem_range'_1]
      omega
    simp only [hrange, Core.books, Option.map_eq_none_iff, List.forall_mem_map, and_assoc]

theorem Booked.reclaims (h : k.Booked limit) : k.Reclaims := by
  refine ⟨fun k' ht => ?_, fun k' hm => ?_⟩
  · have hids : k.books.dead.map Prod.snd = k.dead.map Thread.id := by
      simp only [Core.books, List.map_map]
      exact List.map_congr_left h.accounted.dead_stack
    exact hids ▸ (h.steered.turn_books h.books ht).2.2
  · rcases hm with ha | hb
    · exact (ha.books_sound h.books).2.2
    · exact (hb.books_sound h.books).2.2

/-! ## Shutting down -/

/-- Stacks are taken back one after the other. -/
theorem books_freeAll (ths : List Thread) (h : ths.length ≤ k.books.inUse) :
    ∃ k', (ths.forM fun th => do
        record (.freed th.stack.frame)
        onMachine Machine.freePage) k = .ok () k' ∧
      k'.books = { k.books with
        inUse := k.books.inUse - ths.length
        events := k.books.events ++ ths.map fun th => .freed th.stack.frame } := by
  induction ths generalizing k with
  | nil => exact ⟨k, rfl, by simp⟩
  | cons th ths ih =>
    rw [List.length_cons] at h
    have hpos : k.books.inUse ≠ 0 := Nat.ne_of_gt (Nat.lt_of_lt_of_le (Nat.succ_pos _) h)
    let m : Core := { k with journal := k.journal.addEvent (.freed th.stack.frame) }
    have hm : record (.freed th.stack.frame) k = .ok () m := rfl
    obtain ⟨n, hn⟩ := freePage_ok (k := m) hpos
    have hbooks : n.books = { k.books with
        inUse := k.books.inUse - 1, events := k.books.events ++ [.freed th.stack.frame] } := by
      rw [books_freePage hn, books_record hm]
      rfl
    obtain ⟨k', hk', hrest⟩ := ih (k := n) (by rw [hbooks]; exact Nat.le_sub_one_of_lt h)
    have hone : (do
        record (.freed th.stack.frame)
        onMachine Machine.freePage) k = .ok () n := bind_eq_ok.mpr ⟨(), m, hm, hn⟩
    refine ⟨k', bind_eq_ok.mpr ⟨(), n, hone, hk'⟩, ?_⟩
    rw [hrest, hbooks]
    simp only [List.length_cons, List.map_cons, List.append_assoc, List.cons_append,
      List.nil_append, Books.mk.injEq, true_and, and_true]
    omega

theorem length_values (k : Core) : k.threads.values.length = k.threads.size := by
  rw [values_eq, List.length_map, Std.ExtTreeMap.length_toList]

theorem mem_values {t : ThreadId} {th : Thread} (hth : k.threads[t]? = some th) :
    th ∈ k.threads.values := by
  rw [values_eq]
  exact List.mem_map_of_mem (f := Prod.snd) (Std.ExtTreeMap.mem_toList_iff_getElem?_eq_some.mpr hth)

/-- A core whose books are in order can be shut down, and then every page is returned. -/
theorem shutDown_returned (h : k.books.Sound) : ∃ k', shutDown k = .ok () k' ∧ k'.Returned := by
  let was := k.machine.interruptsOn
  let m : Core := { k with machine := k.machine.withInterrupts false }
  have hm : onMachine Machine.mask k = .ok was m := rfl
  let ths := m.dead ++ m.threads.values
  let n : Core := { m with dead := [], threads := ∅ }
  have hall : ths.length = k.books.inUse := by
    rw [h.inUse, List.length_append, length_values, Nat.add_comm]
    exact congrArg (k.threads.size + ·) (List.length_map _).symm
  obtain ⟨v, hv, hbooks⟩ := books_freeAll (k := n) ths hall.le
  obtain ⟨w, hw⟩ : ∃ w, Machine.unmask was v.machine = .ok () w ∧ w.pool = v.machine.pool := by
    unfold Machine.unmask
    split
    · exact ⟨_, rfl, rfl⟩
    · exact ⟨_, rfl, rfl⟩
  have hunmask : onMachine (Machine.unmask was) v = .ok () { v with machine := w } :=
    onMachine_eq_ok.mpr ⟨w, hw.1, rfl⟩
  refine ⟨{ v with machine := w }, ?_, ?_⟩
  · exact bind_eq_ok.mpr
      ⟨was, m, hm, bind_eq_ok.mpr ⟨(), v, hv, bind_eq_ok.mpr ⟨(), _, hunmask, rfl⟩⟩⟩
  have hevents : v.journal.events.toList =
      k.books.events ++ ths.map fun th => .freed th.stack.frame :=
    congrArg Books.events hbooks
  have hfrees : frees v.journal.events.toList =
      frees k.books.events ++ ths.map fun th => th.stack.frame := by
    rw [hevents, frees_append]
    simp [frees, List.filterMap_map, Function.comp_def, Event.freed?]
  have hallocations : allocations v.journal.events.toList = List.range' 1 k.books.handedOut := by
    rw [hevents, allocations_append, h.allocated]
    simp [allocations, List.filterMap_map, Function.comp_def, Event.allocated?]
  -- As many pages are taken back as were handed out, and none of these is missed.
  have hperm : (List.range' 1 k.books.handedOut).Perm (frees v.journal.events.toList) := by
    refine (List.subperm_of_subset List.nodup_range' fun f hf => ?_).perm_of_length_le ?_
    · rw [hfrees, List.mem_append]
      obtain ⟨hpos, hle⟩ := List.mem_range'_1.mp hf
      cases hth : k.threads[f]? with
      | some th =>
        refine .inr (List.mem_map.mpr ⟨th, List.mem_append_right _ (mem_values hth), ?_⟩)
        exact (h.frame f th.stack.frame (by simp [Core.books, hth])).1
      | none =>
        by_cases hd : ∃ th ∈ k.dead, th.id = f
        · obtain ⟨th, hdead, rfl⟩ := hd
          refine .inr (List.mem_map.mpr ⟨th, List.mem_append_left _ hdead, ?_⟩)
          exact (h.dead_frame (th.id, th.stack.frame) (List.mem_map_of_mem hdead)).1
        · refine .inl ((h.freed_iff f).mpr ⟨hpos, by omega, by simp [Core.books, hth], ?_⟩)
          intro e he hef
          obtain ⟨th, hdead, rfl⟩ := List.mem_map.mp he
          exact hd ⟨th, hdead, hef⟩
    · rw [hfrees, List.length_append, List.length_map, hall, List.length_range', ← h.conserved]
      omega
  refine ⟨?_, hperm.nodup_iff.mp List.nodup_range', hallocations ▸ hperm.symm⟩
  have hnone := congrArg Books.inUse hbooks
  rw [hall] at hnone
  rw [show ({ v with machine := w } : Core).machine.pool.inUse = v.machine.pool.inUse from
    congrArg Pool.inUse hw.2]
  exact hnone.trans (Nat.sub_self _)

/-! ## Booting -/

theorem books_core (setup : Setup) (config : Config) : (setup.core config).books.Sound ∧
    (setup.core config).books.capacity = setup.limit := by
  have hpool : (setup.core config).machine.pool = ⟨setup.limit, 0⟩ := by
    cases hp : setup.pages <;> simp [Setup.core, Core.bare, Machine.ofPages, Machine.reset,
      Machine.withInterrupts, Setup.limit, Pool.unbounded, Pool.ofCapacity, hp]
  have hempty : (setup.core config).books =
      ⟨setup.limit, 0, 0, 1, fun _ => none, 0, [], []⟩ := by
    ext1
    · exact congrArg Pool.capacity hpool
    · exact congrArg Pool.inUse hpool
    · rfl
    · rfl
    · funext t
      simp [Core.books, Setup.core, Core.bare]
    · rfl
    · rfl
    · rfl
  refine ⟨?_, by rw [hempty]⟩
  rw [hempty]
  constructor <;> simp [frees, allocations, Word.greatest, Word.limit, UInt64.size]
  omega

/-- A birth leaves the books in order and the capacity as it is. -/
theorem register_books {name : String} {priority : Priority} {entry : Option String}
    {task : Option Task} {a : Except Refusal ThreadId} (hb : k.books.Sound)
    (h : register name priority entry task k = .ok a k') :
    k'.books.Sound ∧ k'.books.capacity = k.books.capacity ∧
      ∀ refusal, a = .error refusal → refusal = .noMemory := by
  obtain ⟨hbirth, hresult⟩ := register_birth h
  obtain ⟨hsound, hcapacity, -⟩ := hbirth.books_sound hb
  refine ⟨hsound, hcapacity, ?_⟩
  rintro refusal rfl
  rcases hresult with ⟨-, he, -⟩ | ⟨-, he, -⟩
  · cases he
  · exact Except.error.inj he

/-- A core that was booted has its books in order. If it was refused a page, every page is
returned. -/
theorem boot_books {setup : Setup} {config : Config} {r : Except Refusal Unit}
    (h : boot (setup.core config) = .ok r k) :
    (∀ refusal, r = .error refusal → refusal = .noMemory ∧ k.Returned) ∧
      (r = .ok () → k.books.Sound ∧ k.books.capacity = setup.limit) := by
  obtain ⟨hbare, hcapacity⟩ := books_core setup config
  -- If there is no page, what was taken is given back.
  have hrefused : ∀ (refusal : Refusal) (m : Core), m.books.Sound → refusal = .noMemory →
      (shutDown >>= fun _ => (pure (.error refusal) : CoreM (Except Refusal Unit))) m = .ok r k →
      (∀ refusal, r = .error refusal → refusal = .noMemory ∧ k.Returned) ∧
        (r = .ok () → k.books.Sound ∧ k.books.capacity = setup.limit) := by
    rintro refusal m hm rfl h
    obtain ⟨_, m', hm', h⟩ := bind_eq_ok.mp h
    obtain ⟨rfl, rfl⟩ := pure_eq_ok.mp h
    obtain ⟨m'', hm'', hreturned⟩ := shutDown_returned hm
    rw [hm''] at hm'
    cases hm'
    refine ⟨fun _ he => ?_, fun he => nomatch he⟩
    cases he
    exact ⟨rfl, hreturned⟩
  unfold boot at h
  rw [get_bind_eq_ok, demand_bind_eq_ok, get_bind_eq_ok] at h
  obtain ⟨-, h⟩ := h
  rw [bind_eq_ok] at h
  obtain ⟨a, m, hm, h⟩ := h
  obtain ⟨hmb, hmc, hma⟩ := register_books hbare hm
  cases a with
  | error refusal => exact hrefused refusal m hmb (hma refusal rfl) h
  | ok main =>
    simp only [changeThread_bind_eq_ok, modify_bind_eq_ok] at h
    obtain ⟨-, h⟩ := h
    let n : Core :=
      { m.mapThread main fun th => { th with state := .running } with current := main }
    have hn : n.books = m.books := (books_mapThread (k := m) fun _ => rfl :
      (m.mapThread main fun th => { th with state := .running }).books = m.books)
    obtain ⟨a, v, hv, h⟩ := bind_eq_ok.mp h
    obtain ⟨hvb, hvc, hva⟩ := register_books (k := n) (hn ▸ hmb) hv
    cases a with
    | error refusal => exact hrefused refusal v hvb (hva refusal rfl) h
    | ok idle =>
      simp only [modify_bind_eq_ok] at h
      simp only [bind_eq_ok, pure_eq_ok] at h
      obtain ⟨_, w, hw, _, w', hw', rfl, rfl⟩ := h
      refine ⟨fun _ he => (nomatch he), fun _ => ?_⟩
      have hbooks : w'.books = v.books := by
        obtain ⟨x, hx, rfl⟩ := onMachine_eq_ok.mp hw
        rw [modify_eq_ok] at hx
        rw [books_say hw', hx]
        rfl
      rw [hbooks]
      exact ⟨hvb, hvc.trans ((congrArg Books.capacity hn).trans (hmc.trans hcapacity))⟩

/-! ## Births and the limit -/

/-- A thread is refused exactly if the pool is exhausted. -/
theorem spawn_refusal {name : String} {priority : Priority} {task : Option Task}
    {a : Except Refusal ThreadId} (h : spawn name priority task k = .ok a k') :
    a = .error .noMemory ↔ k.machine.pool.capacity ≤ k.machine.pool.inUse := by
  unfold spawn checkPriority at h
  simp only [demand_bind_eq_ok, ask_bind_eq_ok] at h
  obtain ⟨-, th, -, h⟩ := h
  obtain ⟨r, m, hm, h⟩ := bind_eq_ok.mp h
  obtain ⟨-, ⟨hroom, rfl, rfl⟩ | ⟨hfull, rfl, rfl⟩⟩ := register_birth hm
  · simp only [bind_eq_ok, pure_eq_ok] at h
    obtain ⟨_, _, -, _, _, -, _, _, -, _, _, -, rfl, -⟩ := h
    simp [hroom]
  · simp only [bind_eq_ok, pure_eq_ok] at h
    obtain ⟨_, _, -, rfl, -⟩ := h
    simp [hfull]

/-- If the pool is exhausted, then the refusal does come. -/
theorem spawn_refused {name : String} {priority : Priority} {task : Option Task} {th : Thread}
    (hp : priority ≤ Priority.greatest) (hr : k.running = .ok th)
    (hfull : k.machine.pool.capacity ≤ k.machine.pool.inUse)
    (hword : k.machine.pool.inUse < Word.greatest) :
    ∃ k', spawn name priority task k = .ok (.error .noMemory) k' := by
  have htake : Pool.take k.machine.pool = .ok false k.machine.pool := Pool.take_of_le hfull hword
  have hpage : onMachine Machine.takePage k = .ok none k := by
    refine onMachine_eq_ok.mpr ⟨k.machine, ?_, rfl⟩
    refine bind_eq_ok.mpr ⟨false, k.machine, ?_, rfl⟩
    simp only [Machine.onPool, htake]
  let m : Core := { k with journal := k.journal.addEvent .refused }
  have hstack : takeStack k = .ok none m := bind_eq_ok.mpr ⟨none, k, hpage, rfl⟩
  have hregister : register (Name.clip name) priority (some name) task k =
      .ok (.error .noMemory) m :=
    bind_eq_ok.mpr ⟨none, m, hstack, rfl⟩
  obtain ⟨k', hk'⟩ := say_ok (.creationRefused th.id (Name.clip name) .noMemory) m
  refine ⟨k', ?_⟩
  unfold spawn checkPriority
  rw [demand_bind_eq_ok, ask_bind_of_ok hr]
  exact ⟨hp, bind_eq_ok.mpr ⟨_, m, hregister, bind_eq_ok.mpr ⟨(), k', hk', rfl⟩⟩⟩

end Core

namespace Session

open ThreadCore.Core (Course)

variable {s : Session} {limit : Nat}

/-- Threads are refused exactly if `limit` pages are in use. -/
structure Refuses (s : Session) (limit : Nat) : Prop where
  only : ∀ c p a s', c.birth? = some p → execute c s = .ok a s' →
    (a = .refused .noMemory ↔ s.core.machine.pool.inUse = limit)
  always : ∀ c p th, c.birth? = some p → p ≤ Priority.greatest → s.core.running = .ok th →
    s.core.machine.pool.inUse = limit → ∃ s', execute c s = .ok (.refused .noMemory) s'

theorem refuses (h : s.core.Booked limit) : s.Refuses limit := by
  have hlimit : s.core.machine.pool.capacity = limit := h.capacity
  have hle : s.core.machine.pool.inUse ≤ limit := hlimit ▸ h.books.inUse_le
  have hword : s.core.machine.pool.inUse < Word.greatest := by
    have hconserved := h.books.conserved
    have hnumbered := h.books.numbered
    have hbound := h.books.bound
    simp only [Core.books] at hconserved hnumbered hbound
    omega
  have honly : ∀ {name p task a s'}, (onCore (Core.spawn name p task) >>= fun r =>
      pure (Answer.ofExcept Reply.number r)) s = .ok a s' →
      (a = .refused .noMemory ↔ s.core.machine.pool.inUse = limit) := by
    intro name p task a s' he
    obtain ⟨r, k, hk, rfl, -⟩ := report_ok.mp he
    have hr : Answer.ofExcept Reply.number r = .refused .noMemory ↔ r = .error .noMemory := by
      cases r <;> simp [Answer.ofExcept]
    rw [hr, Core.spawn_refusal hk, hlimit]
    exact ⟨fun hge => le_antisymm hle hge, ge_of_eq⟩
  have halways : ∀ {name p task th}, p ≤ Priority.greatest → s.core.running = .ok th →
      s.core.machine.pool.inUse = limit →
      ∃ s', (onCore (Core.spawn name p task) >>= fun r =>
        pure (Answer.ofExcept Reply.number r)) s = .ok (.refused .noMemory) s' := by
    intro name p task th hp hr hfull
    obtain ⟨k, hk⟩ : ∃ k, Core.spawn name p task s.core = .ok (.error .noMemory) k :=
      Core.spawn_refused hp hr (hlimit.trans hfull.symm).le hword
    exact ⟨_, report_ok.mpr ⟨_, k, hk, rfl, rfl⟩⟩
  constructor
  · intro c p a s' hc he
    cases c with
    | create => exact honly he
    | spawn => exact honly he
    | _ => cases hc
  · intro c p th hc hp hr hfull
    cases c with
    | create =>
      cases hc
      exact halways hp hr hfull
    | spawn =>
      cases hc
      exact halways hp hr hfull
    | _ => cases hc

theorem Later.booked {setup : Setup} {config : Config} {k : Core}
    (h : Core.boot (setup.core config) = .ok (.ok ()) k) (hl : Later (.ofCore k) s) :
    s.core.Booked setup.limit :=
  have hb := (Core.boot_books h).2 rfl
  Core.Booked.course ⟨steered_boot h, hb.1, hb.2⟩ hl.course

/-- **No page is lost.** If the core cannot be booted for want of pages, those that were handed out
are returned. In every state of a run, and in every state on the way of an operation, the pages are
accounted for, no more are in use than there are, and only the end of a turn takes pages back.
Threads are refused exactly if all pages are in use. The core can be shut down at any time, and then
every page is returned. -/
theorem later_accounted (setup : Setup) (config : Config) :
    (∀ refusal k, Core.boot (setup.core config) = .ok (.error refusal) k →
      refusal = .noMemory ∧ k.Returned) ∧
    ∀ k₀ s, Core.boot (setup.core config) = .ok (.ok ()) k₀ → Later (.ofCore k₀) s →
      (∀ k, Course s.core k → k.Accounted ∧ k.machine.pool.capacity = setup.limit ∧ k.Reclaims) ∧
        (∀ d s', Leads s d s' → Course s.core s'.core) ∧ s.Refuses setup.limit ∧
        ∃ k, Core.shutDown s.core = .ok () k ∧ k.Returned := by
  refine ⟨fun refusal k h => (Core.boot_books h).1 refusal rfl, fun k₀ s h hl => ?_⟩
  have hs := hl.booked h
  refine ⟨fun k hk => ?_, fun d s' hd => hd.course, refuses hs, Core.shutDown_returned hs.books⟩
  have hb := hs.course hk
  exact ⟨hb.accounted, hb.capacity, hb.reclaims⟩

/-- A thread has exited on a machine with three pages, and its page is not taken back yet. -/
theorem later_accounted_exhausted : ∃ s : Session, s.core.dead.map Thread.id = [3] ∧
    s.core.machine.pool.inUse = 3 ∧ s.core.Accounted ∧ s.Refuses 3 := by
  have hrun : (replayFrom (fun _ _ _ => true) ⟨none, none, some 3, false, none⟩
      [.create "brief" 40, .exit]).any (fun r =>
        r.2.core.dead.map Thread.id = [3] ∧ r.2.core.machine.pool.inUse = 3) = true := by
    decide +kernel
  obtain ⟨⟨log, s⟩, hs, hrun⟩ := (Option.any_eq_true _ _).mp hrun
  obtain ⟨hdead, huse⟩ := of_decide_eq_true hrun
  obtain ⟨config, k, hk, hl⟩ := later_replayFrom hs
  obtain ⟨haccounted, -, hrefuses, -⟩ := (later_accounted _ config).2 k s hk hl
  exact ⟨s, hdead, huse, (haccounted s.core .refl).1, hrefuses⟩

end Session

end ThreadCore
