import ThreadCore.Proofs.Guards

/-!
# The end of a turn does not fail

With interrupts disabled, the current thread can end its turn (`Sound.endTurn_ok`). The pages of the
threads that have exited are out, so they can be taken back; the ready threads are live and their
canaries intact, so one of them can be chosen; and stack pointers tell threads apart, so it can be
switched to. So a thread can give way (`Sound.preempt_ok`).

What a thread does before its turn ends may fail. If it waits for a lock, this can only be for a
chain of waits that leads back to it (`Sound.acquire_ok`).
-/

namespace ThreadCore

namespace Core

open Relation

variable {k k' m : Core} {g : Stage} {s t holder : ThreadId} {l : ObjectId}

/-! ## Stacks -/

/-- The stacks of threads that have exited can be taken back, as their pages are out. -/
theorem reclaim_ok (n : Nat) (hdead : n ≤ k.books.dead.length) (hout : n ≤ k.books.inUse) :
    ∃ k', reclaim n k = .ok () k' := by
  induction n generalizing k with
  | zero => exact ⟨k, rfl⟩
  | succ n ih =>
    cases hd : k.dead with
    | nil => simp [books, hd] at hdead
    | cons victim rest =>
      let k₁ : Core := { k with dead := rest }
      obtain ⟨k₂, h₂⟩ := say_ok (.reclaims victim.id) k₁
      obtain ⟨k₃, h₃⟩ : ∃ k₃, record (.freed victim.stack.frame) k₂ = .ok () k₃ := ⟨_, rfl⟩
      have hbooks₃ : k₃.books = k₁.books.note [.freed victim.stack.frame] := by
        rw [books_record h₃, books_say h₂]
      have huse₃ : k₃.books.inUse = k.books.inUse := by rw [hbooks₃]; rfl
      obtain ⟨k₄, h₄⟩ := freePage_ok (k := k₃) (by omega)
      have huse₄ : k₄.books.inUse = k.books.inUse - 1 := by rw [books_freePage h₄, ← huse₃]
      have hdead₄ : k₄.books.dead = k₁.books.dead := by
        rw [books_freePage h₄, hbooks₃]
        rfl
      have hlength : k.books.dead.length = k₁.books.dead.length + 1 := by simp [books, hd, k₁]
      obtain ⟨k', h'⟩ := ih (k := k₄) (by rw [hdead₄]; omega) (by omega)
      refine ⟨k', ?_⟩
      unfold reclaim
      rw [get_bind_eq, hd]
      simp only
      rw [modify_bind_eq_ok, bind_of_ok h₂, bind_of_ok h₃, bind_of_ok h₄]
      exact h'

/-! ## The next thread -/

theorem takeNext_ok (hready : ∀ t ∈ k.ready.entries, t ∈ k.threads) :
    ∃ t k', takeNext k = .ok t k' := by
  have hask : ask (fun k => k.mostUrgent k.ready) k = .ok (k.ready.foremost k.outranks) k :=
    ask_eq_ok_iff.mpr ⟨mostUrgent_eq_ok.mpr ⟨hready, rfl⟩, rfl⟩
  unfold takeNext
  rw [bind_of_ok hask]
  cases k.ready.foremost k.outranks with
  | some t => exact ⟨t, _, rfl⟩
  | none => exact ⟨_, _, rfl⟩

theorem resume_ok {running resumed : Context} {th : Thread} (hoff : k.machine.interruptsOn = false)
    (hsp : running.sp ≠ resumed.sp) (hth : k.threads[t]? = some th) :
    ∃ k', resume s t running resumed k = .ok () k' := by
  obtain ⟨k₁, h₁, hmachine, hthreads⟩ : ∃ k₁, record (.switched s t) k = .ok () k₁ ∧
      k₁.machine = k.machine ∧ k₁.threads = k.threads := ⟨_, rfl, rfl, rfl⟩
  obtain ⟨k₂, hswitch, hth₂⟩ : ∃ k₂, onMachine (Machine.switch running resumed) k₁ =
      .ok ({ resumed with entry := none }, resumed.entry) k₂ ∧ k₂.threads[t]? = some th :=
    ⟨_, switch_of_ne (hmachine ▸ hoff) hsp, hthreads ▸ hth⟩
  unfold resume
  rw [bind_of_ok h₁, bind_of_ok hswitch]
  dsimp only
  rw [changeThread_bind_of_ok hth₂]
  cases resumed.entry with
  | some label => exact ⟨_, rfl⟩
  | none => exact ⟨_, rfl⟩

/-- Two live threads can be switched between. -/
theorem switchTo_ok {sth tth : Thread} (hk : (masking true).inv k) (hs : k.threads[s]? = some sth)
    (ht : k.threads[t]? = some tth) (hne : s ≠ t) : ∃ k', switchTo s t k = .ok () k' := by
  have hsp : sth.context.sp ≠ tth.context.sp := fun he =>
    hne (lastWord_blank_inj ((hk.1.sp s sth hs).symm.trans (he.trans (hk.1.sp t tth ht))))
  let k₁ : Core := { k with current := t }
  obtain ⟨k₂, h₂⟩ := say_ok (.switches s t) k₁
  have hthreads : k₂.threads = k.threads := (quiet_say h₂).threads
  have hoff : k₂.machine.interruptsOn = false :=
    ((masking_say _ k₁ ⟨hk.1.congr rfl, hk.2⟩).ok _ _ h₂).2.2 rfl
  have hs₂ : k₂.threads[s]? = some sth := hthreads ▸ hs
  have ht₂ : k₂.threads[t]? = some tth := hthreads ▸ ht
  have hload : ∀ m : Core, m.machine = k₂.machine → m.threads[t]? = some tth →
      ∃ k', (ask (thread t) >>= fun resumed => resume s t sth.context resumed.context) m =
        .ok () k' := by
    intro m hm hmt
    rw [ask_bind_of_ok (thread_eq_ok_iff.mpr hmt)]
    exact resume_ok (hm ▸ hoff) hsp hmt
  suffices h : ∃ k', (ask (thread s) >>= fun leaving => do
      if leaving.state = .dying then
        modify fun k => { k with threads := k.threads.erase s, dead := k.dead ++ [leaving] }
      ask (thread t) >>= fun resumed => resume s t leaving.context resumed.context) k₂ =
      .ok () k' by
    obtain ⟨k', h⟩ := h
    exact ⟨k', (bind_of_ok h₂).trans h⟩
  rw [ask_bind_of_ok (thread_eq_ok_iff.mpr hs₂)]
  split
  · refine hload { k₂ with threads := k₂.threads.erase s, dead := k₂.dead ++ [sth] } rfl ?_
    rw [Std.ExtTreeMap.getElem?_erase, if_neg (by simpa using hne)]
    exact ht₂
  · exact hload k₂ rfl ht₂

/-- A note about a task does not fail. -/
theorem note_ok {α : Type} {label? : Option String} {event : String → Event} {rest : CoreM α}
    {a : α} (hk : (masking true).inv k) (he : ∀ label s t, event label ≠ .switched s t)
    (h : ∀ m, Quiet k m → (masking true).inv m → ∃ k', rest m = .ok a k') :
    ∃ k' : Core, (match label? with
      | some label => record (event label) >>= fun _ => rest
      | none => rest) k = .ok a k' := by
  cases label? with
  | some label =>
    obtain ⟨m, hm⟩ : ∃ m, record (event label) k = .ok () m := ⟨_, rfl⟩
    have hinv := ((masking_record fun s t h => absurd h (he label s t)) k hk).ok _ _ hm
    obtain ⟨k', h'⟩ := h m (quiet_record hm) hinv.2
    exact ⟨k', (bind_of_ok hm).trans h'⟩
  | none => exact h k (.refl k) hk

/-- The scheduler finds a thread to run next, and it can be switched to. -/
theorem dispatch_ok {src : Thread} (hk : (masking true).inv k)
    (hsrc : k.threads[k.current]? = some src) (hstate : src.state ≠ .running)
    (hready : ∀ t ∈ k.ready.entries, ∃ th, k.threads[t]? = some th)
    (hidle : ∃ th, k.threads[k.idle]? = some th)
    (hintact : ∀ (t : ThreadId) th, k.threads[t]? = some th → th.intact = true) :
    ∃ k', dispatch k = .ok () k' := by
  obtain ⟨t, m, hm⟩ := takeNext_ok (k := k) fun t ht => by
    obtain ⟨th, hth⟩ := hready t ht
    rw [Std.ExtTreeMap.mem_iff_isSome_getElem?, hth]
    rfl
  obtain ⟨hch, rfl⟩ := takeNext_eq_ok hm
  obtain ⟨th, hth⟩ : ∃ th, k.threads[t]? = some th :=
    hch.mem.elim (hready t) fun he => he ▸ hidle
  let k₁ : Core := { k with ready := k.ready.remove t }
  let k₂ := k₁.mapThread t fun th => { th with state := .running }
  have hk₁ : k₁.Anchored := hk.1.congr rfl
  have hk₂ : (masking true).inv k₂ := ⟨hk₁.mapThread fun _ h => h, hk.2⟩
  unfold dispatch
  rw [get_bind_eq, bind_of_ok hm, get_bind_eq, demand_bind_of (hk.2 rfl),
    ask_bind_of_ok (k := k₁) (thread_eq_ok_iff.mpr hsrc), demand_bind_of hstate,
    ask_bind_of_ok (k := k₁) (thread_eq_ok_iff.mpr hth), demand_bind_of (hintact t th hth),
    changeThread_bind_of_ok (k := k₁) hth]
  refine note_ok hk₂ (fun _ _ _ => Event.noConfusion) fun n hq hn => ?_
  show ∃ k', (if k.current ≠ t then switchTo k.current t else pure () : CoreM Unit)
    { n with slice := 0 } = .ok () k'
  split
  · rename_i hne
    have hs : n.threads[k.current]? = some src := by
      rw [hq.threads, getElem?_mapThread, if_neg hne]
      exact hsrc
    have ht : n.threads[t]? = some { th with state := .running } := by
      rw [hq.threads, getElem?_mapThread, if_pos rfl, show k₁.threads[t]? = some th from hth]
      rfl
    exact switchTo_ok (k := { n with slice := 0 }) ⟨hn.1.congr rfl, hn.2⟩ hs ht hne
  · exact ⟨_, rfl⟩

/-! ## The end of a turn -/

/-- Stack pointers tell threads apart, and the pages that are out are accounted for. If `off`,
interrupts are disabled. -/
structure Fit (k : Core) (off : Bool) : Prop where
  inv : (masking off).inv k
  books : k.books.Sound

theorem books_of_acts (h : ReflTransGen Act k k') (hb : k.books.Sound) : k'.books.Sound := by
  induction h with
  | refl => exact hb
  | tail _ ha ih => exact (ha.books_sound ih).1

theorem Fit.act {α : Type} {a : α} {off : Bool} {x : CoreM α} (h : k.Fit off)
    (hx : (masking off).Upholds x) (hm : Makes Act x) (he : x k = .ok a k') : k'.Fit off :=
  ⟨((hx k h.inv).ok a k' he).2, books_of_acts ((hm k).ok a k' he) h.books⟩

theorem Fit.mask {off was : Bool} (h : k.Fit off) (hm : onMachine Machine.mask k = .ok was m) :
    m.Fit true := by
  have hb := books_of_acts ((makes_mask k).ok _ _ hm) h.books
  cases hm
  exact ⟨⟨⟨h.inv.1.number, h.inv.1.sp, h.inv.1.apart⟩, fun _ => Flags.isOn_set_self _ _ _⟩, hb⟩

theorem unmask_ok (was : Bool) (k : Core) : ∃ k', onMachine (Machine.unmask was) k = .ok () k' := by
  cases was <;> exact ⟨_, rfl⟩

/-- A part of an operation that does not fail with interrupts disabled can be done with interrupts
masked. -/
theorem Fit.masked_ok {off : Bool} {body : CoreM Unit} (h : k.Fit off)
    (hb : ∀ m, Quiet k m → m.Fit true → ∃ m', body m = .ok () m') :
    ∃ k', masked body k = .ok () k' := by
  obtain ⟨was, m, hm⟩ : ∃ was m, onMachine Machine.mask k = .ok was m := ⟨_, _, rfl⟩
  obtain ⟨m', hx⟩ := hb m (quiet_mask hm) (h.mask hm)
  obtain ⟨k', hk'⟩ := unmask_ok was m'
  refine ⟨k', ?_⟩
  rw [masked, bind_of_ok hm, bind_of_ok hx, bind_of_ok hk']
  rfl

theorem Sound.mem_threads (hk : k.Sound g) (ht : t ∈ k.ready.entries) : t ∈ k.threads := by
  obtain ⟨th, hth⟩ := hk.live_of_mem (p := .ready) ht
  rw [Std.ExtTreeMap.mem_iff_isSome_getElem?, hth]
  rfl

/-- **Turns end.** In good order, with interrupts disabled, the current thread can end its turn. -/
theorem Sound.endTurn_ok (hk : k.Sound g) (hp : g.terms.pristine = true) (hg : g.state ≠ .running)
    (hf : k.Fit true) : ∃ k', Core.endTurn g.state k = .ok () k' := by
  have hoff := hf.inv.2 rfl
  obtain ⟨cth, hcth, hrun⟩ : ∃ cth, k.threads[k.current]? = some cth ∧ cth.state = .running :=
    live_of_state hk.seating.current_running
  obtain ⟨m, hr⟩ := reclaim_ok (k := k) k.dead.length (by simp [books])
    (by rw [hf.books.inUse]; simp [books])
  have hq := quiet_reclaim hr
  have hinv := ((masking_reclaim _ k hf.inv).ok _ _ hr).2
  have hcth' : m.threads[k.current]? = some cth := hq.threads ▸ hcth
  let m₁ := m.mapThread k.current fun th => { th with state := g.state }
  have hkeep : ∀ {v : ThreadId}, (∃ th, k.threads[v]? = some th) →
      ∃ th, m₁.threads[v]? = some th := by
    rintro v ⟨th, hth⟩
    rw [getElem?_mapThread, hq.threads, hcth]
    split
    · exact ⟨_, rfl⟩
    · exact ⟨th, hth⟩
  have hsrc : m₁.threads[m₁.current]? = some { cth with state := g.state } := by
    rw [show m₁.current = k.current from hq.current, getElem?_mapThread, if_pos rfl, hq.threads,
      hcth]
    rfl
  have hready : ∀ t ∈ m₁.ready.entries, ∃ th, m₁.threads[t]? = some th := fun t ht =>
    hkeep (hk.live_of_mem (p := .ready) (show t ∈ k.ready.entries from hq.ready ▸ ht))
  have hidle : ∃ th, m₁.threads[m₁.idle]? = some th := by
    obtain ⟨x, hx⟩ := hk.seating.idle_live
    obtain ⟨th, hth, -⟩ := live_of_state hx
    exact hkeep ⟨th, show k.threads[m.idle]? = some th from hq.idle ▸ hth⟩
  have hintact : ∀ (t : ThreadId) th, m₁.threads[t]? = some th → th.intact = true := by
    intro t th hth
    rw [getElem?_mapThread, hq.threads] at hth
    split at hth
    · obtain ⟨th', hth', rfl⟩ := Option.map_eq_some_iff.mp hth
      exact (hk.registered.thread _ _ hth').2.2 hp
    · exact (hk.registered.thread _ _ hth).2.2 hp
  obtain ⟨k', h'⟩ :=
    dispatch_ok (k := m₁) ⟨hinv.1.mapThread fun _ h => h, hinv.2⟩ hsrc hg hready hidle hintact
  refine ⟨k', ?_⟩
  unfold Core.endTurn
  rw [get_bind_eq, demand_bind_of hoff, get_bind_eq, ask_bind_of_ok (thread_eq_ok_iff.mpr hcth),
    demand_bind_of hrun, get_bind_eq, bind_of_ok hr, changeThread_bind_of_ok hcth']
  exact h'

theorem Sound.yieldNow_ok (hk : k.Sound g) (hg : g.state = .running) (hp : g.terms.pristine = true)
    (hf : k.Fit false) (hout : k.machine.inHandler = false) :
    ∃ k', Core.yieldNow k = .ok () k' := by
  obtain ⟨th, hth, hr, hid⟩ := hk.running_ok hp
  unfold Core.yieldNow
  rw [bind_of_ok (outsideHandler_eq_ok (u := ()).mpr ⟨hout, rfl⟩), ask_bind_of_ok hr]
  refine hf.masked_ok fun m hq hfm => ?_
  have hm := hk.quiet hq
  rw [get_bind_eq, hid, ← hq.current]
  split
  · exact (hm.stand hg .blocked (by decide)).endTurn_ok hp (by simp) hfm
  · rename_i hi
    have hnot : m.current ∉ m.ready.entries :=
      hm.seating.current_stands (fun p => hg ▸ p.state_ne_running) .ready
    rw [bind_of_ok (enqueueReady_eq_ok (u := ()).mpr ⟨hnot, rfl⟩)]
    exact (hm.lineUp hg hi).endTurn_ok hp (by simp) ⟨⟨hfm.inv.1.congr rfl, hfm.inv.2⟩, hfm.books⟩

theorem Sound.outranked_ok (hk : k.Sound g) : ∃ b, k.outranked = .ok b := by
  have hask : k.mostUrgent k.ready = .ok (k.ready.foremost k.outranks) :=
    mostUrgent_eq_ok.mpr ⟨fun t ht => hk.mem_threads ht, rfl⟩
  obtain ⟨th, hth, -⟩ := live_of_state hk.seating.current_running
  have hth' : k.threads[k.current]? = some th := hth
  unfold outranked
  rw [hask]
  cases k.ready.foremost k.outranks with
  | none => exact ⟨false, rfl⟩
  | some best =>
    by_cases hi : k.current = k.idle
    · exact ⟨true, by simp [hi, bind, Except.bind, pure, Except.pure]⟩
    · exact ⟨k.outranks best k.current, by simp [hi, hth', bind, Except.bind, pure, Except.pure]⟩

/-- The thread at work can give way: at once, or at the end of the handler. -/
theorem Sound.preempt_ok (hk : k.Sound g) (hg : g.state = .running) (hp : g.terms.pristine = true)
    (hf : k.Fit false) : ∃ k', Core.preempt k = .ok () k' := by
  obtain ⟨b, hb⟩ := hk.outranked_ok
  unfold Core.preempt
  rw [ask_bind_of_ok hb]
  split
  · rw [get_bind_eq]
    split
    · exact ⟨_, rfl⟩
    · rename_i hin
      exact hk.yieldNow_ok hg hp hf (by simpa using hin)
  · exact ⟨k, rfl⟩

/-! ## A contended lock -/

/-- A thread can wait for a lock that another thread holds, unless the chain of waits leads from
that thread back to it. -/
theorem Sound.acquire_ok (hk : k.Sound g) (hg : g.state = .running) (hp : g.terms.pristine = true)
    (hf : k.Fit false) (hout : k.machine.inHandler = false) (hi : k.current ≠ k.idle)
    (hh : k.waits.holder l = some holder) (hne : holder ≠ k.current)
    (hto : ¬ ReflTransGen k.waits.Awaits holder k.current) :
    ∃ k', Core.acquire l k = .ok () k' := by
  obtain ⟨o, hl, hoh⟩ := Option.bind_eq_some_iff.mp hh
  obtain ⟨th, hth, hr, hid⟩ := hk.running_ok hp
  unfold Core.acquire
  rw [bind_of_ok (outsideHandler_eq_ok (u := ()).mpr ⟨hout, rfl⟩), ask_bind_of_ok hr]
  refine hf.masked_ok fun m hq hfm => ?_
  have hm := (hk.quiet hq).stand hg .blocked (by decide)
  have hstands : m.seating.Stands k.current := by
    rw [hq.seating]
    exact hk.seating.current_stands fun p => hg ▸ p.state_ne_running
  have hblocked : m.seating.about .blocked k.current = some .blocked := by
    rw [← hq.current]
    exact about_current m _
  have hmh : m.waits.holder l = some holder := hq.waits ▸ hh
  -- The thread lines up, and the walk along the chain comes to its end.
  obtain ⟨n, hn⟩ : ∃ n, Core.waitForLock k.current l holder m = .ok () n := by
    rcases hm.waitForLock_outcome hmh (hq.threads ▸ hth) hstands with hok | ⟨_, _, -, hback⟩
    · exact hok
    · exact absurd (hq.waits ▸ hback) hto
  obtain ⟨n', hn'⟩ := say_ok (.waitsForHolder k.current l holder) n
  obtain ⟨hns, -⟩ := hm.waitForLock hmh hblocked (by rwa [hq.idle]) hstands hn
  have hfn : n'.Fit true :=
    (hfm.act (masking_waitForLock _ _ _) (makes_waitForLock _ _ _) hn).act (masking_say _)
      (makes_say _) hn'
  rw [ask_bind_of_ok (lock_eq_ok_iff.mpr (hq.objects ▸ hl))]
  simp only [hoh, hid]
  rw [demand_bind_of (by simpa using hne), bind_of_ok hn, bind_of_ok hn']
  exact (hns.quiet (quiet_say hn')).endTurn_ok hp (by simp) hfn

end Core

namespace Session

/-- The stacks are in order in every state of a run. -/
theorem Reached.fit {allowed : Session → Call → Prop} {frames : List Bool} {s : Session}
    (h : Reached allowed frames s) : s.core.Fit false := by
  obtain ⟨_, _, _, -, hboot, hlater⟩ := h.later
  exact ⟨⟨h.anchored, Bool.noConfusion⟩, (hlater.booked hboot).books⟩

end Session

end ThreadCore
