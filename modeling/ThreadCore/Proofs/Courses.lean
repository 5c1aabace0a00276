import ThreadCore.Proofs.Handlers
import ThreadCore.Proofs.Lifetimes
import ThreadCore.Proofs.Parts

/-!
# Courses

Whatever an operation of the core is for, it amounts to a sequence of a few kinds of moves
(`Core.Move`). Most are acts, which leave the processor where it is and the stacks to whom they
belong. The others are the birth of a thread, the end of a turn, and a change of the handler flag. A
course is a sequence of moves.

A rule that every move keeps is so kept by every operation, in all states on its way, and no matter
which discipline its callers observe.
-/

namespace ThreadCore

open Relation (ReflTransGen)

/-- No number is given twice: what is in a table was there or has got a new number. -/
structure Objects.Succeeds (o o' : Objects) : Prop where
  lastId_le : o.lastId ≤ o'.lastId
  semaphore : ∀ s, s ∈ o'.semaphores → s ∈ o.semaphores ∨ o.lastId < s ∧ s ≤ o'.lastId
  lock : ∀ l, l ∈ o'.locks → l ∈ o.locks ∨ o.lastId < l ∧ l ≤ o'.lastId
  condition : ∀ c, c ∈ o'.conditions → c ∈ o.conditions ∨ o.lastId < c ∧ c ≤ o'.lastId

theorem Page.frame_writeByte {p q : Page} {offset : Nat} {value : UInt8}
    (h : p.writeByte offset value = .ok q) : q.frame = p.frame := by
  unfold writeByte at h
  split at h
  · obtain rfl := Except.ok.inj h
    rfl
  · cases h

namespace Core

variable {α β : Type} {k k' m : Core} {t s l c : ThreadId} {u : Unit}

/-! ## Moves -/

/-- A step within the turn of the current thread. -/
inductive Act (k : Core) : Core → Prop
  /-- Flags, timer, counts, console text and requests to yield. -/
  | clerical (w : Machine) (console : Console) (usage : Usage) (output : Array String) (slice : Nat)
      (pending : Bool) : w.pool = k.machine.pool → w.handedOut = k.machine.handedOut →
      w.inHandler = k.machine.inHandler →
      Act k { k with
        machine := w, console := console, usage := usage, slice := slice, yieldPending := pending
        journal := { k.journal with output := output } }
  /-- An event of a task that ends. -/
  | taskExited (task : String) (status : Int32) :
      Act k { k with journal := k.journal.addEvent (.taskExited task status) }
  /-- A thread waits for something else, or is differently urgent. -/
  | reassess (t : ThreadId) (f : Thread → Thread) :
      (∀ th, { f th with
        base := th.base, priority := th.priority, waitsFor := th.waitsFor, donors := th.donors
        wakeAt := th.wakeAt } = th) → Act k (k.mapThread t f)
  /-- A stack gets another content. -/
  | overwrite (t : ThreadId) (th : Thread) (stack : Page) : k.threads[t]? = some th →
      stack.frame = th.stack.frame → Act k (k.mapThread t fun th => { th with stack := stack })
  | family (t : ThreadId) (f : Family → Family) : Act k (k.mapFamily t f)
  | sleepers (q : Queue) : Act k { k with sleepers := q }
  | objects (o : Objects) : k.objects.Succeeds o → Act k { k with objects := o }
  /-- A blocked thread becomes ready. -/
  | awaken (t : ThreadId) (th : Thread) : t ≠ k.idle → k.threads[t]? = some th →
      th.state = .blocked → t ∉ k.ready →
      Act k { k.mapThread t fun th => { th with state := .ready } with
        ready := ⟨k.ready.entries ++ [t]⟩ }

/-- The core after the pool has handed out a page. -/
def pageTaken (k : Core) : Core :=
  { k with
    machine := { k.machine with
      pool := { k.machine.pool with inUse := k.machine.pool.inUse + 1 }
      handedOut := k.machine.handedOut + 1 }
    journal := k.journal.addEvent (.allocated (k.machine.handedOut + 1)) }

/-- An attempt to make a thread. -/
inductive Birth (k : Core) : Core → Prop
  | refused : k.machine.pool.capacity ≤ k.machine.pool.inUse →
      Birth k { k with journal := k.journal.addEvent .refused }
  | enlisted (name : String) (priority : Priority) (entry : Option String) (task : Option Task) :
      k.machine.pool.inUse < k.machine.pool.capacity → k.nextThread < Word.greatest →
      Birth k (k.pageTaken.enlist (.create k.nextThread (Name.clip name) priority
        (.blank (k.machine.handedOut + 1)) entry task))

/-- The current thread ends its turn: it blocks, lines up behind the threads that are ready, or
dies. The idle thread only blocks. -/
inductive Turn (k : Core) : Core → Prop
  | block {k' : Core} : endTurn .blocked k = .ok () k' → Turn k k'
  | lineUp {th : Thread} {m k' : Core} : k.threads[k.current]? = some th → th.id ≠ k.idle →
      enqueueReady th.id k = .ok () m → endTurn .ready m = .ok () k' → Turn k k'
  | die {k' : Core} : (∀ th, k.threads[k.current]? = some th → th.id ≠ k.idle) →
      endTurn .dying k = .ok () k' → Turn k k'

/-- What the core does at a time. -/
inductive Move (k : Core) : Core → Prop
  | act {k' : Core} : Act k k' → Move k k'
  | birth {k' : Core} : Birth k k' → Move k k'
  | turn {k' : Core} : Turn k k' → Move k k'
  | handler (on : Bool) : Move k { k with machine := { k.machine with inHandler := on } }

/-- How a move halts midway. All others halt where they start, if at all. -/
inductive Fault (k : Core) : Halt → Core → Prop
  /-- A blocked thread is in the ready queue. -/
  | queuedTwice {t : ThreadId} {th : Thread} {k' : Core} : k.threads[t]? = some th →
      th.state = .blocked → t ∈ k.ready → Fault k (.queuedTwice t) k'
  /-- There is no number for a new thread. -/
  | overflow : Word.greatest ≤ k.nextThread → Fault k .overflow k.pageTaken
  | block {h : Halt} {k' : Core} : endTurn .blocked k = .error h k' → Fault k h k'
  | lineUp {th : Thread} {h : Halt} {k' : Core} : k.threads[k.current]? = some th → th.id ≠ k.idle →
      (enqueueReady th.id >>= fun _ => endTurn .ready) k = .error h k' → Fault k h k'
  | die {h : Halt} {k' : Core} : (∀ th, k.threads[k.current]? = some th → th.id ≠ k.idle) →
      endTurn .dying k = .error h k' → Fault k h k'

/-- A sequence of moves. -/
abbrev Course : Core → Core → Prop := ReflTransGen Move

/-- What every move keeps, a course keeps. -/
theorem Course.keeps {P : Core → Prop} (h : Course k k') (hk : P k)
    (hmove : ∀ m m', P m → Move m m' → P m') : P k' := by
  induction h with
  | refl => exact hk
  | tail _ h ih => exact hmove _ _ ih h

theorem course_of_acts (h : ReflTransGen Act k k') : Course k k' :=
  ReflTransGen.mono (fun _ _ => Move.act) _ _ h

/-- An act leaves the processor to the current thread, and threads keep their numbers. -/
theorem Act.stays (h : Act k k') : k'.current = k.current ∧ k'.idle = k.idle ∧
    ∀ t : ThreadId, (k'.threads[t]?).map Thread.id = (k.threads[t]?).map Thread.id := by
  cases h with
  | reassess t f hf =>
    have hid : ∀ th, (f th).id = th.id := fun th => (congrArg Thread.id (hf th) :)
    exact ⟨rfl, rfl, map_getElem?_mapThread hid⟩
  | overwrite t th stack =>
    exact ⟨rfl, rfl,
      map_getElem?_mapThread (g := Thread.id) (f := fun th => { th with stack := stack })
      fun _ => rfl⟩
  | family t f =>
    exact ⟨rfl, rfl, map_getElem?_mapThread (g := Thread.id)
      (f := fun th => { th with family := f th.family }) fun _ => rfl⟩
  | awaken t th =>
    exact ⟨rfl, rfl,
      map_getElem?_mapThread (g := Thread.id) (f := fun th => { th with state := .ready })
      fun _ => rfl⟩
  | _ => exact ⟨rfl, rfl, fun _ => rfl⟩

theorem acts_stay (h : ReflTransGen Act k k') : k'.current = k.current ∧ k'.idle = k.idle ∧
    ∀ t : ThreadId, (k'.threads[t]?).map Thread.id = (k.threads[t]?).map Thread.id := by
  induction h with
  | refl => exact ⟨rfl, rfl, fun _ => rfl⟩
  | tail _ h ih =>
    obtain ⟨hc, hi, ht⟩ := h.stays
    exact ⟨hc.trans ih.1, hi.trans ih.2.1, fun t => (ht t).trans (ih.2.2 t)⟩

/-! ## Steps made of moves -/

/-- If the step succeeds from `k`, it amounts to a sequence of `R`. If it halts, it halts after such
a sequence or in a move that follows one. -/
structure MakesAt (R : Core → Core → Prop) (x : CoreM α) (k : Core) : Prop where
  ok : ∀ a k', x k = .ok a k' → ReflTransGen R k k'
  halts : ∀ h k', x k = .error h k' →
    ReflTransGen R k k' ∨ ∃ m, ReflTransGen R k m ∧ Fault m h k'

/-- The step does so from every state. -/
def Makes (R : Core → Core → Prop) (x : CoreM α) : Prop := ∀ k, MakesAt R x k

section

variable {R : Core → Core → Prop}

/-- A step that halts where it starts. -/
theorem MakesAt.of_ok {x : CoreM α} (hok : ∀ a k', x k = .ok a k' → ReflTransGen R k k')
    (hhalts : ∀ h k', x k = .error h k' → k' = k) : MakesAt R x k :=
  ⟨hok, fun h k' hx => .inl (hhalts h k' hx ▸ .refl)⟩

theorem MakesAt.bind {x : CoreM α} {g : α → CoreM β} (hx : MakesAt R x k)
    (hg : ∀ a m, x k = .ok a m → MakesAt R (g a) m) : MakesAt R (x >>= g) k := by
  constructor
  · intro _ k' h
    obtain ⟨a, m, hm, h⟩ := bind_eq_ok.mp h
    exact (hx.ok a m hm).trans ((hg a m hm).ok _ k' h)
  · intro h k' he
    rcases bind_eq_error.mp he with he | ⟨a, m, hm, he⟩
    · exact hx.halts h k' he
    · have hfirst := hx.ok a m hm
      rcases (hg a m hm).halts h k' he with hrest | ⟨n, hrest, hf⟩
      · exact .inl (hfirst.trans hrest)
      · exact .inr ⟨n, hfirst.trans hrest, hf⟩

theorem Makes.bind {x : CoreM α} {g : α → CoreM β} (hx : Makes R x) (hg : ∀ a, Makes R (g a)) :
    Makes R (x >>= g) :=
  fun k => (hx k).bind fun a m _ => hg a m

theorem makes_pure (a : α) : Makes R (pure a) := by
  refine fun k => .of_ok (fun _ k' h => ?_) fun _ _ h => nomatch h
  obtain ⟨-, rfl⟩ := pure_eq_ok.mp h
  exact .refl

theorem makes_get : Makes R get := by
  refine fun k => .of_ok (fun _ k' h => ?_) fun _ _ h => nomatch h
  cases h
  exact .refl

theorem MakesAt.get_bind {g : Core → CoreM β} (hg : MakesAt R (g k) k) : MakesAt R (get >>= g) k :=
  ⟨hg.ok, hg.halts⟩

theorem makes_throw (e : Halt) : Makes R (throw e : CoreM α) := by
  refine fun k => .of_ok (fun _ _ h => nomatch h) fun h k' hx => ?_
  cases hx
  rfl

theorem makes_modify {g : Core → Core} (hg : ∀ k, R k (g k)) : Makes R (modify g) := by
  refine fun k => .of_ok (fun _ k' h => ?_) fun _ _ h => nomatch h
  rw [modify_eq_ok] at h
  exact h ▸ .single (hg k)

theorem makes_ask (question : Core → Except Halt α) : Makes R (ask question) := by
  refine fun k => .of_ok (fun _ k' h => ?_) fun h k' hx => (ask_eq_error_iff.mp hx).2
  obtain ⟨-, rfl⟩ := ask_eq_ok_iff.mp h
  exact .refl

theorem MakesAt.ask_bind {question : Core → Except Halt α} {g : α → CoreM β}
    (hg : ∀ a, question k = .ok a → MakesAt R (g a) k) : MakesAt R (ask question >>= g) k := by
  refine (makes_ask question k).bind fun a m h => ?_
  obtain ⟨hq, rfl⟩ := ask_eq_ok_iff.mp h
  exact hg a hq

theorem makes_demand (p : Prop) [Decidable p] (e : Halt) : Makes R (demand p e : CoreM Unit) := by
  unfold demand
  split
  · exact makes_pure _
  · exact makes_throw _

theorem MakesAt.demand_bind {p : Prop} [Decidable p] {e : Halt} {g : Unit → CoreM β}
    (hg : p → MakesAt R (g ()) k) : MakesAt R (demand p e >>= g) k := by
  refine (makes_demand p e k).bind fun _ m h => ?_
  obtain ⟨hp, rfl⟩ := demand_eq_ok.mp h
  exact hg hp

theorem partwise_makes (R : Core → Core → Prop) : Partwise fun _ => Makes R where
  bind := .bind
  pure := makes_pure
  get := makes_get
  ask := makes_ask
  throw := makes_throw

theorem makes_outsideHandler (attempt : Attempt) : Makes R (outsideHandler attempt) :=
  (partwise_makes R).outsideHandler attempt

theorem Makes.mono {S : Core → Core → Prop} {x : CoreM α} (hx : Makes R x)
    (hR : ∀ k k', R k k' → S k k') : Makes S x := fun k =>
  ⟨fun a k' h => ReflTransGen.mono hR _ _ ((hx k).ok a k' h), fun e k' h =>
    ((hx k).halts e k' h).imp (ReflTransGen.mono hR _ _) fun ⟨m, hm, hf⟩ =>
      ⟨m, ReflTransGen.mono hR _ _ hm, hf⟩⟩

theorem Makes.moves {x : CoreM α} (h : Makes Act x) : Makes Move x := fun k =>
  ⟨fun a k' hx => course_of_acts ((h k).ok a k' hx), fun e k' hx =>
    ((h k).halts e k' hx).imp course_of_acts fun ⟨m, hm, hf⟩ => ⟨m, course_of_acts hm, hf⟩⟩

end

/-! ### The machine -/

theorem Act.machine {w : Machine} (hp : w.pool = k.machine.pool)
    (ho : w.handedOut = k.machine.handedOut) (hi : w.inHandler = k.machine.inHandler) :
    Act k { k with machine := w } :=
  .clerical w k.console k.usage k.journal.output k.slice k.yieldPending hp ho hi

theorem onMachine_eq_error {step : MachineM α} {h : Halt} (hx : onMachine step k = .error h k') :
    ∃ w, step k.machine = .error h w ∧ k' = { k with machine := w } := by
  unfold onMachine at hx
  cases hs : step k.machine with
  | ok b w => simp [hs] at hx
  | error e w =>
    simp only [hs, EStateM.Result.error.injEq] at hx
    obtain ⟨rfl, rfl⟩ := hx
    exact ⟨w, rfl, rfl⟩

/-- A step of the machine that halts, if at all, before it has changed anything. -/
theorem makes_onMachine {R : Core → Core → Prop} {step : MachineM α}
    (hok : ∀ (k : Core) a w, step k.machine = .ok a w → R k { k with machine := w })
    (hhalts : ∀ w h w', step w = .error h w' → w' = w) : Makes R (onMachine step) := by
  refine fun k => .of_ok (fun a k' h => ?_) fun h k' hx => ?_
  · obtain ⟨w, hw, rfl⟩ := onMachine_eq_ok.mp h
    exact .single (hok k a w hw)
  · obtain ⟨w, hw, rfl⟩ := onMachine_eq_error hx
    rw [hhalts _ _ _ hw]

theorem makes_withInterrupts (on : Bool) :
    Makes Act (onMachine (modify (·.withInterrupts on))) := by
  refine makes_onMachine (fun k _ w hw => ?_) fun _ _ _ h => nomatch h
  rw [modify_eq_ok] at hw
  subst hw
  exact .machine rfl rfl rfl

theorem makes_mask : Makes Act (onMachine Machine.mask) := by
  refine makes_onMachine (fun k _ w hw => ?_) fun _ _ _ h => nomatch h
  rw [Machine.mask, get_bind_eq_ok, modify_bind_eq_ok, pure_eq_ok] at hw
  obtain ⟨-, rfl⟩ := hw
  exact .machine rfl rfl rfl

theorem makes_unmask (was : Bool) : Makes Act (onMachine (Machine.unmask was)) := by
  cases was with
  | true => exact makes_withInterrupts true
  | false =>
    refine makes_onMachine (fun k _ w hw => ?_) fun _ _ _ h => nomatch h
    obtain ⟨-, rfl⟩ := pure_eq_ok.mp hw
    exact .machine rfl rfl rfl

theorem makes_advance : Makes Act (onMachine Machine.advance) := by
  refine makes_onMachine (fun k _ w hw => ?_) fun w h w' hw => ?_
  · rw [Machine.advance, get_bind_eq_ok] at hw
    cases hn : Word.next? k.machine.ticks with
    | none => simp only [hn, throw_eq_ok] at hw
    | some now =>
      simp only [hn, modify_bind_eq_ok, pure_eq_ok] at hw
      obtain ⟨-, rfl⟩ := hw
      exact .machine rfl rfl rfl
  · rw [Machine.advance, get_bind_eq_error] at hw
    cases hn : Word.next? w.ticks with
    | none =>
      simp only [hn] at hw
      cases hw
      rfl
    | some now =>
      simp only [hn] at hw
      cases hw

theorem Makes.masked {body : CoreM α} (hb : Makes Act body) : Makes Act (masked body) :=
  makes_mask.bind fun _ => hb.bind fun _ => (makes_unmask _).bind fun _ => makes_pure _

theorem Makes.masked_moves {body : CoreM α} (hb : Makes Move body) :
    Makes Move (Core.masked body) :=
  makes_mask.moves.bind fun _ => hb.bind fun _ => (makes_unmask _).moves.bind fun _ => makes_pure _

/-! ### The journal and the threads -/

theorem makes_write (text : String) : Makes Act (write text) :=
  makes_modify fun k => .clerical k.machine k.console k.usage _ k.slice k.yieldPending rfl rfl rfl

theorem makes_writeLine (s : Severity) (text : String) : Makes Act (writeLine s text) := by
  refine makes_get.bind fun k => ?_
  split
  · exact makes_write _
  · exact makes_pure _

theorem makes_say (n : Notice) : Makes Act (say n) := makes_writeLine _ _

theorem discreet_acts : Discreet fun _ => Makes Act where
  toPartwise := partwise_makes Act
  say := makes_say
  masked := .masked

theorem discreet_moves : Discreet fun _ => Makes Move where
  toPartwise := partwise_makes Move
  say n := (makes_say n).moves
  masked := .masked_moves

/-- The moves come last that are no acts. -/
theorem closes_moves : Closes (fun _ => Makes Act) fun _ => Makes Move where
  within := discreet_acts
  of := Makes.moves
  bind hx := discreet_moves.bind hx.moves
  bind_pure := discreet_moves.closes.bind_pure
  masked := .masked_moves

theorem makes_changeThread (t : ThreadId) {f : Thread → Thread}
    (hf : ∀ th, { f th with
      base := th.base, priority := th.priority, waitsFor := th.waitsFor, donors := th.donors
      wakeAt := th.wakeAt } = th) : Makes Act (changeThread t f) :=
  (makes_ask _).bind fun _ => makes_modify fun _ => .reassess t f hf

theorem makes_changeFamily (t : ThreadId) (f : Family → Family) : Makes Act (changeFamily t f) :=
  (makes_ask _).bind fun _ => makes_modify fun _ => .family t f

/-! ### Objects -/

theorem makes_changeSemaphore (s : ObjectId) (f : Semaphore → Semaphore) :
    Makes Act (changeSemaphore s f) :=
  (makes_ask _).bind fun _ => makes_modify fun _ => .objects _
    ⟨le_rfl, fun _ h => .inl (Std.ExtTreeMap.mem_modify.mp h), fun _ => .inl, fun _ => .inl⟩

theorem makes_changeLock (l : ObjectId) (f : Lock → Lock) : Makes Act (changeLock l f) :=
  (makes_ask _).bind fun _ => makes_modify fun _ => .objects _
    ⟨le_rfl, fun _ => .inl, fun _ h => .inl (Std.ExtTreeMap.mem_modify.mp h), fun _ => .inl⟩

theorem makes_changeCondition (c : ObjectId) (f : Condition → Condition) :
    Makes Act (changeCondition c f) :=
  (makes_ask _).bind fun _ => makes_modify fun _ => .objects _
    ⟨le_rfl, fun _ => .inl, fun _ => .inl, fun _ h => .inl (Std.ExtTreeMap.mem_modify.mp h)⟩

/-- A number is new if it is the one after the last, and was not there if it is another one. -/
theorem mem_insert_next {γ : Type} {table : Std.ExtTreeMap ObjectId γ} {last id : ObjectId} {x : γ}
    (h : id ∈ table.insert (last + 1) x) : id ∈ table ∨ last < id ∧ id ≤ last + 1 := by
  rw [Std.ExtTreeMap.mem_insert, compare_eq_iff_eq] at h
  rcases h with rfl | h
  · exact .inr ⟨Nat.lt_succ_self _, le_rfl⟩
  · exact .inl h

theorem increment_eq_error {n : Nat} {h : Halt} :
    increment n k = .error h k' ↔ Word.greatest ≤ n ∧ h = .overflow ∧ k' = k := by
  unfold increment
  cases hn : Word.next? n with
  | none =>
    simp only [throw, throwThe, MonadExceptOf.throw, EStateM.throw, EStateM.Result.error.injEq,
      Word.next?_eq_none_iff.mp hn, true_and, eq_comm]
  | some m =>
    have := (Word.next?_eq_some_iff.mp hn).1
    simp only [pure, EStateM.pure, reduceCtorEq, false_iff]
    omega

/-- A new object takes the next number. -/
theorem makes_newObject {f : ObjectId → Core → Core}
    (hf : ∀ k : Core, Act k
      (f (k.objects.lastId + 1)
        { k with objects := { k.objects with lastId := k.objects.lastId + 1 } })) :
    Makes Act (do
      let id ← freshObject
      modify (f id)
      return id) := by
  refine fun k => .of_ok (fun _ k' h => ?_) fun h k' hx => ?_
  · simp only [bind_eq_ok, freshObject_eq_ok, modify_eq_ok, pure_eq_ok] at h
    obtain ⟨_, _, ⟨-, rfl, rfl⟩, _, _, rfl, -, rfl⟩ := h
    exact .single (hf k)
  · rcases bind_eq_error.mp hx with hx | ⟨_, _, -, hx⟩
    · unfold freshObject at hx
      rw [get_bind_eq_error] at hx
      rcases bind_eq_error.mp hx with hx | ⟨_, _, -, hx⟩
      · exact (increment_eq_error.mp hx).2.2
      · cases hx
    · cases hx

theorem makes_newSemaphore (value : Nat) : Makes Act (newSemaphore value) :=
  makes_newObject fun _ => .objects _
    ⟨Nat.le_succ _, fun _ => mem_insert_next, fun _ => .inl, fun _ => .inl⟩

theorem makes_newLock : Makes Act newLock :=
  makes_newObject fun _ => .objects _
    ⟨Nat.le_succ _, fun _ => .inl, fun _ => mem_insert_next, fun _ => .inl⟩

theorem makes_newCondition : Makes Act newCondition :=
  makes_newObject fun _ => .objects _
    ⟨Nat.le_succ _, fun _ => .inl, fun _ => .inl, fun _ => mem_insert_next⟩

theorem makes_dropSemaphore (s : ObjectId) : Makes Act (dropSemaphore s) :=
  makes_modify fun _ => .objects _ ⟨le_rfl, fun _ h => .inl (Std.ExtTreeMap.mem_of_mem_erase h),
    fun _ => .inl, fun _ => .inl⟩

theorem makes_destroySemaphore (s : ObjectId) : Makes Act (destroySemaphore s) :=
  discreet_acts.destroySemaphore s (makes_dropSemaphore s)

theorem makes_destroyLock (l : ObjectId) : Makes Act (destroyLock l) :=
  discreet_acts.destroyLock l <| makes_modify fun _ => .objects _
    ⟨le_rfl, fun _ => .inl, fun _ h => .inl (Std.ExtTreeMap.mem_of_mem_erase h), fun _ => .inl⟩

theorem makes_destroyCondition (c : ObjectId) : Makes Act (destroyCondition c) :=
  discreet_acts.destroyCondition c <| makes_modify fun _ => .objects _
    ⟨le_rfl, fun _ => .inl, fun _ => .inl, fun _ h => .inl (Std.ExtTreeMap.mem_of_mem_erase h)⟩

/-! ### Turns -/

/-- A thread that was blocked takes its place in the ready queue, or is there already. -/
theorem makesAt_awaken {t : ThreadId} {th : Thread} (hi : t ≠ k.idle)
    (hth : k.threads[t]? = some th) (hb : th.state = .blocked) :
    MakesAt Act (do changeThread t fun th => { th with state := .ready }; enqueueReady t) k := by
  constructor
  · intro u k' h
    simp only [bind_eq_ok, changeThread_eq_ok, enqueueReady, ask_eq_ok_iff, Queue.push_eq_ok_iff,
      modify_eq_ok] at h
    obtain ⟨_, _, ⟨-, rfl⟩, ⟨entries⟩, _, ⟨⟨hnot, hq⟩, rfl⟩, rfl⟩ := h
    obtain rfl : entries = _ := hq
    exact .single (.awaken t th hi hth hb hnot)
  · intro h k' hx
    rw [changeThread_bind_of_ok hth] at hx
    unfold enqueueReady at hx
    rcases bind_eq_error.mp hx with hx | ⟨_, _, -, hx⟩
    · obtain ⟨hq, rfl⟩ := ask_eq_error_iff.mp hx
      unfold Queue.push at hq
      split at hq
      · rename_i hmem
        cases hq
        exact .inr ⟨k, .refl, .queuedTwice hth hb hmem⟩
      · cases hq
    · cases hx

/-- A masked section that starts from a given state. -/
theorem MakesAt.masked {body : CoreM α} {R : Core → Core → Prop} (hR : ∀ k k', Act k k' → R k k')
    (hb : ∀ m, Quiet k m → MakesAt R body m) : MakesAt R (Core.masked body) k :=
  (makes_mask.mono hR k).bind fun was m hm => (hb m (quiet_mask hm)).bind fun a n _ =>
    ((makes_unmask was).mono hR n).bind fun _ v _ => makes_pure a v

theorem makes_unblock (t : ThreadId) : Makes Act (unblock t) := by
  refine fun k => .get_bind (.demand_bind fun hi => .masked (fun _ _ => id) fun m hq => ?_)
  exact .ask_bind fun th hth => .demand_bind fun hb =>
    makesAt_awaken (hq.idle ▸ hi) (thread_eq_ok_iff.mp hth) hb

section

variable {R : Core → Core → Prop} (hact : ∀ k k', Act k k' → R k k')
  (hturn : ∀ k k', Turn k k' → R k k')

include hturn in
theorem makes_endTurn_of : Makes R (endTurn .blocked) := fun k =>
  ⟨fun _ _ h => .single (hturn _ _ (.block h)), fun _ _ h => .inr ⟨k, .refl, .block h⟩⟩

include hact hturn in
theorem makes_yieldNow_of : Makes R yieldNow := by
  refine fun k => (makes_outsideHandler _ k).bind fun _ m hm => ?_
  refine .ask_bind fun th hr => .masked hact fun n hq => .get_bind ?_
  obtain ⟨hth, -, -⟩ := running_eq_ok.mp hr
  rw [← hq.threads, ← hq.current] at hth
  split
  · exact makes_endTurn_of hturn _
  · rename_i hi
    refine ⟨fun _ k' h => ?_, fun e k' h => .inr ⟨_, .refl, .lineUp hth hi h⟩⟩
    obtain ⟨_, m', hm', h⟩ := bind_eq_ok.mp h
    exact .single (hturn _ _ (.lineUp hth hi hm' h))

end

theorem makes_endTurn_blocked : Makes Move (endTurn .blocked) := makes_endTurn_of fun _ _ => .turn

theorem makes_block : Makes Move block := closes_moves.block makes_endTurn_blocked

theorem makes_yieldNow : Makes Move yieldNow := makes_yieldNow_of (fun _ _ => .act) fun _ _ => .turn

theorem makes_preempt : Makes Move preempt :=
  closes_moves.preempt (makes_modify fun k =>
    .clerical k.machine k.console k.usage k.journal.output k.slice true rfl rfl rfl) makes_yieldNow

/-! ### Priorities and sleep -/

theorem makes_refreshPriority (t : ThreadId) : Makes Act (refreshPriority t) :=
  discreet_acts.refreshPriority t fun _ => makes_changeThread t fun _ => rfl

theorem makes_setPriority (p : Priority) : Makes Move (setPriority p) :=
  closes_moves.setPriority p (fun t => makes_changeThread t fun _ => rfl) makes_refreshPriority
    makes_preempt

theorem makes_sleepUntil (tick : Nat) : Makes Move (sleepUntil tick) :=
  closes_moves.sleepUntil tick (fun t => makes_changeThread t fun _ => rfl)
    (fun q => makes_modify fun _ => .sleepers q) makes_endTurn_blocked

theorem makes_sleepFor (ticks : Nat) : Makes Move (sleepFor ticks) :=
  makes_get.bind fun _ => makes_sleepUntil _

theorem makes_wakeDue (now n : Nat) : Makes Act (wakeDue now n) :=
  discreet_acts.wakeDue now n (fun _ => makes_modify fun _ => .sleepers _)
    (fun t => makes_changeThread t fun _ => rfl) makes_unblock

theorem makes_wakeSleepers (now : Nat) : Makes Move (wakeSleepers now) :=
  closes_moves.wakeSleepers now (makes_wakeDue now) makes_preempt

/-! ### Handlers -/

theorem makes_setHandler (on : Bool) : Makes Move (onMachine (Machine.setHandler on)) := by
  refine makes_onMachine (fun k u w hw => ?_) fun w h w' hw => ?_
  · have hx : onMachine (Machine.setHandler on) k = .ok u { k with machine := w } :=
      onMachine_eq_ok.mpr ⟨w, hw, rfl⟩
    rw [setHandler_eq_ok] at hx
    exact hx.2 ▸ .handler on
  · unfold Machine.setHandler at hw
    rw [get_bind_eq_error] at hw
    rcases bind_eq_error.mp hw with hw | ⟨_, _, -, hw⟩
    · unfold demand at hw
      split at hw
      · cases hw
      · cases hw
        rfl
    · cases hw

theorem makes_enterHandler : Makes Move enterHandler :=
  discreet_moves.enterHandler makes_mask.moves (makes_setHandler true)

theorem makes_leaveHandler (was : Bool) : Makes Move (leaveHandler was) := by
  refine discreet_moves.leaveHandler was (makes_setHandler false) (makes_modify fun k => ?_)
    makes_endTurn_blocked makes_yieldNow (makes_unmask was).moves
  exact .act (.clerical k.machine k.console k.usage k.journal.output k.slice false rfl rfl rfl)

theorem makes_request : Makes Act (modify fun k => { k with yieldPending := true }) :=
  makes_modify fun k =>
    .clerical k.machine k.console k.usage k.journal.output k.slice true rfl rfl rfl

theorem makes_yieldOnReturn : Makes Act yieldOnReturn := discreet_acts.yieldOnReturn makes_request

theorem makes_countTick : Makes Act countTick :=
  discreet_acts.countTick fun usage => makes_modify fun k =>
    .clerical k.machine k.console (usage k) k.journal.output k.slice k.yieldPending rfl rfl rfl

theorem makes_countSlice : Makes Act countSlice :=
  discreet_acts.countSlice (fun n => makes_modify fun k =>
    .clerical k.machine k.console k.usage k.journal.output n k.yieldPending rfl rfl rfl)
    makes_request

theorem makes_timerInterrupt : Makes Move timerInterrupt :=
  discreet_moves.timerInterrupt makes_enterHandler makes_countTick.moves makes_countSlice.moves
    makes_wakeSleepers makes_leaveHandler

theorem makes_ticks (n : Nat) : Makes Move (ticks n) :=
  discreet_moves.ticks n makes_advance.moves makes_timerInterrupt

theorem makes_advances (n : Nat) : Makes Act (advance n) := discreet_acts.advance n makes_advance

/-! ### Locks and condition variables -/

theorem makes_addDonor (t d : ThreadId) : Makes Act (addDonor t d) :=
  discreet_acts.addDonor t d fun _ => makes_changeThread t fun _ => rfl

theorem makes_waitForLock (t : ThreadId) (l : ObjectId) (holder : ThreadId) :
    Makes Act (waitForLock t l holder) :=
  discreet_acts.waitForLock t l holder (fun _ => makes_changeLock l _)
    (makes_changeThread t fun _ => rfl) (makes_addDonor _ _) makes_refreshPriority

theorem makes_acquire (l : ObjectId) : Makes Move (acquire l) :=
  closes_moves.acquire l (fun _ => makes_changeLock l _)
    (makes_waitForLock · l) makes_endTurn_blocked

theorem makes_tryAcquire (l : ObjectId) : Makes Act (tryAcquire l) :=
  discreet_acts.tryAcquire l fun _ => makes_changeLock l _

theorem makes_passOn (l : ObjectId) (holder : ThreadId) : Makes Act (passOn l holder) :=
  discreet_acts.passOn l holder (makes_changeLock l _) (fun _ => makes_changeThread _ fun _ => rfl)
    makes_refreshPriority (fun _ => makes_changeLock l _)
    (fun _ => makes_changeThread _ fun _ => rfl)
    makes_addDonor makes_unblock

theorem makes_release (l : ObjectId) : Makes Move (release l) :=
  closes_moves.release l (makes_passOn l) makes_preempt

theorem makes_await (c l : ObjectId) : Makes Move (await c l) :=
  closes_moves.await c l (makes_changeCondition c _) (fun _ => makes_changeCondition c _)
    (makes_passOn l) makes_endTurn_blocked

theorem makes_signalOne (c l : ObjectId) : Makes Act (signalOne c l) :=
  discreet_acts.signalOne c l (fun _ => makes_changeCondition c _) (makes_waitForLock · l)

theorem makes_signal (c l : ObjectId) : Makes Act (signal c l) :=
  discreet_acts.signal c l (makes_signalOne c l)

theorem makes_broadcast (c l : ObjectId) : Makes Act (broadcast c l) :=
  discreet_acts.broadcast c l (makes_signalOne c l)

/-! ### Semaphores and families -/

theorem makes_down (s : ObjectId) : Makes Move (down s) :=
  closes_moves.down s (makes_changeSemaphore s _)
    (fun _ => makes_changeSemaphore s _) makes_endTurn_blocked

theorem makes_tryDown (s : ObjectId) : Makes Act (tryDown s) :=
  discreet_acts.tryDown s (makes_changeSemaphore s _)

theorem makes_wakeOne (s : ObjectId) : Makes Act (wakeOne s) :=
  discreet_acts.wakeOne s (fun _ => makes_changeSemaphore s _) (fun _ => makes_changeSemaphore s _)
    makes_unblock

theorem makes_up (s : ObjectId) : Makes Move (up s) :=
  closes_moves.up s (makes_wakeOne s) makes_preempt

theorem makes_dropRecord (entry : ChildRecord) : Makes Act (dropRecord entry) :=
  discreet_acts.dropRecord entry makes_dropSemaphore

theorem makes_setExitStatus (status : Int32) : Makes Act (setExitStatus status) :=
  discreet_acts.setExitStatus status makes_changeFamily

theorem makes_adopt (parent child : ThreadId) : Makes Act (adopt parent child) :=
  discreet_acts.adopt parent child (makes_newSemaphore 0) makes_changeFamily

theorem makes_reportFork : Makes Move reportFork :=
  closes_moves.reportFork makes_changeFamily makes_up

theorem makes_awaitFork (child : ThreadId) : Makes Move (awaitFork child) :=
  closes_moves.awaitFork child makes_down

theorem makes_collect (parent child : ThreadId) : Makes Act (collect parent child) :=
  discreet_acts.collect parent child makes_changeFamily makes_dropRecord

theorem makes_tryCollect (child : ThreadId) : Makes Act (tryCollect child) :=
  discreet_acts.tryCollect child (makes_collect · child)

theorem makes_awaitExit (child : ThreadId) : Makes Move (awaitExit child) :=
  discreet_moves.awaitExit child (fun parent => (makes_collect parent child).moves) makes_down

theorem makes_orphan (entries : List (ThreadId × ChildRecord)) : Makes Act (orphan entries) :=
  discreet_acts.orphan entries makes_changeFamily makes_dropRecord

theorem makes_reportExit (t : ThreadId) (status : Int32) (parent : ThreadId) :
    Makes Act (reportExit t status parent) :=
  discreet_acts.reportExit t status parent makes_changeFamily makes_wakeOne

theorem makes_taskExited (task : String) (status : Int32) :
    Makes Act (record (.taskExited task status)) :=
  makes_modify fun _ => .taskExited task status

theorem makes_leaveFamily (t : ThreadId) : Makes Act (leaveFamily t) :=
  discreet_acts.leaveFamily t makes_taskExited makes_changeFamily makes_orphan (makes_reportExit t)

/-- An exit is a sequence of acts and then the end of the turn. -/
theorem makes_exit : Makes Move exit := by
  refine fun k => (makes_outsideHandler _ k).bind fun _ m hm => ?_
  refine .ask_bind fun th hr => .get_bind (.demand_bind fun hi => .get_bind ?_)
  obtain ⟨hth, -, -⟩ := running_eq_ok.mp hr
  -- On the way to the end of the turn the exiting thread stays at work.
  have hrest : MakesAt Move (do
      leaveFamily th.id
      say (.exits th.id (← ask (thread th.id)).name)
      masked (endTurn .dying)) m := by
    refine ((makes_leaveFamily _).moves m).bind fun _ m₁ h₁ => .ask_bind fun _ _ => ?_
    refine ((makes_say _).moves m₁).bind fun _ m₂ h₂ => ?_
    have hacts := ((makes_leaveFamily _ _).ok _ _ h₁).trans ((makes_say _ _).ok _ _ h₂)
    obtain ⟨hcurrent, hidle, hids⟩ := acts_stay hacts
    refine .masked (fun _ _ => .act) fun n hq => ?_
    have hdie : ∀ th', n.threads[n.current]? = some th' → th'.id ≠ n.idle := by
      intro th' hth'
      have hid := hids m.current
      rw [← hcurrent, ← hq.threads, ← hq.current, hth', hq.current, hcurrent, hth] at hid
      rw [Option.some.inj hid, hq.idle, hidle]
      exact hi
    exact ⟨fun _ _ h => .single (.turn (.die hdie h)), fun _ _ h => .inr ⟨n, .refl, .die hdie h⟩⟩
  split
  · exact (makes_throw _ _).bind fun _ _ h => nomatch h
  · exact hrest

/-! ### Births -/

theorem takeStack_eq_ok {o : Option Page} (h : takeStack k = .ok o k') :
    k.machine.pool.inUse < k.machine.pool.capacity ∧ o = some (.blank (k.machine.handedOut + 1)) ∧
        k' = k.pageTaken ∨
      k.machine.pool.capacity ≤ k.machine.pool.inUse ∧ o = none ∧
        k' = { k with journal := k.journal.addEvent .refused } := by
  unfold takeStack at h
  rw [bind_eq_ok] at h
  obtain ⟨p, m, hm, h⟩ := h
  obtain ⟨w, hw, rfl⟩ := onMachine_eq_ok.mp hm
  unfold Machine.takePage at hw
  rw [bind_eq_ok] at hw
  obtain ⟨b, w', hw', hw⟩ := hw
  unfold Machine.onPool at hw'
  cases hp : Pool.take k.machine.pool with
  | error e pool => simp [hp] at hw'
  | ok b' pool =>
    simp only [hp, EStateM.Result.ok.injEq] at hw'
    obtain ⟨rfl, rfl⟩ := hw'
    rcases Pool.take_eq_ok hp with ⟨hlt, rfl, rfl⟩ | ⟨hle, rfl, rfl⟩
    · simp only [if_true, get_bind_eq_ok, modify_bind_eq_ok, pure_eq_ok] at hw
      obtain ⟨rfl, rfl⟩ := hw
      simp only [record, modify_bind_eq_ok, pure_eq_ok] at h
      obtain ⟨rfl, rfl⟩ := h
      exact .inl ⟨hlt, rfl, rfl⟩
    · simp only [Bool.false_eq_true, if_false, pure_eq_ok] at hw
      obtain ⟨rfl, rfl⟩ := hw
      simp only [record, modify_bind_eq_ok, pure_eq_ok] at h
      obtain ⟨rfl, rfl⟩ := h
      exact .inr ⟨hle, rfl, rfl⟩

theorem takeStack_eq_error {h : Halt} (hx : takeStack k = .error h k') : k' = k := by
  unfold takeStack at hx
  rcases bind_eq_error.mp hx with hx | ⟨o, m, -, hx⟩
  · obtain ⟨w, hw, rfl⟩ := onMachine_eq_error hx
    unfold Machine.takePage at hw
    rcases bind_eq_error.mp hw with hw | ⟨b, w', -, hw⟩
    · unfold Machine.onPool at hw
      cases hp : Pool.take k.machine.pool with
      | ok b pool => simp [hp] at hw
      | error e pool =>
        simp only [hp, EStateM.Result.error.injEq] at hw
        obtain ⟨-, rfl⟩ := hw
        rw [(Pool.take_eq_error hp).2]
    · cases b <;> cases hw
  · cases o <;> cases hx

/-- A thread is registered on a page of its own, or refused if no page is left. -/
theorem register_birth {name : String} {priority : Priority} {entry : Option String}
    {task : Option Task} {a : Except Refusal ThreadId}
    (h : register name priority entry task k = .ok a k') :
    Birth k k' ∧
      (k.machine.pool.inUse < k.machine.pool.capacity ∧ a = .ok k.nextThread ∧
          k' = k.pageTaken.enlist (.create k.nextThread (Name.clip name) priority
            (.blank (k.machine.handedOut + 1)) entry task) ∨
        k.machine.pool.capacity ≤ k.machine.pool.inUse ∧ a = .error .noMemory ∧
          k' = { k with journal := k.journal.addEvent .refused }) := by
  unfold register at h
  rw [bind_eq_ok] at h
  obtain ⟨o, m, hm, h⟩ := h
  rcases takeStack_eq_ok hm with ⟨hlt, rfl, rfl⟩ | ⟨hle, rfl, rfl⟩
  · simp only [get_bind_eq_ok] at h
    simp only [bind_eq_ok, increment_eq_ok, modify_eq_ok, pure_eq_ok] at h
    obtain ⟨_, _, ⟨hnext, rfl, rfl⟩, _, _, rfl, rfl, rfl⟩ := h
    exact ⟨.enlisted name priority entry task hlt hnext, .inl ⟨hlt, rfl, rfl⟩⟩
  · obtain ⟨rfl, rfl⟩ := pure_eq_ok.mp h
    exact ⟨.refused hle, .inr ⟨hle, rfl, rfl⟩⟩

theorem register_fault {name : String} {priority : Priority} {entry : Option String}
    {task : Option Task} {h : Halt} (hx : register name priority entry task k = .error h k') :
    k' = k ∨ Fault k h k' := by
  unfold register at hx
  rcases bind_eq_error.mp hx with hx | ⟨o, m, hm, hx⟩
  · exact .inl (takeStack_eq_error hx)
  rcases takeStack_eq_ok hm with ⟨-, rfl, rfl⟩ | ⟨-, rfl, -⟩
  · simp only [get_bind_eq_error] at hx
    rcases bind_eq_error.mp hx with hx | ⟨_, _, -, hx⟩
    · obtain ⟨hn, rfl, rfl⟩ := increment_eq_error.mp hx
      exact .inr (.overflow hn)
    · cases hx
  · cases hx

theorem makes_register (name : String) (priority : Priority) (entry : Option String)
    (task : Option Task) : Makes Move (register name priority entry task) := fun k =>
  ⟨fun _ _ h => .single (.birth (register_birth h).1), fun _ k' h => by
    rcases register_fault h with rfl | hf
    · exact .inl .refl
    · exact .inr ⟨k, .refl, hf⟩⟩

theorem makes_spawn (name : String) (priority : Priority) (task : Option Task) :
    Makes Move (spawn name priority task) :=
  discreet_moves.closes.spawn name priority task (makes_register · priority · task)
    (fun parent child => (makes_adopt parent child).moves)
    (fun t => (makes_unblock t).moves) makes_preempt

end Core

end ThreadCore
