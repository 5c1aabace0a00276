import ThreadCore.Proofs.Books

/-!
# Chapters

The journal has labels where threads are meant: the label of a task that is at work or over, and the
label of a function that begins. A chapter is a piece of the journal that tells of one thing and
says which threads it is about. Threads are created, they exit, and the scheduler selects one of
them, which goes on running or is switched to.

The laws say which chapters may follow others (`Follows`). The processor is where the last selection
has taken it, nobody is created twice, nobody exits or is selected before he is created or after he
has exited, and the function of a thread begins when the processor goes there for the first time.

Every move of the core adds a lawful chapter to the journal or leaves the journal alone, if no task
ends (`Core.Told.move`).
-/

namespace ThreadCore

/-! ## Chapters and laws -/

/-- What is noted about a task, nothing if it has no label. -/
def notes (event : String → Event) (task : Option Task) : List Event :=
  (task.bind Task.label?).toList.map event

/-- What a thread is created with. -/
structure Part where
  /-- The label of its function. -/
  entry : Option String
  task : Option Task
deriving DecidableEq, Repr

/-- A piece of the journal, with the threads it is about. -/
inductive Chapter
  /-- A thread gets the page of its number. -/
  | created (t : ThreadId) (part : Part)
  /-- There is no page for another thread. -/
  | refused
  | exits (t : ThreadId) (task : Option Task) (status : Int32)
  /-- Some pages are taken back, and the running thread is selected again. -/
  | stays (freed : List Nat) (t : ThreadId) (task : Option Task)
  /-- Some pages are taken back, and another thread is selected. Its function may begin. -/
  | switches (freed : List Nat) (source t : ThreadId) (task : Option Task) (begins : Option String)
deriving DecidableEq, Repr

namespace Chapter

/-- The events of a chapter. A selection activates the task of the selected thread before the
switch. -/
def events : Chapter → List Event
  | created t _ => [.allocated t]
  | refused => [.refused]
  | exits _ task status => notes (.taskExited · status) task
  | stays freed _ task => freed.map .freed ++ notes .activated task
  | switches freed source t task begins =>
      freed.map .freed ++ notes .activated task ++ .switched source t :: begins.toList.map .launched

/-- The thread that is selected. -/
@[simp] def selects? : Chapter → Option ThreadId
  | stays _ t _ | switches _ _ t _ _ => some t
  | _ => none

/-- What `t` is created with. -/
@[simp] def part? (t : ThreadId) : Chapter → Option Part
  | created u part => if u = t then some part else none
  | _ => none

/-- The processor is switched to `t`. -/
@[simp] def enters (t : ThreadId) : Chapter → Bool
  | switches _ _ u _ _ => u = t
  | _ => false

/-- Thread `t` exits. -/
@[simp] def ends (t : ThreadId) : Chapter → Bool
  | exits u _ _ => u = t
  | _ => false

end Chapter

variable {H K : List Chapter} {ch : Chapter} {t u : ThreadId}

/-- The thread that was selected last, and the first one before any selection. -/
def runner (H : List Chapter) : ThreadId := H.foldl (fun t ch => ch.selects?.getD t) 1

/-- What `t` was created with. -/
def partOf (H : List Chapter) (t : ThreadId) : Option Part := H.findSome? (Chapter.part? t)

/-- The processor has been switched to `t`. -/
def entered (H : List Chapter) (t : ThreadId) : Bool := H.any (Chapter.enters t)

/-- Thread `t` has exited. -/
def exited (H : List Chapter) (t : ThreadId) : Bool := H.any (Chapter.ends t)

@[simp] theorem runner_concat : runner (H ++ [ch]) = ch.selects?.getD (runner H) := by
  simp [runner, List.foldl_append]

@[simp] theorem partOf_concat : partOf (H ++ [ch]) t = (partOf H t).or (ch.part? t) := by
  simp [partOf, List.findSome?_append]

@[simp] theorem entered_concat : entered (H ++ [ch]) t = (entered H t || ch.enters t) := by
  simp [entered, List.any_append]

@[simp] theorem exited_concat : exited (H ++ [ch]) t = (exited H t || ch.ends t) := by
  simp [exited, List.any_append]

/-- Thread `t` was created with this part and has not exited. -/
structure Lives (H : List Chapter) (t : ThreadId) (part : Part) : Prop where
  created : partOf H t = some part
  remains : exited H t = false

/-- The chapter may follow after the others. -/
def Follows (H : List Chapter) : Chapter → Prop
  | .created t _ => partOf H t = none
  | .refused => True
  | .exits t task _ | .stays _ t task => runner H = t ∧ ∃ part, Lives H t part ∧ task = part.task
  | .switches _ source t task begins => runner H = source ∧ source ≠ t ∧
      ∃ part, Lives H t part ∧ task = part.task ∧ begins = if entered H t then none else part.entry

/-- Every chapter may follow after those before it. -/
def Lawful (H : List Chapter) : Prop :=
  ∀ before ch after, H = before ++ ch :: after → Follows before ch

theorem lawful_nil : Lawful [] := by
  intro before ch after h
  simp at h

theorem Lawful.concat (h : Lawful H) (hch : Follows H ch) : Lawful (H ++ [ch]) := by
  intro before ch' after hs
  rcases List.eq_nil_or_concat' after with rfl | ⟨after, last, rfl⟩
  · obtain ⟨rfl, hlast⟩ := List.append_inj' hs rfl
    obtain rfl : ch = ch' := List.head_eq_of_cons_eq hlast
    exact hch
  · rw [← List.cons_append, ← List.append_assoc] at hs
    exact h before ch' after (List.append_inj' hs rfl).1

theorem Lawful.before (h : Lawful (H ++ K)) : Lawful H := fun before ch after hs =>
  h before ch (after ++ K) (by rw [hs, List.append_assoc, List.cons_append])

/-- Who was not created has not done anything. -/
theorem Lawful.unknown (h : Lawful H) (ht : partOf H t = none) :
    entered H t = false ∧ exited H t = false := by
  induction H using List.reverseRecOn with
  | nil => exact ⟨rfl, rfl⟩
  | append_singleton H ch ih =>
    rw [partOf_concat, Option.or_eq_none_iff] at ht
    obtain ⟨hentered, hexited⟩ := ih h.before ht.1
    have hlaw := h H ch [] rfl
    have hnobody : ∀ part, ¬ Lives H t part := fun part hl => by simp [hl.created] at ht
    rw [entered_concat, exited_concat, hentered, hexited]
    cases ch with
    | exits u task status =>
      obtain ⟨-, part, hl, -⟩ := hlaw
      have hne : u ≠ t := fun he => hnobody part (he ▸ hl)
      simp [hne]
    | switches freed source u task begins =>
      obtain ⟨-, -, part, hl, -⟩ := hlaw
      have hne : u ≠ t := fun he => hnobody part (he ▸ hl)
      simp [hne]
    | _ => simp

/-! ## The path of the processor -/

/-- The threads between which the processor goes. -/
def Event.switched? : Event → Option (ThreadId × ThreadId)
  | .switched source target => some (source, target)
  | _ => none

/-- The switches among the events. -/
def switches (es : List Event) : List (ThreadId × ThreadId) := es.filterMap Event.switched?

/-- Each switch leads from where the last one has led to, and to another thread. The first one leads
from `s`, and the last one to `t`. -/
def Path (s : ThreadId) : List (ThreadId × ThreadId) → ThreadId → Prop
  | [], t => s = t
  | (source, target) :: rest, t => source = s ∧ source ≠ target ∧ Path target rest t

theorem switches_append (es es' : List Event) :
    switches (es ++ es') = switches es ++ switches es' :=
  List.filterMap_append

theorem switches_map {α : Type} {event : α → Event} (he : ∀ a, (event a).switched? = none)
    (as : List α) : switches (as.map event) = [] := by
  rw [switches, List.filterMap_map]
  exact List.filterMap_eq_nil_iff.mpr fun a _ => he a

theorem Path.append {s : ThreadId} {p q : List (ThreadId × ThreadId)} (h : Path s p t)
    (h' : Path t q u) : Path s (p ++ q) u := by
  induction p generalizing s with
  | nil =>
    obtain rfl : s = t := h
    exact h'
  | cons step p ih =>
    obtain ⟨hs, hne, hrest⟩ := h
    exact ⟨hs, hne, ih hrest⟩

theorem Follows.path (h : Follows H ch) :
    Path (runner H) (switches ch.events) (ch.selects?.getD (runner H)) := by
  have hnotes : ∀ {event : String → Event} (task : Option Task),
      (∀ label, (event label).switched? = none) → switches (notes event task) = [] :=
    fun task he => switches_map he _
  cases ch with
  | created => rfl
  | refused => rfl
  | exits t task status =>
    rw [Chapter.events, hnotes task fun _ => rfl]
    rfl
  | stays freed t task =>
    rw [Chapter.events, switches_append, switches_map fun _ => rfl, hnotes task fun _ => rfl]
    exact h.1
  | switches freed source t task begins =>
    obtain ⟨hs, hne, -⟩ := h
    have hbegins : switches (begins.toList.map .launched) = [] := switches_map (fun _ => rfl) _
    rw [Chapter.events, switches_append, switches_append, switches_map fun _ => rfl,
      hnotes task fun _ => rfl]
    refine ⟨hs.symm, hne, ?_⟩
    show Path t (switches (begins.toList.map .launched)) t
    rw [hbegins]
    rfl

/-- **The path.** In a lawful story the processor goes from one thread to the next. -/
theorem Lawful.path (h : Lawful H) : Path 1 (switches (H.flatMap Chapter.events)) (runner H) := by
  induction H using List.reverseRecOn with
  | nil => rfl
  | append_singleton H ch ih =>
    rw [List.flatMap_append, switches_append, List.flatMap_singleton, runner_concat]
    exact (ih h.before).append (h H ch [] rfl).path

/-! ## The cast -/

/-- What the laws are about: who runs, what the live threads are to do, and the events so far. -/
@[ext] structure Cast where
  current : ThreadId
  nextThread : ThreadId
  /-- The task of each live thread, and its function if that has not begun. -/
  part : ThreadId → Option Part
  events : List Event

namespace Cast

variable {c : Cast} {p : Part} {freed : List Nat}

/-- More events. -/
def note (c : Cast) (es : List Event) : Cast := { c with events := c.events ++ es }

@[simp] theorem note_nil : c.note [] = c := by simp [note]

/-- The next thread is created. -/
def enlist (c : Cast) (p : Part) : Cast :=
  { c with
    nextThread := c.nextThread + 1
    part := Function.update c.part c.nextThread (some p)
    events := c.events ++ [.allocated c.nextThread] }

/-- The chapter of a selection of `t`. -/
def selection (c : Cast) (freed : List Nat) (t : ThreadId) (p : Part) : Chapter :=
  if c.current = t then .stays freed t p.task else .switches freed c.current t p.task p.entry

/-- The processor is given to `t`, and the current thread may be gone. -/
def select (c : Cast) (freed : List Nat) (t : ThreadId) (p : Part) (dies : Prop) [Decidable dies] :
    Cast where
  current := t
  nextThread := c.nextThread
  part :=
    if c.current = t then c.part
    else Function.update (if dies then Function.update c.part c.current none else c.part) t
      (some { p with entry := none })
  events := c.events ++ (c.selection freed t p).events

@[simp] theorem selection_selects : (c.selection freed t p).selects? = some t := by
  unfold selection
  split <;> rfl

theorem select_current {dies : Prop} [Decidable dies] :
    c.select freed c.current p dies = c.note (Chapter.stays freed c.current p.task).events := by
  simp [select, selection, note]

/-- The pages are taken back before the selection. -/
theorem select_note {dies : Prop} [Decidable dies] :
    (c.note (freed.map .freed)).select [] t p dies = c.select freed t p dies := by
  unfold select selection note
  by_cases ht : c.current = t
  · simp [ht, Chapter.events]
  · simp [ht, Chapter.events]

end Cast

/-- The chapters tell what has happened up to here. If `gone` is a thread, then it has told its exit
and is about to leave. -/
structure Recounts (H : List Chapter) (gone : Option ThreadId) (c : Cast) : Prop where
  journal : c.events = H.flatMap Chapter.events
  lawful : Lawful H
  runner : runner H = c.current
  number : ∀ t p, partOf H t = some p → t < c.nextThread
  part : ∀ t p, c.part t = some p → ∃ entry, partOf H t = some ⟨entry, p.task⟩ ∧
    p.entry = if entered H t then none else entry
  remains : ∀ t p, c.part t = some p → gone ≠ some t → exited H t = false

namespace Recounts

variable {c : Cast} {p : Part} {gone : Option ThreadId} {freed : List Nat}

theorem lives (h : Recounts H gone c) (hp : c.part t = some p) (hg : gone ≠ some t) :
    ∃ part, Lives H t part ∧ p.task = part.task ∧ p.entry = if entered H t then none
      else part.entry := by
  obtain ⟨entry, hpart, hentry⟩ := h.part t p hp
  exact ⟨⟨entry, p.task⟩, ⟨hpart, h.remains t p hp hg⟩, rfl, hentry⟩

/-- The next chapter. -/
theorem concat_journal (h : Recounts H gone c) (ch : Chapter) :
    c.events ++ ch.events = (H ++ [ch]).flatMap Chapter.events := by
  rw [h.journal, List.flatMap_append, List.flatMap_singleton]

theorem refused (h : Recounts H gone c) : Recounts (H ++ [.refused]) gone (c.note [.refused]) where
  journal := h.concat_journal .refused
  lawful := h.lawful.concat trivial
  runner := runner_concat.trans h.runner
  number t p hp := h.number t p (by simpa using hp)
  part t p hp := by simpa using h.part t p hp
  remains t p hp hg := by simpa using h.remains t p hp hg

/-- A thread that is created gets a number of its own. -/
theorem enlist (h : Recounts H gone c) (p : Part) :
    Recounts (H ++ [.created c.nextThread p]) gone (c.enlist p) := by
  have hfresh : partOf H c.nextThread = none := by
    cases hn : partOf H c.nextThread with
    | none => rfl
    | some q => exact absurd (h.number _ q hn) (lt_irrefl _)
  have hnever := h.lawful.unknown hfresh
  refine ⟨h.concat_journal (.created c.nextThread p), h.lawful.concat hfresh,
    runner_concat.trans h.runner, fun t q hq => ?_, fun t q hq => ?_, fun t q hq hg => ?_⟩
  · by_cases ht : t = c.nextThread
    · exact ht ▸ Nat.lt_succ_self _
    · have hold : partOf H t = some q := by simpa [Ne.symm ht] using hq
      exact (h.number t q hold).trans (Nat.lt_succ_self _)
  · by_cases ht : t = c.nextThread
    · subst ht
      obtain rfl : p = q := by simpa [Cast.enlist] using hq
      exact ⟨p.entry, by simp [hfresh], by simp [hnever.1]⟩
    · have hold : c.part t = some q := by simpa [Cast.enlist, ht] using hq
      simpa [Ne.symm ht] using h.part t q hold
  · by_cases ht : t = c.nextThread
    · simpa [ht] using hnever.2
    · have hold : c.part t = some q := by simpa [Cast.enlist, ht] using hq
      simpa using h.remains t q hold hg

/-- The running thread tells its exit. -/
theorem exits (h : Recounts H none c) (hp : c.part c.current = some p) (status : Int32) :
    Recounts (H ++ [.exits c.current p.task status]) (some c.current)
      (c.note (notes (.taskExited · status) p.task)) := by
  obtain ⟨part, hlives, htask, -⟩ := h.lives hp nofun
  refine ⟨h.concat_journal (.exits c.current p.task status),
    h.lawful.concat ⟨h.runner, part, hlives, htask⟩, runner_concat.trans h.runner,
    fun t q hq => h.number t q (by simpa using hq), fun t q hq => by simpa using h.part t q hq,
    fun t q hq hg => ?_⟩
  have hne : c.current ≠ t := fun he => hg (congrArg some he)
  simpa [hne] using h.remains t q hq nofun

/-- The running thread is selected again. -/
theorem stays (h : Recounts H none c) (hp : c.part c.current = some p) :
    Recounts (H ++ [.stays freed c.current p.task]) none
      (c.note (Chapter.stays freed c.current p.task).events) := by
  obtain ⟨part, hlives, htask, -⟩ := h.lives hp nofun
  exact ⟨h.concat_journal _, h.lawful.concat ⟨h.runner, part, hlives, htask⟩, runner_concat,
    fun v q hq => h.number v q (by simpa using hq), fun v q hq => by simpa using h.part v q hq,
    fun v q hq _ => by simpa using h.remains v q hq nofun⟩

/-- Another thread is selected. If the current thread has told its exit, it is gone after this. -/
theorem switches {dies : Prop} [Decidable dies] (h : Recounts H gone c) (hp : c.part t = some p)
    (ht : c.current ≠ t) (hg : gone ≠ some t) (hdies : ∀ u, gone = some u → dies ∧ u = c.current) :
    Recounts (H ++ [.switches freed c.current t p.task p.entry]) none
      (c.select freed t p dies) := by
  obtain ⟨part, hlives, htask, hentry⟩ := h.lives hp hg
  have hother : c.selection freed t p = .switches freed c.current t p.task p.entry := if_neg ht
  have hself : (c.select freed t p dies).part t = some { p with entry := none } := by
    simp [Cast.select, ht]
  -- Whoever else is live was live before and has not told its exit.
  have hold : ∀ v q, v ≠ t → (c.select freed t p dies).part v = some q →
      c.part v = some q ∧ gone ≠ some v := by
    intro v q hv hq
    simp only [Cast.select, if_neg ht, Function.update_of_ne hv] at hq
    split at hq
    · rw [Function.update_apply] at hq
      split at hq
      · cases hq
      · rename_i hvc
        exact ⟨hq, fun hgv => hvc (hdies v hgv).2⟩
    · rename_i hd
      exact ⟨hq, fun hgv => hd (hdies v hgv).1⟩
  refine ⟨?_, h.lawful.concat ⟨h.runner, ht, part, hlives, htask, hentry⟩, runner_concat,
    fun v q hq => h.number v q (by simpa using hq), fun v q hq => ?_, fun v q hq _ => ?_⟩
  · rw [← hother]
    exact h.concat_journal _
  · by_cases hv : v = t
    · subst hv
      obtain rfl := Option.some.inj (hself.symm.trans hq)
      exact ⟨part.entry, by simp [hlives.created, htask], by simp⟩
    · simpa [Ne.symm hv] using h.part v q (hold v q hv hq).1
  · by_cases hv : v = t
    · simpa [hv] using hlives.remains
    · simpa using h.remains v q (hold v q hv hq).1 (hold v q hv hq).2

theorem select {dies : Prop} [Decidable dies] (h : Recounts H gone c) (hp : c.part t = some p)
    (hg : gone ≠ some t) (hdies : ∀ u, gone = some u → dies ∧ u = c.current) :
    Recounts (H ++ [c.selection freed t p]) none (c.select freed t p dies) := by
  by_cases ht : c.current = t
  · subst ht
    obtain rfl : gone = none := by
      cases gone with
      | none => rfl
      | some u => exact absurd (congrArg some (hdies u rfl).2) hg
    rw [Cast.select_current, Cast.selection, if_pos rfl]
    exact h.stays hp
  · rw [Cast.selection, if_neg ht]
    exact h.switches hp ht hg hdies

end Recounts

namespace Core

variable {α : Type} {k k' m : Core} {σ : ThreadState} {s : ThreadId} {th : Thread} {p : Part}
  {n : Unit}

def cast (k : Core) : Cast where
  current := k.current
  nextThread := k.nextThread
  part t := (k.threads[t]?).map fun th => ⟨th.context.entry, th.task⟩
  events := k.journal.events.toList

@[simp] theorem cast_current : k.cast.current = k.current := rfl

theorem cast_part (hth : k.threads[t]? = some th) :
    k.cast.part t = some ⟨th.context.entry, th.task⟩ := by
  simp [cast, hth]

theorem cast_mapThread {f : Thread → Thread} (hc : ∀ th, (f th).context = th.context)
    (ht : ∀ th, (f th).task = th.task) : (k.mapThread t f).cast = k.cast := by
  have hpart := map_getElem?_mapThread (k := k) (t := t) (f := f)
    (g := fun th => (⟨th.context.entry, th.task⟩ : Part)) fun th => by rw [hc, ht]
  ext1
  · rfl
  · rfl
  · exact funext hpart
  · rfl

/-! ## The end of a turn -/

theorem cast_say {x : Notice} (h : say x k = .ok n k') : k'.cast = k.cast := by
  unfold say at h
  rw [get_bind_eq_ok] at h
  split at h
  · exact modify_eq_ok.mp h ▸ rfl
  · exact (pure_eq_ok.mp h).2 ▸ rfl

theorem cast_record {e : Event} (h : record e k = .ok n k') : k'.cast = k.cast.note [e] := by
  rw [record, modify_eq_ok] at h
  subst h
  simp [cast, Cast.note, Journal.addEvent]

theorem cast_onMachine {step : MachineM α} {a : α} (h : onMachine step k = .ok a k') :
    k'.cast = k.cast := by
  obtain ⟨w, -, rfl⟩ := onMachine_eq_ok.mp h
  rfl

theorem cast_note {label? : Option String} {event : String → Event} {rest : CoreM α} {a : α}
    (h : (match label? with
      | some label => record (event label) >>= fun _ => rest
      | none => rest) k = .ok a k') :
    ∃ m, Quiet k m ∧ m.cast = k.cast.note (label?.toList.map event) ∧ rest m = .ok a k' := by
  cases label? with
  | some label =>
    obtain ⟨_, m, hm, h⟩ := bind_eq_ok.mp h
    exact ⟨m, quiet_record hm, cast_record hm, h⟩
  | none => exact ⟨k, .refl k, by simp, h⟩

theorem cast_reclaim {l : Nat} (h : reclaim l k = .ok n k') :
    ∃ freed : List Nat, k'.cast = k.cast.note (freed.map .freed) := by
  induction l generalizing k with
  | zero =>
    obtain ⟨-, rfl⟩ := pure_eq_ok.mp h
    exact ⟨[], by simp⟩
  | succ l ih =>
    rw [reclaim, get_bind_eq_ok] at h
    cases hd : k.dead with
    | nil =>
      simp only [hd] at h
      obtain ⟨-, rfl⟩ := pure_eq_ok.mp h
      exact ⟨[], by simp⟩
    | cons victim rest =>
      simp only [hd, modify_bind_eq_ok] at h
      simp only [bind_eq_ok] at h
      obtain ⟨_, k₁, h₁, _, k₂, h₂, _, k₃, h₃, h⟩ := h
      obtain ⟨freed, hfreed⟩ := ih h
      refine ⟨victim.stack.frame :: freed, ?_⟩
      rw [hfreed, cast_onMachine h₃, cast_record h₂, cast_say h₁]
      simp [cast, Cast.note]

/-- Loading the context of `t` begins its function, if that has not begun. -/
theorem cast_resume {running : Context} (hth : k.threads[t]? = some th)
    (h : resume s t running th.context k = .ok n k') :
    k'.cast = { k.cast with
      part := Function.update k.cast.part t (some ⟨none, th.task⟩)
      events := k.cast.events ++ .switched s t :: th.context.entry.toList.map .launched } := by
  simp only [resume, bind_eq_ok, changeThread_eq_ok] at h
  obtain ⟨_, k₁, h₁, r, k₂, h₂, _, _, ⟨-, rfl⟩, h⟩ := h
  have hr : r = ({ th.context with entry := none }, th.context.entry) := by
    obtain ⟨w, hw, -⟩ := onMachine_eq_ok.mp h₂
    unfold Machine.switch at hw
    simp only [get_bind_eq_ok, demand_bind_eq_ok, modify_bind_eq_ok, pure_eq_ok] at hw
    exact hw.2.2.1.symm
  subst hr
  have hk₂ : k₂.cast = k.cast.note [.switched s t] := (cast_onMachine h₂).trans (cast_record h₁)
  have hthreads : k₂.threads = k.threads :=
    (quiet_switch h₂).threads.trans (quiet_record h₁).threads
  let loaded := k₂.mapThread t fun th' => { th' with context := { th.context with entry := none } }
  have hpart : loaded.cast.part = Function.update k.cast.part t (some ⟨none, th.task⟩) := by
    funext v
    have hv :=
      getElem?_mapThread k₂ t v fun th' => { th' with context := { th.context with entry := none } }
    simp only [cast, loaded, hv, hthreads, hth, Function.update_apply]
    split
    · rfl
    · rfl
  have hloaded : loaded.cast = { k.cast with
      part := Function.update k.cast.part t (some ⟨none, th.task⟩)
      events := k.cast.events ++ [.switched s t] } := by
    ext1
    · exact (congrArg Cast.current hk₂ :)
    · exact (congrArg Cast.nextThread hk₂ :)
    · exact hpart
    · exact (congrArg Cast.events hk₂ :)
  cases he : th.context.entry with
  | some label =>
    simp only [he] at h
    rw [cast_record h, hloaded]
    simp [Cast.note]
  | none =>
    simp only [he] at h
    obtain ⟨-, rfl⟩ := pure_eq_ok.mp h
    exact hloaded

theorem cast_switchTo {src : Thread} (hne : s ≠ t) (hs : k.threads[s]? = some src)
    (hth : k.threads[t]? = some th) (h : switchTo s t k = .ok n k') :
    k'.cast = { k.cast with
      current := t
      part := Function.update
        (if src.state = .dying then Function.update k.cast.part s none else k.cast.part) t
        (some ⟨none, th.task⟩)
      events := k.cast.events ++ .switched s t :: th.context.entry.toList.map .launched } := by
  unfold switchTo at h
  rw [modify_bind_eq_ok, bind_eq_ok] at h
  obtain ⟨_, k₁, h₁, h⟩ := h
  have hcast : k₁.cast = { k.cast with current := t } := cast_say h₁
  have hthreads : k₁.threads = k.threads := (quiet_say h₁).threads
  simp only [ask_bind_eq_ok, thread_eq_ok_iff] at h
  obtain ⟨src', hsrc', h⟩ := h
  obtain rfl : src' = src := Option.some.inj (hsrc'.symm.trans (hthreads ▸ hs))
  split at h
  · rename_i hdying
    simp only [modify_bind_eq_ok, ask_bind_eq_ok, thread_eq_ok_iff] at h
    obtain ⟨th', hth', h⟩ := h
    have hstays : (k₁.threads.erase s)[t]? = k.threads[t]? := by
      simp only [Std.ExtTreeMap.getElem?_erase, compare_eq_iff_eq, if_neg hne, hthreads]
    obtain rfl : th' = th := Option.some.inj (hth'.symm.trans (hstays.trans hth))
    have hleft :
        ({ k₁ with threads := k₁.threads.erase s, dead := k₁.dead ++ [src'] } : Core).cast =
        { k.cast with current := t, part := Function.update k.cast.part s none } := by
      ext1
      · exact (congrArg Cast.current hcast :)
      · exact (congrArg Cast.nextThread hcast :)
      · funext v
        simp only [cast, Std.ExtTreeMap.getElem?_erase, compare_eq_iff_eq, Function.update_apply,
          hthreads, eq_comm (a := s)]
        split
        · rfl
        · rfl
      · exact (congrArg Cast.events hcast :)
    rw [cast_resume hth' h, hleft, if_pos hdying]
  · rename_i hdying
    simp only [ask_bind_eq_ok, thread_eq_ok_iff] at h
    obtain ⟨th', hth', h⟩ := h
    obtain rfl : th' = th := Option.some.inj (hth'.symm.trans (hthreads ▸ hth))
    rw [cast_resume hth' h, hcast, if_neg hdying]

theorem cast_dispatch {src : Thread} (hs : k.threads[k.current]? = some src)
    (h : dispatch k = .ok n k') :
    ∃ t p, k.cast.part t = some p ∧ k'.cast = k.cast.select [] t p (src.state = .dying) := by
  unfold dispatch at h
  rw [get_bind_eq_ok, bind_eq_ok] at h
  obtain ⟨t, _, h₁, h⟩ := h
  obtain ⟨-, rfl⟩ := takeNext_eq_ok h₁
  rw [get_bind_eq_ok, demand_bind_eq_ok] at h
  simp only [ask_bind_eq_ok, demand_bind_eq_ok, thread_eq_ok_iff, changeThread_bind_eq_ok] at h
  obtain ⟨-, _, -, -, th, hth, -, -, h⟩ := h
  obtain ⟨m, hq, hnoted, h⟩ := cast_note h
  have hchosen : (({ k with ready := k.ready.remove t } : Core).mapThread t
      fun th => { th with state := .running }).cast = k.cast :=
      cast_mapThread (fun _ => rfl) fun _ => rfl
  have hm : m.cast = k.cast.note (notes .activated th.task) := by rw [hnoted, hchosen]; rfl
  rw [modify_bind_eq_ok] at h
  refine ⟨t, _, cast_part hth, ?_⟩
  split at h
  · rename_i hne
    have hs' : ({ m with slice := 0 } : Core).threads[k.current]? = some src := by
      show m.threads[k.current]? = _
      rw [hq.threads, getElem?_mapThread, if_neg hne]
      exact hs
    have hth' : ({ m with slice := 0 } : Core).threads[t]? =
        some { th with state := .running } := by
      show m.threads[t]? = _
      rw [hq.threads, getElem?_mapThread, if_pos rfl]
      exact congrArg (Option.map _) hth
    have hslice : ({ m with slice := 0 } : Core).cast = m.cast := rfl
    rw [cast_switchTo hne hs' hth' h, hslice, hm]
    have hselection : k.cast.selection [] t ⟨th.context.entry, th.task⟩ =
        .switches [] k.current t th.task th.context.entry := if_neg hne
    simp [Cast.select, Cast.note, hselection, hne, Chapter.events]
  · rename_i he
    have hcurrent : k.current = t := not_not.mp he
    have hselection : k.cast.selection [] t ⟨th.context.entry, th.task⟩ = .stays [] t th.task :=
      if_pos hcurrent
    obtain ⟨-, rfl⟩ := pure_eq_ok.mp h
    have hslice : ({ m with slice := 0 } : Core).cast = m.cast := rfl
    rw [hslice, hm]
    simp [Cast.select, Cast.note, hselection, hcurrent, Chapter.events]

theorem cast_endTurn (hth : k.threads[k.current]? = some th) (h : endTurn σ k = .ok n k') :
    ∃ freed t p, k.cast.part t = some p ∧ k'.cast = k.cast.select freed t p (σ = .dying) := by
  unfold endTurn at h
  rw [get_bind_eq_ok, demand_bind_eq_ok, get_bind_eq_ok] at h
  simp only [ask_bind_eq_ok, demand_bind_eq_ok, get_bind_eq_ok] at h
  obtain ⟨-, _, -, -, h⟩ := h
  obtain ⟨_, m, hm, h⟩ := bind_eq_ok.mp h
  have hq := quiet_reclaim hm
  obtain ⟨freed, hfreed⟩ := cast_reclaim hm
  rw [changeThread_bind_eq_ok] at h
  obtain ⟨-, h⟩ := h
  let ended := m.mapThread k.current fun th => { th with state := σ }
  have hended : ended.cast = k.cast.note (freed.map .freed) :=
    (cast_mapThread (fun _ => rfl) fun _ => rfl : ended.cast = m.cast).trans hfreed
  have hth' : ended.threads[ended.current]? = some { th with state := σ } := by
    show ended.threads[m.current]? = _
    rw [hq.current, getElem?_mapThread, if_pos rfl, hq.threads, hth]
    rfl
  obtain ⟨t, p, hp, hk'⟩ := cast_dispatch hth' h
  rw [hended] at hp hk'
  exact ⟨freed, t, p, hp, hk'.trans Cast.select_note⟩

/-- A turn ends with the selection of a live thread. -/
theorem Turn.cast (h : Turn k k') (hlive : ∃ th, k.threads[k.current]? = some th) :
    ∃ (freed : List Nat) (t : ThreadId) (p : Part) (σ : ThreadState),
      k.cast.part t = some p ∧ k'.cast = k.cast.select freed t p (σ = .dying) := by
  have hend : ∀ (m : Core) (σ : ThreadState), m.cast = k.cast →
      (∃ th, m.threads[m.current]? = some th) →
      endTurn σ m = .ok () k' → ∃ (freed : List Nat) (t : ThreadId) (p : Part) (σ : ThreadState),
        k.cast.part t = some p ∧ k'.cast = k.cast.select freed t p (σ = .dying) := by
    intro m σ hm hlive he
    obtain ⟨th, hth⟩ := hlive
    obtain ⟨freed, t, p, hp, hk'⟩ := cast_endTurn hth he
    rw [hm] at hp hk'
    exact ⟨freed, t, p, σ, hp, hk'⟩
  cases h with
  | block he => exact hend k .blocked rfl hlive he
  | lineUp hth _ hm he =>
    obtain ⟨-, hm⟩ := enqueueReady_eq_ok.mp hm
    exact hend _ .ready (by rw [hm]; rfl) ⟨_, by rw [hm]; exact hth⟩ he
  | die _ he => exact hend k .dying rfl hlive he

/-! ## Acts and births -/

/-- An act notes the end of a task or nothing. -/
theorem Act.cast (h : Act k k') :
    k'.cast = k.cast ∨ ∃ task status, k'.cast = k.cast.note [.taskExited task status] := by
  cases h with
  | clerical w console usage output slice pending hp ho => exact .inl rfl
  | taskExited task status =>
    refine .inr ⟨task, status, ?_⟩
    simp [Core.cast, Cast.note, Journal.addEvent]
  | reassess t f hf =>
    exact .inl (cast_mapThread (fun th => (congrArg Thread.context (hf th) :))
      fun th => (congrArg Thread.task (hf th) :))
  | overwrite t th stack =>
    exact .inl
      (cast_mapThread (f := fun th => { th with stack := stack }) (fun _ => rfl) fun _ => rfl)
  | family t f =>
    exact .inl
      (cast_mapThread (f := fun th => { th with family := f th.family })
        (fun _ => rfl) fun _ => rfl)
  | sleepers q => exact .inl rfl
  | objects o => exact .inl rfl
  | awaken t th =>
    exact .inl (cast_mapThread (k := k) (t := t) (f := fun th => { th with state := .ready })
      (fun _ => rfl) fun _ => rfl)

/-- Pages have the numbers of threads, so the page that is handed out tells which thread is
created. -/
theorem cast_enlist (hnumber : k.nextThread = k.machine.handedOut + 1) (name : String)
    (priority : Priority) (page : Page) (entry : Option String) (task : Option Task) :
    (k.pageTaken.enlist (.create k.nextThread name priority page entry task)).cast =
      k.cast.enlist ⟨entry, task⟩ := by
  ext1
  · rfl
  · rfl
  · funext t
    refine (congrArg (Option.map fun th => (⟨th.context.entry, th.task⟩ : Part))
      (getElem?_enlist k.pageTaken _ t)).trans ?_
    exact (apply_ite _ _ _ _).trans (Function.update_apply k.cast.part _ _ t).symm
  · exact Array.toList_push.trans (congrArg (fun n => k.cast.events ++ [.allocated n]) hnumber.symm)

theorem Birth.cast (h : Birth k k') (hnumber : k.nextThread = k.machine.handedOut + 1) :
    k'.cast = k.cast.note [.refused] ∨ ∃ p, k'.cast = k.cast.enlist p := by
  cases h with
  | refused => exact .inl (by simp [Core.cast, Cast.note, Journal.addEvent])
  | enlisted name priority entry task => exact .inr ⟨_, cast_enlist hnumber _ _ _ _ _⟩

end Core

end ThreadCore
