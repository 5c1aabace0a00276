import ThreadCore.Proofs.Chapters
import ThreadCore.Proofs.ExitStatuses
import ThreadCore.Proofs.GuisedCalls
import ThreadCore.Proofs.Pages

/-!
# The protocol of events

What a run tells, chapter by chapter. Every move of the core that is to be told has a chapter
(`Core.Tells`): a thread that is created or refused, the exit of the current thread, and above all
the end of a turn, which is one selection however it comes about. A story tells a sequence of moves
(`Core.Story`), and the log of a run says who is created and who exits in it (`Session.Attests`).
The journal of a run is the events of its story, and the story is lawful
(`Session.logged_protocol`).
-/

namespace ThreadCore

/-- The event notes that a task is over. -/
def Event.isEnding : Event → Bool
  | .taskExited _ _ => true
  | _ => false

/-- How often it is noted that a task is over. -/
def endings (es : List Event) : Nat := es.countP Event.isEnding

theorem endings_append (es es' : List Event) : endings (es ++ es') = endings es + endings es' :=
  List.countP_append

/-- The look of a core that does not note when tasks are over. -/
def Guise.muted : Guise :=
  { Guise.plain with
    events := fun es => es.filter fun e => !e.isEnding
    events_push := fun es e he => by cases e <;> simp_all [Event.ofTask, Event.isEnding]
    events_activated := fun o es => by
      show (noted .activated o es).filter _ = noted .activated o (es.filter _)
      unfold noted
      cases o.bind Task.label? with
      | none => rfl
      | some label => simp [Event.isEnding] }

theorem muted_prompt : Guise.muted.Prompt := ⟨⟨fun _ => rfl, fun _ => rfl⟩, fun _ => rfl⟩

theorem muted_plain : Guise.muted.Plain := ⟨fun _ => rfl, fun _ => rfl⟩

namespace Session

variable {α : Type} {s s' : Session} {a : α}

/-- A step that goes on in the same way when no end of a task is noted notes none. -/
theorem endings_of_blind {x : SessionM α} (hp : ∀ j, Blind (Guise.prefixed j).session x)
    (hm : Blind Guise.muted.session x) (h : x s = .ok a s') :
    endings s'.core.journal.events.toList = endings s.core.journal.events.toList := by
  rw [← prefixed_unwritten s, hp] at h
  obtain ⟨m, hx, hs'⟩ := shown_eq_ok.mp h
  have hempty : Guise.muted.session s.unwritten = s.unwritten := by
    rw [Guise.session, Guise.core_of_task muted_plain.task]
    rfl
  -- What the step records, if it starts with an empty journal, is all that is new.
  have hfix : Guise.muted.session m = m := by
    have hblind := hm s.unwritten
    rw [hempty, hx] at hblind
    exact (EStateM.Result.ok.inj hblind).2.symm
  have hnone : endings m.core.journal.events.toList = 0 := by
    have hevents : m.core.journal.events.filter (fun e => !e.isEnding) = m.core.journal.events :=
      congrArg (fun n : Session => n.core.journal.events) hfix
    rw [← hevents, endings, Array.toList_filter, List.countP_eq_zero]
    intro e he
    simpa using (List.mem_filter.mp he).2
  rw [← hs', prefixed_session, Array.toList_append, endings_append, hnone, Nat.add_zero]

end Session

namespace Chapter

/-- A thread is created. -/
def isBirth : Chapter → Bool
  | created _ _ => true
  | _ => false

variable {ch : Chapter} {K : List Chapter} {t : ThreadId}

theorem not_created (h : K.countP isBirth = 0) (t : ThreadId) (p : Part) : .created t p ∉ K :=
  fun hmem =>
  List.countP_eq_zero.mp h _ hmem rfl

theorem not_exits (h : ∀ t, exited K t = false) (t : ThreadId) (task : Option Task)
    (status : Int32) : .exits t task status ∉ K := fun hmem =>
  List.any_eq_false.mp (h t) _ hmem (decide_eq_true rfl)

theorem of_selects (h : ch.selects? = some t) : ch.isBirth = false ∧ ∀ u, ch.ends u = false := by
  cases ch with
  | stays | switches => exact ⟨rfl, fun _ => rfl⟩
  | _ => cases h

end Chapter

variable {H K K' : List Chapter} {limit : Nat}

namespace Core

open Relation (ReflTransGen)

variable {α : Type} {k k' m : Core} {t : ThreadId} {th : Thread} {ch : Chapter} {u : Unit}

/-! ## Stories -/

/-- What is to be told of a move. -/
inductive Tells (k : Core) : Core → List Chapter → Prop
  | act {k' : Core} : Act k k' → Tells k k' []
  | handler (on : Bool) : Tells k { k with machine := { k.machine with inHandler := on } } []
  | refused {k' : Core} : Birth k k' → k'.nextThread = k.nextThread → Tells k k' [.refused]
  | created {k' : Core} {p : Part} : Birth k k' → k'.nextThread = k.nextThread + 1 →
      k'.cast.part k.nextThread = some p → Tells k k' [.created k.nextThread p]
  /-- The current thread writes in the journal that it exits. -/
  | exits {th : Thread} (j : Journal) : k.threads[k.current]? = some th →
      Tells k { k with journal := j } [.exits k.current th.task th.family.exitStatus]
  /-- Every end of a turn is one selection, of the thread that runs afterwards. -/
  | turn {k' : Core} {ch : Chapter} : Turn k k' → ch.selects? = some k'.current → Tells k k' [ch]

/-- The chapters tell one move after the other, and their events are those that the moves record. -/
inductive Story (k : Core) : List Chapter → Core → Prop
  | nil : Story k [] k
  | tail {K K' : List Chapter} {m k' : Core} : Story k K m → Tells m k' K' →
      k'.cast.events = m.cast.events ++ K'.flatMap Chapter.events → Story k (K ++ K') k'

theorem Story.single (h : Tells k k' K)
    (he : k'.cast.events = k.cast.events ++ K.flatMap Chapter.events) : Story k K k' :=
  .tail .nil h he

theorem Story.trans (h : Story k K m) (h' : Story m K' k') : Story k (K ++ K') k' := by
  induction h' with
  | nil => rwa [List.append_nil]
  | tail _ ht he ih => exact List.append_assoc .. ▸ ih.tail ht he

/-- After the story `H`, the chapters `K` tell how `k` became `k'`, and nobody exits in them. -/
structure Continues (H : List Chapter) (k : Core) (K : List Chapter) (k' : Core) : Prop where
  story : Story k K k'
  recounts : Recounts (H ++ K) none k'.cast
  number : k'.nextThread = k.nextThread + K.countP Chapter.isBirth
  remains : ∀ t, exited K t = false

theorem Continues.nil (h : Recounts H none k.cast) : Continues H k [] k :=
  ⟨.nil, by rwa [List.append_nil], rfl, fun _ => rfl⟩

theorem Continues.trans (h : Continues H k K m) (h' : Continues (H ++ K) m K' k') :
    Continues H k (K ++ K') k' where
  story := h.story.trans h'.story
  recounts := List.append_assoc .. ▸ h'.recounts
  number := by rw [h'.number, h.number, List.countP_append, Nat.add_assoc]
  remains t := by
    rw [exited, List.any_append, Bool.or_eq_false_iff]
    exact ⟨h.remains t, h'.remains t⟩

/-- Nothing is to be told if the cast stays as it is. -/
theorem Continues.of_same (h : Recounts H none k.cast) (ht : Tells k k' [])
    (hsame : k'.cast = k.cast) : Continues H k [] k' := by
  refine ⟨.single ht (by simp [hsame]), ?_, ?_, fun _ => rfl⟩
  · rw [List.append_nil, hsame]
    exact h
  · exact (congrArg Cast.nextThread hsame :)

/-! ## Moves -/

/-- Whenever a turn ends, a live thread is selected, and the journal tells about this selection and
about nothing else. -/
def SelectsOnce (k : Core) : Prop :=
  ∀ k', Turn k k' → ∃ freed th, k.threads[k'.current]? = some th ∧
  k'.journal.events.toList = k.journal.events.toList ++
    (k.cast.selection freed k'.current ⟨th.context.entry, th.task⟩).events

theorem Booked.selectsOnce (h : k.Booked limit) : k.SelectsOnce := by
  intro k' ht
  obtain ⟨freed, t, p, σ, hp, hk'⟩ := ht.cast h.steered.live_current
  obtain rfl : k'.current = t := (congrArg Cast.current hk' :)
  obtain ⟨th, hth, rfl⟩ := Option.map_eq_some_iff.mp hp
  exact ⟨freed, th, hth, congrArg Cast.events hk'⟩

/-- An act that notes no end of a task changes nothing in the cast. -/
theorem Act.cast_same (h : Act k k') (he : endings k'.cast.events ≤ endings k.cast.events) :
    k'.cast = k.cast := by
  rcases h.cast with hsame | ⟨task, status, hnoted⟩
  · exact hsame
  · rw [hnoted, Cast.note, endings_append] at he
    simp [endings, Event.isEnding] at he

/-- The journal only grows. -/
theorem Booked.grows (h : k.Booked limit) (hm : Move k k') :
    ∃ es, k'.cast.events = k.cast.events ++ es := by
  cases hm with
  | act ha =>
    rcases ha.cast with hk' | ⟨task, status, hk'⟩
    · exact ⟨[], by simp [hk']⟩
    · exact ⟨_, congrArg Cast.events hk'⟩
  | birth hbirth =>
    rcases hbirth.cast h.books.numbered with hk' | ⟨p, hk'⟩
    · exact ⟨_, congrArg Cast.events hk'⟩
    · exact ⟨_, congrArg Cast.events hk'⟩
  | turn ht =>
    obtain ⟨freed, t, p, σ, -, hk'⟩ := ht.cast h.steered.live_current
    exact ⟨_, congrArg Cast.events hk'⟩
  | handler on => exact ⟨[], (List.append_nil _).symm⟩

theorem Booked.endings_le (h : k.Booked limit) (hc : Course k k') :
    endings k.cast.events ≤ endings k'.cast.events := by
  induction hc with
  | refl => exact le_rfl
  | tail hc hm ih =>
    obtain ⟨es, hes⟩ := (h.course hc).grows hm
    rw [hes, endings_append]
    omega

/-- A thread is created. -/
theorem Continues.birth {p : Part} (h : Recounts H none k.cast) (hbirth : Birth k k')
    (hk' : k'.cast = k.cast.enlist p) : Continues H k [.created k.nextThread p] k' := by
  have hnext : k'.nextThread = k.nextThread + 1 := (congrArg Cast.nextThread hk' :)
  have hpart : k'.cast.part k.nextThread = some p :=
    (congrFun (congrArg Cast.part hk') k.nextThread).trans (Function.update_self ..)
  refine ⟨.single (.created hbirth hnext hpart) (congrArg Cast.events hk'), ?_, hnext, fun _ => rfl⟩
  exact hk' ▸ h.enlist p

/-- **Moves.** A move is told by a chapter or needs none, if no task ends in it. -/
theorem continues_of_move (h : Recounts H none k.cast) (hb : k.Booked limit) (hm : Move k k')
    (he : endings k'.cast.events ≤ endings k.cast.events) : ∃ K, Continues H k K k' := by
  cases hm with
  | act ha => exact ⟨[], .of_same h (.act ha) (ha.cast_same he)⟩
  | birth hbirth =>
    rcases hbirth.cast hb.books.numbered with hk' | ⟨p, hk'⟩
    · have hnext : k'.nextThread = k.nextThread := (congrArg Cast.nextThread hk' :)
      refine ⟨[.refused], .single (.refused hbirth hnext) (congrArg Cast.events hk'), ?_, hnext,
        fun _ => rfl⟩
      exact hk' ▸ h.refused
    · exact ⟨_, .birth h hbirth hk'⟩
  | turn ht =>
    obtain ⟨freed, t, p, σ, hp, hk'⟩ := ht.cast hb.steered.live_current
    have hcurrent : k'.current = t := (congrArg Cast.current hk' :)
    have hselects : (k.cast.selection freed t p).selects? = some k'.current :=
      hcurrent ▸ Cast.selection_selects
    obtain ⟨hbirth, hends⟩ := Chapter.of_selects hselects
    refine ⟨[k.cast.selection freed t p], .single (.turn ht hselects) ?_, ?_, ?_, fun t => ?_⟩
    · rw [hk', List.flatMap_singleton]
      rfl
    · exact hk' ▸ h.select hp nofun nofun
    · rw [List.countP_singleton, hbirth]
      exact (congrArg Cast.nextThread hk' :)
    · exact (exited_concat (H := [])).trans (hends t)
  | handler on => exact ⟨[], .of_same h (.handler on) rfl⟩

/-- **Courses.** So is a course. -/
theorem continues_of_course (h : Recounts H none k.cast) (hb : k.Booked limit) (hc : Course k k')
    (he : endings k'.cast.events ≤ endings k.cast.events) : ∃ K, Continues H k K k' := by
  induction hc with
  | refl => exact ⟨[], .nil h⟩
  | tail hc hm ih =>
    have hbm := hb.course hc
    have hle := hb.endings_le hc
    have hle' := hbm.endings_le (.single hm)
    obtain ⟨K, hK⟩ := ih (hle'.trans he)
    obtain ⟨K', hK'⟩ := continues_of_move hK.recounts hbm hm (he.trans hle)
    exact ⟨K ++ K', hK.trans hK'⟩

/-! ## Exits -/

theorem acts_endings_le (h : ReflTransGen Act k k') :
    endings k.cast.events ≤ endings k'.cast.events := by
  induction h with
  | refl => exact le_rfl
  | tail _ ha ih =>
    rcases ha.cast with hsame | ⟨task, status, hnoted⟩
    · exact hsame ▸ ih
    · rw [hnoted, Cast.note, endings_append]
      omega

/-- Acts that note no end of a task need no chapter and change nothing in the cast. -/
theorem story_of_acts (h : ReflTransGen Act k k')
    (he : endings k'.cast.events ≤ endings k.cast.events) : Story k [] k' ∧ k'.cast = k.cast := by
  induction h with
  | refl => exact ⟨.nil, rfl⟩
  | tail hacts ha ih =>
    obtain ⟨hstory, hsame⟩ := ih ((acts_endings_le (.single ha)).trans he)
    have hlast := ha.cast_same (he.trans (acts_endings_le hacts))
    exact ⟨hstory.trans (.single (.act ha) (by simp [hlast])), hlast.trans hsame⟩

/-- A masked section goes from state to state by acts of which nothing is noted. -/
theorem masked_acts {body : CoreM α} {a : α} (h : masked body k = .ok a k') :
    ∃ m n, (ReflTransGen Act k m ∧ m.cast = k.cast) ∧ body m = .ok a n ∧
      ReflTransGen Act n k' ∧ k'.cast = n.cast := by
  unfold masked at h
  rw [bind_eq_ok] at h
  obtain ⟨was, m, hm, h⟩ := h
  rw [bind_eq_ok] at h
  obtain ⟨b, n, hn, h⟩ := h
  rw [bind_eq_ok] at h
  obtain ⟨_, n', hn', h⟩ := h
  obtain ⟨rfl, rfl⟩ := pure_eq_ok.mp h
  exact ⟨m, n, ⟨(makes_mask k).ok _ _ hm, cast_onMachine hm⟩, hn, (makes_unmask _ n).ok _ _ hn',
    cast_onMachine hn'⟩

theorem endings_of_blind {x : CoreM α} {a : α} (hx : ∀ φ : Guise, Blind φ.core x)
    (h : x k = .ok a k') : endings k'.cast.events = endings k.cast.events := by
  have hs : Session.onCore x (.ofCore k) = .ok a (.ofCore k') :=
    Session.onCore_eq_ok.mpr ⟨k', h, rfl⟩
  exact Session.endings_of_blind (fun _ => Session.mimics_onCore (hx _))
    (Session.mimics_onCore (hx _)) hs

/-- What an exiting thread does for its family when it has written that its task is over. -/
def bequeath (t : ThreadId) (th : Thread) : CoreM Unit := do
  changeFamily t fun f => { f with parent := none, children := ∅ }
  orphan th.family.children.toList
  match th.family.parent with
  | none => pure ()
  | some parent => reportExit t th.family.exitStatus parent

theorem makes_bequeath (t : ThreadId) (th : Thread) : Makes Act (bequeath t th) := by
  refine (makes_changeFamily _ _).bind fun _ => (makes_orphan _).bind fun _ => ?_
  split
  · exact makes_pure _
  · exact makes_reportExit _ _ _

theorem blind_bequeath (φ : Guise) (t : ThreadId) (th : Thread) : Blind φ.core (bequeath t th) := by
  refine (blind_changeFamily _ _).bind fun _ => (blind_orphan _).bind fun _ => ?_
  split
  · exact blind_pure _
  · exact blind_reportExit _ _ _

theorem leaveFamily_notes (hth : k.threads[t]? = some th) (h : leaveFamily t k = .ok u k') :
    ∃ j, ({ k with journal := j } : Core).cast =
        k.cast.note (notes (.taskExited · th.family.exitStatus) th.task) ∧
      bequeath t th { k with journal := j } = .ok u k' := by
  unfold leaveFamily at h
  simp only [ask_bind_eq_ok, thread_eq_ok_iff] at h
  obtain ⟨th', hth', h⟩ := h
  obtain rfl := Option.some.inj (hth'.symm.trans hth)
  unfold notes bequeath
  cases hl : th'.task.bind Task.label? with
  | some label =>
    simp only [hl] at h
    refine ⟨k.journal.addEvent (.taskExited label th'.family.exitStatus), ?_, h⟩
    simp [cast, Cast.note, Journal.addEvent]
  | none =>
    simp only [hl] at h
    exact ⟨k.journal, by simp, h⟩

/-- An exiting thread writes that its task is over, settles its affairs, of which nothing is noted,
and ends its turn. -/
theorem exit_settles (hs : k.Steered .running) (hx : Core.exit k = .ok u k') :
    ∃ th j m n, k.threads[k.current]? = some th ∧ k.current ≠ k.idle ∧
      ({ k with journal := j } : Core).cast =
        k.cast.note (notes (.taskExited · th.family.exitStatus) th.task) ∧
      ReflTransGen Act k m ∧
      (Story { k with journal := j } [] m ∧ m.cast = ({ k with journal := j } : Core).cast) ∧
      endTurn .dying m = .ok () n ∧ ReflTransGen Act n k' ∧ k'.cast = n.cast := by
  unfold Core.exit at hx
  simp only [outsideHandler_bind_eq_ok, ask_bind_eq_ok, get_bind_eq_ok, demand_bind_eq_ok] at hx
  obtain ⟨-, th, hr, hi, hx⟩ := hx
  have hth : k.threads[k.current]? = some th := (running_eq_ok.mp hr).1
  rw [hs.current_id hth] at hx hi
  cases hheld : k.objects.heldBy k.current with
  | some l =>
    simp only [hheld, bind_eq_ok] at hx
    simp [throw_eq_ok] at hx
  | none =>
    simp only [hheld] at hx
    rw [bind_eq_ok] at hx
    obtain ⟨_, m₁, h₁, hx⟩ := hx
    rw [ask_bind_eq_ok] at hx
    obtain ⟨_, -, hx⟩ := hx
    rw [bind_eq_ok] at hx
    obtain ⟨_, m₂, h₂, hx⟩ := hx
    obtain ⟨m₃, m₄, ⟨hmask, hmasked⟩, he, hunmask, hk'⟩ := masked_acts hx
    obtain ⟨j, hnoted, hrest⟩ := leaveFamily_notes hth h₁
    have hsays : ReflTransGen Act m₁ m₃ := ((makes_say _ _).ok _ _ h₂).trans hmask
    have hendings : endings m₃.cast.events =
        endings ({ k with journal := j } : Core).cast.events := by
      rw [hmasked, cast_say h₂]
      exact endings_of_blind (fun φ => blind_bequeath φ _ _) hrest
    exact ⟨th, j, m₃, m₄, hth, hi, hnoted, ((makes_leaveFamily _ _).ok _ _ h₁).trans hsays,
      story_of_acts (((makes_bequeath _ _ _).ok _ _ hrest).trans hsays) hendings.le, he, hunmask,
      hk'⟩

/-- The last turn of a thread ends with the selection of another one. -/
theorem die_story (h : Recounts H (some k.current) k.cast) (hs : k.Steered .running)
    (hi : k.current ≠ k.idle) (he : endTurn .dying k = .ok u k') :
    ∃ ch, ch.selects? = some k'.current ∧ Story k [ch] k' ∧ Recounts (H ++ [ch]) none k'.cast := by
  obtain ⟨th, hth⟩ := hs.live_current
  have hdie : ∀ x, k.threads[k.current]? = some x → x.id ≠ k.idle :=
    fun x hx => hs.current_id hx ▸ hi
  have hleaves : k'.current ≠ k.current :=
    current_ne_of_endTurn (hs.current_not_mem (by decide)) hi he
  obtain ⟨freed, t, p, hp, hk'⟩ := cast_endTurn hth he
  obtain rfl : k'.current = t := (congrArg Cast.current hk' :)
  refine ⟨k.cast.selection freed k'.current p, Cast.selection_selects,
    .single (.turn (.die hdie he) Cast.selection_selects) ?_, ?_⟩
  · rw [hk', List.flatMap_singleton]
    rfl
  · rw [hk']
    refine h.select hp (fun hg => hleaves (Option.some.inj hg).symm) fun v hv => ⟨rfl, ?_⟩
    exact (Option.some.inj hv).symm

/-- **Exits.** An exit is told, and then the selection of the thread that runs next. -/
theorem exit_story (h : Recounts H none k.cast) (hb : k.Booked limit)
    (hx : Core.exit k = .ok u k') :
    ∃ th ch, k.threads[k.current]? = some th ∧ ch.selects? = some k'.current ∧
      Story k [.exits k.current th.task th.family.exitStatus, ch] k' ∧
      Recounts (H ++ [.exits k.current th.task th.family.exitStatus, ch]) none k'.cast := by
  obtain ⟨th, j, m, n, hth, hi, hnoted, hacts, ⟨hsilent, hsame⟩, he, hunmask, hk'⟩ :=
    exit_settles hb.steered hx
  obtain ⟨hcurrent, hidle, -⟩ := acts_stay hacts
  have hexit : Story k [.exits k.current th.task th.family.exitStatus] { k with journal := j } := by
    refine .single (.exits j hth) ?_
    rw [hnoted, List.flatMap_singleton]
    rfl
  have htold :
      Recounts (H ++ [.exits k.current th.task th.family.exitStatus]) (some m.current) m.cast := by
    rw [hsame, hnoted, hcurrent]
    exact h.exits (cast_part hth) _
  -- The exiting thread is still at work when its last turn ends.
  have hbm : m.Booked limit := hb.course (course_of_acts hacts)
  obtain ⟨ch, hselects, hturn, hrecounts⟩ :=
    die_story htold hbm.steered (by rwa [hcurrent, hidle]) he
  obtain ⟨hlast, -⟩ := story_of_acts hunmask (by rw [hk'])
  refine ⟨th, ch, hth, ?_, ((hexit.trans hsilent).trans hturn).trans hlast, ?_⟩
  · exact hselects.trans (congrArg (fun c : Cast => some c.current) hk'.symm)
  · rw [hk']
    exact List.append_assoc H [_] [ch] ▸ hrecounts

/-- **Births.** A thread that is created is told of first. -/
theorem spawn_story (h : Recounts H none k.cast) (hb : k.Booked limit) {name : String}
    {priority : Priority} {task : Option Task}
    (hx : Core.spawn name priority task k = .ok (.ok t) k')
    (he : endings k'.cast.events ≤ endings k.cast.events) :
    t = k.nextThread ∧ ∃ K, Continues H k (.created t ⟨some name, task⟩ :: K) k' := by
  unfold Core.spawn checkPriority at hx
  simp only [demand_bind_eq_ok, ask_bind_eq_ok] at hx
  obtain ⟨-, creator, -, hx⟩ := hx
  obtain ⟨r, m, hm, hx⟩ := bind_eq_ok.mp hx
  obtain ⟨hbirth, ⟨-, rfl, hm'⟩ | ⟨-, rfl, -⟩⟩ := register_birth hm
  · have hfirst : Continues H k [.created k.nextThread ⟨some name, task⟩] m :=
      .birth h hbirth (hm' ▸ cast_enlist hb.books.numbered _ _ _ _ _)
    have hrest : Course m k' := by
      refine (Makes.bind ?_ fun _ => ?_ : Makes Move _) m |>.ok _ _ hx
      · exact (makes_adopt _ _).moves
      · exact (makes_say _).moves.bind fun _ => (makes_unblock _).moves.bind fun _ =>
          makes_preempt.bind fun _ => makes_pure _
    obtain rfl : k.nextThread = t := by
      simp only [bind_eq_ok, pure_eq_ok] at hx
      obtain ⟨_, _, -, _, _, -, _, _, -, _, _, -, ht, -⟩ := hx
      exact Except.ok.inj ht
    have hbm : m.Booked limit := hb.move (.birth hbirth)
    have hle := he.trans (hb.endings_le (.single (.birth hbirth)))
    obtain ⟨K, hK⟩ := continues_of_course hfirst.recounts hbm hrest hle
    exact ⟨rfl, K, hfirst.trans hK⟩
  · simp only [bind_eq_ok, pure_eq_ok] at hx
    obtain ⟨_, _, -, hx, -⟩ := hx
    cases hx

/-! ## Booting -/

/-- The first two chapters, of the thread that boots the core and of the idle thread. -/
def prologue : List Chapter := [.created 1 ⟨none, none⟩, .created 2 ⟨none, none⟩]

theorem boot_recounts {setup : Setup} {config : Config}
    (h : boot (setup.core config) = .ok (.ok ()) k) : Recounts prologue none k.cast := by
  have hblank : Recounts [] none { (setup.core config).cast with current := 1 } :=
    ⟨rfl, lawful_nil, rfl, nofun, fun t p hp => by simp [cast, Setup.core, Core.bare] at hp,
      fun t p hp => by simp [cast, Setup.core, Core.bare] at hp⟩
  have hnumbered := (books_core setup config).1.numbered
  have hrefused : ∀ {refusal : Refusal} {m : Core},
      (shutDown >>= fun _ => (pure (.error refusal) : CoreM (Except Refusal Unit))) m ≠
      .ok (.ok ()) k := by
    intro refusal m h
    obtain ⟨_, _, -, h⟩ := bind_eq_ok.mp h
    cases (pure_eq_ok.mp h).1
  unfold boot at h
  rw [get_bind_eq_ok, demand_bind_eq_ok, get_bind_eq_ok] at h
  obtain ⟨-, h⟩ := h
  rw [bind_eq_ok] at h
  obtain ⟨a, m, hm, h⟩ := h
  obtain ⟨-, ⟨-, rfl, hm'⟩ | ⟨-, rfl, -⟩⟩ := register_birth hm
  · have hm₁ : m.cast = (setup.core config).cast.enlist ⟨none, none⟩ :=
      hm' ▸ cast_enlist hnumbered _ _ _ _ _
    have hm₂ : m.nextThread = m.machine.handedOut + 1 := by
      rw [hm']; exact congrArg (· + 1) hnumbered
    simp only [changeThread_bind_eq_ok, modify_bind_eq_ok] at h
    obtain ⟨-, h⟩ := h
    -- The thread that boots the core is at work before the idle thread is created.
    let n : Core :=
      { m.mapThread (setup.core config).nextThread fun th => { th with state := .running } with
      current := (setup.core config).nextThread }
    have hn : n.cast = { m.cast with current := 1 } := by
      have hstate : (m.mapThread (setup.core config).nextThread
          fun th => { th with state := .running }).cast = m.cast :=
          cast_mapThread (fun _ => rfl) fun _ => rfl
      rw [← hstate]
      rfl
    obtain ⟨a, v, hv, h⟩ := bind_eq_ok.mp h
    obtain ⟨-, ⟨-, rfl, hv'⟩ | ⟨-, rfl, -⟩⟩ := register_birth (k := n) hv
    · have hv₁ : v.cast = n.cast.enlist ⟨none, none⟩ := hv' ▸ cast_enlist (k := n) hm₂ _ _ _ _ _
      simp only [modify_bind_eq_ok] at h
      simp only [bind_eq_ok, pure_eq_ok] at h
      obtain ⟨_, w, hw, _, w', hw', -, rfl⟩ := h
      rw [cast_say hw', cast_onMachine hw]
      show Recounts prologue none v.cast
      rw [hv₁, hn, hm₁]
      exact (hblank.enlist ⟨none, none⟩).enlist ⟨none, none⟩
    · exact absurd h hrefused
  · exact absurd h hrefused

end Core

/-! ## Transitions -/

/-- What the thread that is created is created with. -/
def Deed.part? : Deed → Option Part
  | .call (.create name _) _ => some ⟨some name, none⟩
  | .call (.spawn name _ task) _ => some ⟨some name, task⟩
  | _ => none

/-- Only creations take numbers. -/
theorem Kinship.Follows.number {A B : Kinship} {t : ThreadId} {d : Deed} (h : A.Follows t B d) :
    B.nextThread = A.nextThread + (if d.creates.isSome then 1 else 0) := by
  cases hn : d.creates with
  | some n =>
    obtain ⟨-, -, rfl⟩ := h.create hn
    rfl
  | none =>
    cases hc : d.collects with
    | some c =>
      obtain ⟨_, -, -, rfl⟩ := h.collect hc
      rfl
    | none =>
      cases hs : d.setsStatus with
      | some v =>
        obtain ⟨-, rfl⟩ := h.set hs
        rfl
      | none =>
        cases hx : d.exits with
        | true => exact (h.exit hx).nextThread
        | false => exact (h.plain hn hc hs hx).1

namespace Session

open ThreadCore.Core (Story Course)

variable {s s' : Session} {d : Deed} {log : List Entry} {frames : List Bool}

/-- The chapters tell who is created by the transition, and with what, and who exits in it, and with
what status. -/
structure Attests (s : Session) (d : Deed) (K : List Chapter) : Prop where
  created : ∀ t p, .created t p ∈ K ↔ d.creates = some t ∧ d.part? = some p
  exits : ∀ t task status, .exits t task status ∈ K ↔ d.exits = true ∧ t = s.core.current ∧
    ∃ th, s.core.threads[t]? = some th ∧ task = th.task ∧ status = th.family.exitStatus

/-- Whatever is not an exit notes no end of a task. -/
theorem Leads.endings (hd : Leads s d s') (hx : d.exits = false) :
    endings s'.core.cast.events = endings s.core.cast.events := by
  cases hd with
  | @call c a _ he =>
    have hne : c ≠ .exit := by
      rintro rfl
      cases hx
    have hblind := execute_mimics (c := c) muted_prompt.toHonest (fun _ => muted_prompt)
      (fun _ => muted_plain) fun he => absurd he hne
    rw [muted_plain.call] at hblind
    exact endings_of_blind (prefixed_blind c) hblind he
  | enter he =>
    exact endings_of_blind (fun j => blind_enter _ (prefixed_prompt j))
      (blind_enter _ muted_prompt) he
  | leave he =>
    exact endings_of_blind (fun j => blind_leave _ (prefixed_prompt j) _)
      (blind_leave _ muted_prompt _) he

/-- Threads are created in one way. -/
theorem Leads.spawn {n : ThreadId} (hd : Leads s d s') (hn : d.creates = some n) :
    ∃ name priority task, Core.spawn name priority task s.core = .ok (.ok n) s'.core ∧
      d.part? = some ⟨some name, task⟩ := by
  have hreport : ∀ {step : CoreM (Except Refusal ThreadId)},
      (onCore step >>= fun r => pure (Answer.ofExcept Reply.number r)) s =
        .ok (.done (.number n)) s' →
      step s.core = .ok (.ok n) s'.core := by
    intro step h
    obtain ⟨r, k, hk, hr, rfl⟩ := report_ok.mp h
    cases r with
    | ok t =>
      cases hr
      exact hk
    | error refusal => cases hr
  cases hd with
  | @call c a _ he =>
    unfold Deed.creates at hn
    split at hn
    · rename_i hcall
      cases hn
      cases hcall
      exact ⟨_, _, none, hreport he, rfl⟩
    · rename_i hcall
      cases hn
      cases hcall
      exact ⟨_, _, _, hreport he, rfl⟩
    · cases hn
  | enter => cases hn
  | leave => cases hn

/-- Threads exit in one way. -/
theorem Leads.exit (hd : Leads s d s') (hx : d.exits = true) :
    ∃ u, Core.exit s.core = .ok u s'.core := by
  unfold Deed.exits at hx
  split at hx
  · cases hd with
    | call he =>
      obtain ⟨u, k, hk, hk'⟩ := act_eq_ok he
      exact ⟨u, hk' ▸ hk⟩
  · cases hx

/-- The exit of the current thread and a selection are all that is to be told of an exit. -/
theorem Attests.of_exit {th : Thread} {ch : Chapter} {t : ThreadId} (hx : d.exits = true)
    (hth : s.core.threads[s.core.current]? = some th) (hselects : ch.selects? = some t) :
    s.Attests d [.exits s.core.current th.task th.family.exitStatus, ch] := by
  obtain ⟨hn, -, -⟩ := Deed.only_exits hx
  obtain ⟨hbirth, hends⟩ := Chapter.of_selects hselects
  have hnobody : ∀ t p, Chapter.created t p ≠ ch := by
    rintro t p rfl
    cases hbirth
  have hnot : ∀ t task status, Chapter.exits t task status ≠ ch := by
    rintro t task status rfl
    simpa using hends t
  refine ⟨fun t p => ?_, fun t task status => ?_⟩
  · simp [hn, hnobody t p]
  · simp only [List.mem_cons, Chapter.exits.injEq, hnot, List.not_mem_nil, or_false, hx, true_and]
    constructor
    · rintro ⟨rfl, rfl, rfl⟩
      exact ⟨rfl, th, hth, rfl, rfl⟩
    · rintro ⟨rfl, th', hth', rfl, rfl⟩
      obtain rfl := Option.some.inj (hth'.symm.trans hth)
      exact ⟨rfl, rfl, rfl⟩

/-- **Transitions.** Every transition has a story that goes on from the one before. -/
theorem Leads.story {H : List Chapter} {limit : Nat} (h : Recounts H none s.core.cast)
    (hs : s.Kindred) (hb : s.core.Booked limit) (hd : Leads s d s') :
    ∃ K, Story s.core K s'.core ∧ Recounts (H ++ K) none s'.core.cast ∧ s.Attests d K := by
  have hnumber : s'.core.nextThread = s.core.nextThread + (if d.creates.isSome then 1 else 0) :=
    (leads_kinship hs hd).2.number
  have hcount : ∀ {K : List Chapter}, s'.core.nextThread = s.core.nextThread +
      K.countP Chapter.isBirth → K.countP Chapter.isBirth = if d.creates.isSome then 1 else 0 :=
    fun h => Nat.add_left_cancel (h.symm.trans hnumber)
  cases hx : d.exits with
  | true =>
    obtain ⟨u, hexit⟩ := hd.exit hx
    obtain ⟨th, ch, hth, hselects, hstory, hrecounts⟩ := Core.exit_story h hb hexit
    exact ⟨_, hstory, hrecounts, .of_exit hx hth hselects⟩
  | false =>
    have hendings := hd.endings hx
    cases hn : d.creates with
    | none =>
      obtain ⟨K, hK⟩ := Core.continues_of_course h hb hd.course hendings.le
      have hbirths : K.countP Chapter.isBirth = 0 := by simpa [hn] using hcount hK.number
      refine ⟨K, hK.story, hK.recounts, fun t p => ?_, fun t task status => ?_⟩
      · simp [Chapter.not_created hbirths, hn]
      · simp [Chapter.not_exits hK.remains, hx]
    | some n =>
      obtain ⟨name, priority, task, hspawn, hpart⟩ := hd.spawn hn
      obtain ⟨hnext, K, hK⟩ := Core.spawn_story h hb hspawn hendings.le
      have hbirths : K.countP Chapter.isBirth = 0 := by
        have hone := hcount hK.number
        rw [List.countP_cons_of_pos rfl] at hone
        simpa [hn] using hone
      refine ⟨_, hK.story, hK.recounts, fun t p => ?_, fun t task status => ?_⟩
      · simp [Chapter.not_created hbirths, hn, hpart, eq_comm]
      · simp [Chapter.not_exits hK.remains, hx]

/-! ## Runs -/

/-- The story of a run, transition by transition. -/
inductive Told : List Entry → List Chapter → Prop
  | boot : Told [] Core.prologue
  | step {log : List Entry} {H K : List Chapter} {s s' : Session} {d : Deed} : Told log H →
      Story s.core K s'.core → s.Attests d K → Told (⟨s, d, s'⟩ :: log) (H ++ K)

/-- What the journal of a session tells about the run that led there. -/
structure Protocol (log : List Entry) (s : Session) (H : List Chapter) : Prop where
  told : Told log H
  /-- The events are those of the story, in this order, and there are no others. -/
  journal : s.core.journal.events.toList = H.flatMap Chapter.events
  lawful : Lawful H
  /-- The processor goes from thread to thread, and the last one runs. -/
  path : Path 1 (switches s.core.journal.events.toList) s.core.current
  /-- So it is at the end of every turn, in the middle of operations too. -/
  turn : ∀ k, Course s.core k → k.SelectsOnce

/-- **The protocol of events.** The journal of a run is the events of a story. The story has a
chapter for every thread that a call creates, one for every call that exits, with the status that
the thread exits with, and one for every end of a turn, whether the running thread is selected again
or left for another one. It obeys the laws. So the switches are a path from the first thread to the
one that runs. The function of a thread begins when the processor is first switched to it, and never
again. Every selection of a thread that has a task with a label activates it once, before the switch
if there is one. The exit of the thread ends the task once, and after this the thread is never
selected. -/
theorem logged_protocol {allowed : List Entry → Session → Call → Prop}
    (h : Logged allowed log frames s) : ∃ H, Protocol log s H := by
  have hall : ∃ H limit, Told log H ∧ s.core.Booked limit ∧ Recounts H none s.core.cast := by
    refine h.invariant (P := fun log s => ∃ H limit, Told log H ∧ s.core.Booked limit ∧
      Recounts H none s.core.cast) ?_ ?_
    · intro setup config k _ hk
      have hbooks := (Core.boot_books hk).2 rfl
      exact ⟨_, setup.limit, .boot, ⟨steered_boot hk, hbooks.1, hbooks.2⟩, Core.boot_recounts hk⟩
    · rintro log frames s d s' hlog ⟨H, limit, htold, hbooked, hrecounts⟩ hd -
      obtain ⟨K, hstory, hnext, hattests⟩ := hd.story hrecounts hlog.kindred hbooked
      exact ⟨H ++ K, limit, htold.step hstory hattests, hbooked.course hd.course, hnext⟩
  obtain ⟨H, limit, htold, hbooked, hrecounts⟩ := hall
  have hjournal : s.core.journal.events.toList = H.flatMap Chapter.events := hrecounts.journal
  refine ⟨H, htold, hjournal, hrecounts.lawful, ?_, fun k hk => (hbooked.course hk).selectsOnce⟩
  rw [hjournal, ← Core.cast_current, ← hrecounts.runner]
  exact hrecounts.lawful.path

/-- A thread with a task starts, is selected again when it yields, sets its exit status and exits.
Its page is taken back when the next turn ends. -/
theorem logged_protocol_exited : ∃ log s H, Protocol log s H ∧
    s.core.journal.events.toList = [.allocated 1, .allocated 2, .allocated 3, .activated "job",
      .switched 1 3, .launched "works", .activated "job", .taskExited "job" 7, .switched 3 1,
      .freed 3] := by
  have hrun : (replayFrom (fun _ _ _ => true) ⟨none, none, none, false, none⟩
      [.spawn "works" (some 40) (some (.named "job")), .yield, .setExitStatus 7, .exit, .yield]).any
      (fun r =>
        r.2.core.journal.events.toList =
          [.allocated 1, .allocated 2, .allocated 3, .activated "job",
          .switched 1 3, .launched "works", .activated "job", .taskExited "job" 7, .switched 3 1,
          .freed 3]) = true := by
    decide +kernel
  obtain ⟨⟨log, s⟩, hs, hrun⟩ := (Option.any_eq_true _ _).mp hrun
  have hlog : Logged (fun _ _ _ => True) log [] s := logged_replayFrom (fun _ _ _ _ => trivial) hs
  obtain ⟨H, hprotocol⟩ := logged_protocol hlog
  exact ⟨log, s, H, hprotocol, of_decide_eq_true hrun⟩

end Session

end ThreadCore
