import ThreadCore.Bench.Basic
import ThreadCore.Proofs.Steadiness

/-!
# Names

A name is filled into a buffer, character after character, until one does not fit. What is in the
buffer then is the longest beginning of the name that ends between two characters and has room
(`Name.Longest`), and nothing else is. So to cut a name twice is to cut it once, and the name of a
thread is told by that beginning (`Core.spawn_names`). It stays the same for as long as the thread
lives.
-/

namespace ThreadCore

namespace Name

variable {r : Nat} {cs xs : List Char} {p q s : String}

/-! ## The characters that fit -/

theorem fitting_isPrefix (r : Nat) (cs : List Char) : fitting r cs <+: cs := by
  induction cs generalizing r with
  | nil => exact List.nil_prefix
  | cons c cs ih =>
    unfold fitting
    split
    · exact List.cons_prefix_cons.mpr ⟨rfl, ih _⟩
    · exact List.nil_prefix

theorem utf8Len_fitting_le (r : Nat) (cs : List Char) : String.utf8Len (fitting r cs) ≤ r := by
  induction cs generalizing r with
  | nil => exact Nat.zero_le r
  | cons c cs ih =>
    unfold fitting
    split
    · rename_i hfits
      rw [String.utf8Len_cons]
      have := ih (r - c.utf8Size)
      omega
    · exact Nat.zero_le r

/-- A beginning that has room is a beginning of what fits: the first character that does not fit
ends both. -/
theorem isPrefix_fitting (h : xs <+: cs) (hroom : String.utf8Len xs ≤ r) : xs <+: fitting r cs := by
  induction cs generalizing r xs with
  | nil => exact h
  | cons c cs ih =>
    cases xs with
    | nil => exact List.nil_prefix
    | cons x xs =>
      obtain ⟨rfl, hrest⟩ := List.cons_prefix_cons.mp h
      rw [String.utf8Len_cons] at hroom
      rw [fitting, if_pos (by omega)]
      exact List.cons_prefix_cons.mpr ⟨rfl, ih hrest (by omega)⟩

theorem eq_nil_of_utf8Len (h : String.utf8Len cs = 0) : cs = [] := by
  cases cs with
  | nil => rfl
  | cons c cs =>
    rw [String.utf8Len_cons] at h
    exact absurd (Nat.eq_zero_of_add_eq_zero h).2 c.utf8Size_pos.ne'

/-! ## The longest beginning -/

/-- `p` is the longest beginning of `s` that ends between two characters and has room. -/
structure Longest (p s : String) : Prop where
  begins : ∃ rest, s = p ++ rest
  fits : p.utf8ByteSize ≤ room
  longest : ∀ pos : String.Pos.Raw, pos.IsValid s → pos.byteIdx ≤ room →
    pos.byteIdx ≤ p.utf8ByteSize

theorem begins_iff : (∃ rest, s = p ++ rest) ↔ p.toList <+: s.toList := by
  constructor
  · rintro ⟨rest, rfl⟩
    exact ⟨rest.toList, String.toList_append.symm⟩
  · rintro ⟨rest, hrest⟩
    refine ⟨String.ofList rest, String.toList_inj.mp ?_⟩
    rw [String.toList_append, String.toList_ofList, hrest]

theorem toList_clip (s : String) : (clip s).toList = fitting room s.toList := String.toList_ofList

theorem utf8ByteSize_eq (s : String) : s.utf8ByteSize = String.utf8Len s.toList := by
  rw [← String.utf8ByteSize_ofList, String.ofList_toList]

theorem longest_clip (s : String) : Longest (clip s) s where
  begins := begins_iff.mpr (toList_clip s ▸ fitting_isPrefix _ _)
  fits := by
    rw [utf8ByteSize_eq, toList_clip]
    exact utf8Len_fitting_le _ _
  longest pos hpos hroom := by
    obtain ⟨q, rest, hq, rfl⟩ := String.Pos.Raw.isValid_iff_exists_append.mp hpos
    have hbegins : q.toList <+: fitting room s.toList :=
      isPrefix_fitting (begins_iff.mp ⟨rest, hq⟩) (utf8ByteSize_eq q ▸ hroom)
    obtain ⟨cs, hcs⟩ := hbegins
    show q.utf8ByteSize ≤ _
    rw [utf8ByteSize_eq, utf8ByteSize_eq, toList_clip, ← hcs, String.utf8Len_append]
    exact Nat.le_add_right _ _

/-- There is no other. -/
theorem Longest.eq_clip (h : Longest p s) : p = clip s := by
  obtain ⟨hbegins, hfits, hlongest⟩ := h
  obtain ⟨rest, hrest⟩ := (longest_clip s).begins
  have hle : (clip s).utf8ByteSize ≤ p.utf8ByteSize :=
    hlongest (clip s).rawEndPos (String.Pos.Raw.isValid_iff_exists_append.mpr ⟨_, rest, hrest, rfl⟩)
      (longest_clip s).fits
  obtain ⟨cs, hcs⟩ :=
    isPrefix_fitting (r := room) (begins_iff.mp hbegins) (utf8ByteSize_eq p ▸ hfits)
  rw [utf8ByteSize_eq, utf8ByteSize_eq, toList_clip, ← hcs, String.utf8Len_append] at hle
  have hnil : cs = [] := eq_nil_of_utf8Len (by omega)
  refine String.toList_inj.mp ?_
  rw [toList_clip, ← hcs, hnil, List.append_nil]

/-- What has room is kept whole. -/
theorem clip_of_le (h : s.utf8ByteSize ≤ room) : clip s = s := by
  have hwhole : Longest s s := by
    refine ⟨⟨"", String.append_empty.symm⟩, h, fun pos hpos _ => ?_⟩
    exact hpos.le_rawEndPos
  exact hwhole.eq_clip.symm

theorem clip_clip (s : String) : clip (clip s) = clip s := clip_of_le (longest_clip s).fits

/-! ## Filling a buffer -/

/-- A text that grows by one character at a time, unless the character is turned down. -/
structure Buffer (B : Type) where
  empty : B
  push : B → Char → Option B
  text : B → String

namespace Buffer

variable {B : Type} {buffer : Buffer B} {b : B}

/-- The buffer has so much room, and turns a character down only if what is left does not hold
it. -/
structure Roomy (buffer : Buffer B) (room : Nat) : Prop where
  text_empty : buffer.text buffer.empty = ""
  push_isSome : ∀ b c, (buffer.push b c).isSome ↔ (buffer.text b).utf8ByteSize + c.utf8Size ≤ room
  text_push : ∀ b c b', buffer.push b c = some b' → buffer.text b' = (buffer.text b).push c

/-- Pushes characters, up to the first that is turned down. -/
def fill (buffer : Buffer B) (b : B) : List Char → B
  | [] => b
  | c :: cs =>
    match buffer.push b c with
    | none => b
    | some b' => buffer.fill b' cs

/-- What a buffer keeps of a text. -/
def truncate (buffer : Buffer B) (s : String) : String :=
  buffer.text (buffer.fill buffer.empty s.toList)

theorem text_fill (h : buffer.Roomy r) (b : B) (cs : List Char) :
    (buffer.text (buffer.fill b cs)).toList =
    (buffer.text b).toList ++ fitting (r - (buffer.text b).utf8ByteSize) cs := by
  induction cs generalizing b with
  | nil => exact (List.append_nil _).symm
  | cons c cs ih =>
    cases hpush : buffer.push b c with
    | none =>
      have hfull : ¬(buffer.text b).utf8ByteSize + c.utf8Size ≤ r := fun hfits => by
        have hsome := (h.push_isSome b c).mpr hfits
        rw [hpush] at hsome
        cases hsome
      have hpos := c.utf8Size_pos
      rw [fill, hpush, fitting, if_neg (by omega), List.append_nil]
    | some b' =>
      have hfits := (h.push_isSome b c).mp (hpush ▸ rfl)
      rw [fill, hpush, fitting, if_pos (by omega)]
      refine (ih b').trans ?_
      rw [h.text_push b c b' hpush, String.toList_push, String.utf8ByteSize_push, Nat.sub_add_eq,
        List.append_assoc]
      rfl

/-- Strings as a buffer with so much room. -/
def bounded (room : Nat) : Buffer String where
  empty := ""
  push b c := if b.utf8ByteSize + c.utf8Size ≤ room then some (b.push c) else none
  text b := b

theorem roomy_bounded (room : Nat) : (bounded room).Roomy room := by
  refine ⟨rfl, fun b c => Option.isSome_ite, fun b c b' h => ?_⟩
  exact (Option.ite_some_none_eq_some.mp h).2 ▸ rfl

/-- A buffer with room for names keeps the part that a thread keeps. -/
theorem truncate_eq_clip (h : buffer.Roomy room) (s : String) : buffer.truncate s = clip s := by
  refine String.toList_inj.mp ?_
  rw [truncate, text_fill h, h.text_empty, toList_clip]
  rfl

end Buffer

end Name

namespace Core

open Relation

variable {k k' m : Core} {s t : ThreadId} {σ : ThreadState} {u : Unit} {v : String}

/-! ## Names last -/

/-- The name of each live thread. -/
def names (k : Core) (t : ThreadId) : Option String := (k.threads[t]?).map Thread.name

theorem names_mapThread {f : Thread → Thread} (hf : ∀ th, (f th).name = th.name) :
    (k.mapThread t f).names = k.names :=
  funext fun u => map_getElem?_mapThread hf u

theorem names_congr (h : k'.threads = k.threads) : k'.names = k.names := by
  funext t
  rw [names, names, h]

theorem keeps_names_resume (s t : ThreadId) (running resumed : Context) :
    Keeps names (resume s t running resumed) := by
  have hrecord : ∀ e, Keeps names (record e) := fun e => keeps_modify fun _ => rfl
  have hswitch : Keeps names (onMachine (Machine.switch running resumed)) := fun k a k' h => by
    obtain ⟨w, -, rfl⟩ := onMachine_eq_ok.mp h
    rfl
  have hchange : ∀ context, Keeps names (changeThread t fun th => { th with context := context }) :=
    fun context k a k' h => (changeThread_eq_ok.mp h).2 ▸ names_mapThread fun _ => rfl
  refine (hrecord _).bind fun _ => hswitch.bind fun _ => (hchange _).bind fun _ => ?_
  split
  · exact hrecord _
  · exact keeps_pure _

/-- Whoever lives on has the name it had. -/
def Unrenamed (k k' : Core) : Prop := ∀ t v, k'.names t = some v → k.names t = some v

theorem switchTo_unrenamed (h : switchTo s t k = .ok u k') : k.Unrenamed k' := by
  unfold switchTo at h
  rw [modify_bind_eq_ok, bind_eq_ok] at h
  obtain ⟨_, m, hm, h⟩ := h
  have hsaid : m.names = k.names := names_congr (quiet_say hm).threads
  simp only [ask_bind_eq_ok, thread_eq_ok_iff] at h
  obtain ⟨th, -, h⟩ := h
  intro t' v hv
  split at h
  · simp only [modify_bind_eq_ok, ask_bind_eq_ok] at h
    obtain ⟨resumed, -, h⟩ := h
    rw [keeps_names_resume _ _ _ _ _ _ _ h, names, Std.ExtTreeMap.getElem?_erase] at hv
    split at hv
    · cases hv
    · exact hsaid ▸ hv
  · simp only [ask_bind_eq_ok] at h
    obtain ⟨resumed, -, h⟩ := h
    rw [keeps_names_resume _ _ _ _ _ _ _ h] at hv
    exact hsaid ▸ hv

theorem endTurn_unrenamed (h : endTurn σ k = .ok u k') : k.Unrenamed k' := by
  unfold endTurn at h
  simp only [get_bind_eq_ok, demand_bind_eq_ok, ask_bind_eq_ok, thread_eq_ok_iff] at h
  obtain ⟨-, -, -, -, h⟩ := h
  rw [bind_eq_ok] at h
  obtain ⟨_, m, hm, h⟩ := h
  rw [changeThread_bind_eq_ok] at h
  obtain ⟨-, h⟩ := h
  obtain ⟨t, _, _, n, -, -, -, -, hn, hrest⟩ := dispatch_eq_ok h
  let leaving := m.mapThread k.current fun th => { th with state := σ }
  have hstarted : n.names = ({ leaving with ready := leaving.ready.remove t } : Core).names :=
    (names_congr hn.threads).trans (names_mapThread fun _ => rfl)
  have hleaving : leaving.names = m.names := names_mapThread fun _ => rfl
  have hnames : n.names = k.names :=
    hstarted.trans (hleaving.trans (names_congr (quiet_reclaim hm).threads))
  split at hrest
  · intro t' v hv
    rwa [hrest, hnames] at hv
  · intro t' v hv
    exact hnames ▸ switchTo_unrenamed hrest t' v hv

theorem Act.names (h : Act k k') : k'.names = k.names ∧ k'.nextThread = k.nextThread := by
  cases h with
  | reassess t f hf => exact ⟨names_mapThread fun th => (congrArg Thread.name (hf th) :), rfl⟩
  | overwrite t th stack => exact ⟨names_mapThread fun _ => rfl, rfl⟩
  | family t f => exact ⟨names_mapThread fun _ => rfl, rfl⟩
  | awaken t th => exact ⟨names_mapThread fun _ => rfl, rfl⟩
  | _ => exact ⟨rfl, rfl⟩

theorem Turn.unrenamed (h : Turn k k') : k.Unrenamed k' ∧ k'.nextThread = k.nextThread := by
  cases h with
  | block h => exact ⟨endTurn_unrenamed h, (endTurn_number h).1⟩
  | lineUp _ _ hm h =>
    obtain ⟨-, rfl⟩ := enqueueReady_eq_ok.mp hm
    have hready := endTurn_unrenamed h
    exact ⟨hready, (endTurn_number h).1⟩
  | die _ h => exact ⟨endTurn_unrenamed h, (endTurn_number h).1⟩

/-- Number `t` has been given out, and no live thread has it under another name. -/
structure Named (t : ThreadId) (v : String) (k : Core) : Prop where
  given : t < k.nextThread
  names : ∀ v', k.names t = some v' → v' = v

theorem Named.move (h : Named t v k) (hm : Move k k') : Named t v k' := by
  obtain ⟨hgiven, hnames⟩ := h
  cases hm with
  | act ha =>
    obtain ⟨hsame, hnext⟩ := ha.names
    exact ⟨hnext ▸ hgiven, hsame ▸ hnames⟩
  | birth hb =>
    cases hb with
    | refused => exact ⟨hgiven, hnames⟩
    | enlisted name priority entry task =>
      refine ⟨hgiven.trans (Nat.lt_succ_self _), fun v' hv => hnames v' ?_⟩
      have hother : t ≠ k.pageTaken.nextThread := Nat.ne_of_lt hgiven
      rw [Core.names, getElem?_enlist, if_neg hother] at hv
      exact hv
  | turn ht =>
    obtain ⟨hunrenamed, hnext⟩ := ht.unrenamed
    exact ⟨hnext ▸ hgiven, fun v' hv => hnames v' (hunrenamed t v' hv)⟩
  | handler on => exact ⟨hgiven, hnames⟩

theorem Named.course (h : Named t v k) (hc : Course k k') : Named t v k' :=
  hc.keeps h fun _ _ => Named.move

theorem named_enlist (k : Core) (th : Thread) : Named k.nextThread th.name (k.enlist th) where
  given := Nat.lt_succ_self _
  names v' hv := by
    rw [Core.names, getElem?_enlist, if_pos rfl] at hv
    exact (Option.some.inj hv).symm

/-- A thread that was created is live, under the part of the name that is kept. -/
theorem spawn_named {name : String} {priority : Priority} {task : Option Task}
    (h : spawn name priority task k = .ok (.ok t) k') :
    Named t (Name.clip name) k' ∧ ∃ th, k'.threads[t]? = some th := by
  unfold spawn checkPriority at h
  simp only [demand_bind_eq_ok, ask_bind_eq_ok] at h
  obtain ⟨-, creator, -, h⟩ := h
  obtain ⟨r, m, hm, h⟩ := bind_eq_ok.mp h
  rcases register_eq_ok hm with ⟨refusal, rfl, -⟩ | ⟨n, page, -, rfl, rfl⟩
  · obtain ⟨_, _, -, h⟩ := bind_eq_ok.mp h
    cases (pure_eq_ok.mp h).1
  · simp only [bind_eq_ok, pure_eq_ok, Except.ok.injEq] at h
    obtain ⟨_, m₁, h₁, _, m₂, h₂, _, m₃, h₃, _, m₄, h₄, rfl, rfl⟩ := h
    let th := Thread.create n.nextThread (Name.clip (Name.clip name)) priority page (some name) task
    have hborn : Named n.nextThread (Name.clip name) (n.enlist th) :=
      Name.clip_clip name ▸ named_enlist n th
    have hadopted : ReflTransGen Act (n.enlist th) m₁ := (makes_adopt _ _ _).ok _ _ h₁
    have hcourse : Course (n.enlist th) m₄ := (course_of_acts hadopted).trans <|
      ((makes_say _).moves _ |>.ok _ _ h₂).trans <|
        ((makes_unblock _).moves _ |>.ok _ _ h₃).trans <| (makes_preempt _).ok _ _ h₄
    refine ⟨hborn.course hcourse, ?_⟩
    have hids : (m₁.threads[n.nextThread]?).map Thread.id = some n.nextThread := by
      rw [(acts_stay hadopted).2.2, getElem?_enlist, if_pos rfl]
      rfl
    obtain ⟨th₁, hth₁, -⟩ := Option.map_eq_some_iff.mp hids
    have hestate : m₄.estate = m₁.estate :=
      (keeps_preempt _ _ _ h₄).trans ((keeps_unblock _ _ _ _ h₃).trans (keeps_say _ _ _ _ h₂))
    have hties : m₄.ties n.nextThread = m₁.ties n.nextThread :=
      congrFun (congrArg Estate.ties hestate) _
    rw [ties, ties, hth₁] at hties
    obtain ⟨th₄, hth₄, -⟩ := Option.map_eq_some_iff.mp hties
    exact ⟨th₄, hth₄⟩

/-- **A name is the longest beginning that has room.** Whatever the buffer is made of, what it keeps
of a text is the longest beginning that ends between two characters and takes no more than sixteen
bytes, and there is only one. To keep it again changes nothing. So a thread that was created under a
name has what was kept of that name, once and for all, and texts that have the same longest
beginning name their threads alike. -/
theorem spawn_names {B : Type} {buffer : Name.Buffer B} (hb : buffer.Roomy Name.room) (s : String) :
    Name.Longest (buffer.truncate s) s ∧ (∀ p, Name.Longest p s → p = buffer.truncate s) ∧
      buffer.truncate (buffer.truncate s) = buffer.truncate s ∧
      ∀ s' p, Name.Longest p s → Name.Longest p s' → buffer.truncate s' = buffer.truncate s ∧
        ∀ priority task k k' t, spawn s' priority task k = .ok (.ok t) k' →
          (∃ th, k'.threads[t]? = some th) ∧
            ∀ m, Course k' m → ∀ th, m.threads[t]? = some th → th.name = buffer.truncate s := by
  simp only [Name.Buffer.truncate_eq_clip hb]
  refine ⟨Name.longest_clip s, fun _ => Name.Longest.eq_clip, Name.clip_clip s,
    fun s' p hp hp' => ?_⟩
  have hsame : Name.clip s' = Name.clip s := hp'.eq_clip.symm.trans hp.eq_clip
  refine ⟨hsame, fun priority task k k' t hspawn => ?_⟩
  obtain ⟨hnamed, hlive⟩ := spawn_named hspawn
  refine ⟨hlive, fun m hm th hth => ?_⟩
  rw [← hsame]
  refine (hnamed.course hm).names th.name ?_
  rw [names, hth]
  rfl

/-- The sixteenth byte of the name is the first of two that make up a character, so it is not kept,
nor is anything after it. -/
theorem spawn_names_between :
    (Name.Buffer.bounded 16).Roomy Name.room ∧ Name.Longest "abcdefghijklmno" "abcdefghijklmnoéx" ∧
      ∃ k k' th, spawn "abcdefghijklmnoéx" 20 none k = .ok (.ok 3) k' ∧ k'.threads[3]? = some th ∧
        th.name = "abcdefghijklmno" := by
  have hroomy : (Name.Buffer.bounded 16).Roomy Name.room := Name.Buffer.roomy_bounded 16
  have hkept : (Name.Buffer.bounded 16).truncate "abcdefghijklmnoéx" = "abcdefghijklmno" := rfl
  obtain ⟨hlongest, -, -, hnames⟩ := spawn_names hroomy "abcdefghijklmnoéx"
  have hrun : (Session.replayFrom (fun _ _ _ => true) ⟨none, none, none, false, none⟩ []).any
      (fun r =>
        (Bench.Line.ofResult (spawn "abcdefghijklmnoéx" 20 none r.2.core)).outcome.toOption.bind
          Except.toOption = some 3) = true := by
    decide +kernel
  obtain ⟨⟨log, s⟩, -, hrun⟩ := (Option.any_eq_true _ _).mp hrun
  have hthree := of_decide_eq_true hrun
  cases hspawn : spawn "abcdefghijklmnoéx" 20 none s.core with
  | error halt k' =>
    rw [hspawn] at hthree
    cases hthree
  | ok a k' =>
    rw [hspawn] at hthree
    cases a with
    | error refusal => cases hthree
    | ok t =>
      obtain rfl := Option.some.inj hthree
      obtain ⟨⟨th, hth⟩, hname⟩ := (hnames _ _ hlongest hlongest).2 _ _ _ _ _ hspawn
      exact ⟨hroomy, hkept ▸ hlongest, s.core, k', th, hspawn, hth, hkept ▸ hname k' .refl th hth⟩

end Core

end ThreadCore
