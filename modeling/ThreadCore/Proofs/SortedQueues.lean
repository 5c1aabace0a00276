import Mathlib.Data.Prod.Lex
import ThreadCore.Proofs.StableSorts
import ThreadCore.Proofs.Sweeps
import ThreadCore.Proofs.Trials

/-!
# Ranking late and sorting early

A queue keeps threads in the order they arrived and looks at their ranks only when it is asked for
the foremost. At any time it holds those that have arrived and not left since, each once
(`Ranked.entries_finish`).

A sorted queue keeps a ticket for each thread, with its rank and the number of its arrival, and
sorts the tickets again whenever one changes, the greatest rank first and the earliest arrival first
among equals. Nobody can tell the two apart, whatever the ranks are and however they change
(`Ranked.run_agrees`). As long as the ranks stay, what comes out of a queue is its stable sort
(`Ranked.drain`).
-/

namespace ThreadCore.Ranked

/-! ## Queues that rank late -/

/-- What a queue is asked for. -/
inductive Request
  | push (t : ThreadId)
  | remove (t : ThreadId)
  | keep (p : ThreadId → Bool)
  | peek
  | pop

/-- A request, and the ranks that threads have at that moment. -/
structure Op (β : Type) where
  rank : ThreadId → β
  request : Request

/-- What a queue answers. -/
inductive Reply
  | nothing
  | flag (b : Bool)
  | thread (t : Option ThreadId)
deriving DecidableEq

/-! ## Who waits -/

section

variable {β : Type}

/-- The thread that has arrived, if one has. -/
def arrival? : Op β × Except Halt Reply → Option ThreadId
  | (⟨_, .push t⟩, .ok _) => some t
  | _ => none

/-- Whether `t` leaves, if it waits. -/
def dismisses (t : ThreadId) : Op β × Except Halt Reply → Bool
  | (⟨_, .remove u⟩, _) => t = u
  | (⟨_, .keep p⟩, _) => !p t
  | (⟨_, .pop⟩, .ok (.thread (some u))) => t = u
  | _ => false

/-- Those that have arrived and not left since, in the order of their arrival. -/
def waiting : List (Op β × Except Halt Reply) → List ThreadId
  | [] => []
  | e :: later =>
    ((arrival? e).toList.filter fun t => later.all fun l => !dismisses t l) ++ waiting later

theorem waiting_concat (done : List (Op β × Except Halt Reply)) (e : Op β × Except Halt Reply) :
    waiting (done ++ [e]) =
      (waiting done).filter (fun t => !dismisses t e) ++ (arrival? e).toList := by
  induction done with
  | nil => exact (List.append_nil _).trans (List.filter_eq_self.mpr fun _ _ => rfl)
  | cons first later ih =>
    have hsplit : ∀ t, ((later ++ [e]).all fun l => !dismisses t l) =
        (!dismisses t e && later.all fun l => !dismisses t l) := fun t => by
      rw [List.all_append, List.all_cons, List.all_nil, Bool.and_true, Bool.and_comm]
    rw [List.cons_append, waiting, waiting, ih, List.filter_append, List.filter_filter,
      List.append_assoc]
    simp only [hsplit]

end

variable {β : Type} [LinearOrder β]

/-- Whether `t` comes before `u` where these are the ranks. -/
def precedes (rank : ThreadId → β) (t u : ThreadId) : Bool := rank u < rank t

/-- A queue serves a request. -/
def serve (op : Op β) : EStateM Halt Queue Reply := fun q =>
  match op.request with
  | .push t =>
    match q.push t with
    | .error halt => .error halt q
    | .ok q' => .ok .nothing q'
  | .remove t => .ok (.flag (t ∈ q)) (q.remove t)
  | .keep p => .ok .nothing (q.keep p)
  | .peek => .ok (.thread (q.foremost (precedes op.rank))) q
  | .pop =>
    match q.takeForemost (precedes op.rank) with
    | none => .ok (.thread none) q
    | some (t, q') => .ok (.thread (some t)) q'

variable {q q' : Queue} {rank : ThreadId → β} {t : ThreadId}

theorem serve_push_of_mem (h : t ∈ q) : serve ⟨rank, .push t⟩ q = .error (.queuedTwice t) q := by
  simp only [serve, Queue.push, if_pos h]

theorem serve_push_of_not_mem (h : t ∉ q) :
    serve ⟨rank, .push t⟩ q = .ok .nothing ⟨q.entries ++ [t]⟩ := by
  simp only [serve, Queue.push, if_neg h]

/-- The queue without its foremost entry, if it has one. -/
def withoutForemost (q : Queue) (rank : ThreadId → β) : Queue :=
  (q.foremost (precedes rank)).elim q q.remove

theorem serve_pop (q : Queue) (rank : ThreadId → β) :
    serve ⟨rank, .pop⟩ q = .ok (.thread (q.foremost (precedes rank))) (withoutForemost q rank) := by
  simp only [serve, Queue.takeForemost, withoutForemost]
  cases q.foremost (precedes rank) with
  | none => rfl
  | some t => rfl

/-- To leave out one is to keep the others. -/
theorem entries_remove_eq (h : q.entries.Nodup) (t : ThreadId) :
    (q.remove t).entries = q.entries.filter fun u => !decide (u = t) :=
  (h.erase_eq_filter t).trans (List.filter_congr fun u _ => Bool.eq_iff_iff.mpr (by simp))

/-! ## Nobody is lost -/

/-- Those who leave are taken out, and whoever arrives comes last. -/
theorem entries_line (hq : q.entries.Nodup) (op : Op β) {e : Op β × Except Halt Reply}
    (he : e = (op, (Bench.line serve q op).outcome)) : (Bench.line serve q op).after.entries =
      q.entries.filter (fun t => !dismisses t e) ++ (arrival? e).toList := by
  have hall : ∀ ts : List ThreadId, ts = ts.filter (fun _ => !false) := fun ts =>
    (List.filter_eq_self.mpr fun _ _ => rfl).symm
  subst he
  obtain ⟨rank, request⟩ := op
  cases request with
  | push t =>
    by_cases ht : t ∈ q
    · rw [Bench.line_of_error (serve_push_of_mem ht)]
      exact (hall _).trans (List.append_nil _).symm
    · rw [Bench.line_of_ok (serve_push_of_not_mem ht)]
      exact congrArg (· ++ [t]) (hall _)
  | remove t => exact (entries_remove_eq hq t).trans (List.append_nil _).symm
  | keep p =>
    show q.entries.filter p = (q.entries.filter fun t => !!p t) ++ []
    simp only [List.append_nil, Bool.not_not]
  | peek => exact (hall _).trans (List.append_nil _).symm
  | pop =>
    rw [Bench.line_of_ok (serve_pop q rank), withoutForemost]
    cases q.foremost (precedes rank) with
    | none => exact (hall _).trans (List.append_nil _).symm
    | some t => exact (entries_remove_eq hq t).trans (List.append_nil _).symm

theorem nodup_line (hq : q.entries.Nodup) (op : Op β) :
    (Bench.line serve q op).after.entries.Nodup := by
  obtain ⟨rank, request⟩ := op
  cases request with
  | push t =>
    by_cases ht : t ∈ q
    · rw [Bench.line_of_error (serve_push_of_mem ht)]
      exact hq
    · rw [Bench.line_of_ok (serve_push_of_not_mem ht)]
      exact List.nodup_append'.mpr ⟨hq, List.nodup_singleton t, List.disjoint_singleton.mpr ht⟩
  | remove t => exact hq.erase t
  | keep p => exact hq.filter p
  | peek => exact hq
  | pop =>
    rw [Bench.line_of_ok (serve_pop q rank), withoutForemost]
    cases q.foremost (precedes rank) with
    | none => exact hq
    | some t => exact hq.erase t

/-- The entries are those that wait, each once. -/
theorem entries_finish (ops : List (Op β)) : (Bench.finish serve .empty ops).entries.Nodup ∧
    (Bench.finish serve .empty ops).entries = waiting (Bench.log serve .empty ops) := by
  refine Bench.log_induction
    (P := fun done (q : Queue) => q.entries.Nodup ∧ q.entries = waiting done)
    ⟨List.nodup_nil, rfl⟩ (fun done q op h => ⟨nodup_line h.1 op, ?_⟩) ops
  rw [entries_line h.1 op rfl, waiting_concat, h.2]

/-! ## Sorted queues -/

/-- A thread in a sorted queue. -/
structure Ticket (β : Type) where
  rank : β
  /-- How many arrived before. -/
  arrival : Nat
  thread : ThreadId

namespace Ticket

variable {β : Type} {x y : Ticket β} {row : List (Ticket β)}

/-- What tickets are sorted by: the greatest rank first, and then the earliest arrival. -/
def key (x : Ticket β) : βᵒᵈ ×ₗ Nat := toLex (OrderDual.toDual x.rank, x.arrival)

/-- The ticket with the rank that its thread has now. -/
def rerank (rank : ThreadId → β) (x : Ticket β) : Ticket β := { x with rank := rank x.thread }

/-- Tickets in the order of their arrival. -/
def InOrder (row : List (Ticket β)) : Prop := row.Pairwise fun x y => x.arrival < y.arrival

theorem InOrder.eq_of_arrival (h : InOrder row) (hx : x ∈ row) (hy : y ∈ row)
    (he : x.arrival = y.arrival) : x = y :=
  List.inj_on_of_nodup_map ((List.pairwise_map.mpr h).imp Nat.ne_of_lt) hx hy he

theorem InOrder.eq_of_key (h : InOrder row) (hx : x ∈ row) (hy : y ∈ row) (he : x.key = y.key) :
    x = y :=
  h.eq_of_arrival hx hy (congrArg (fun k => (ofLex k).2) he)

end Ticket

/-- A queue that keeps its tickets sorted. -/
structure SortedQueue (β : Type) where
  tickets : List (Ticket β)
  arrivals : Nat

namespace SortedQueue

/-- The sorted queue without tickets. -/
def empty : SortedQueue β := ⟨[], 0⟩

/-- The queue after its tickets have changed. -/
def change (q : SortedQueue β) (f : List (Ticket β) → List (Ticket β)) : SortedQueue β :=
  { q with tickets := sortedBy Ticket.key (f q.tickets) }

/-- The queue after `t` has arrived. -/
def enter (q : SortedQueue β) (rank : β) (t : ThreadId) : SortedQueue β :=
  { q.change (⟨rank, q.arrivals, t⟩ :: ·) with arrivals := q.arrivals + 1 }

/-- The threads of a queue, in the order of their tickets. -/
def threads (q : SortedQueue β) : List ThreadId := q.tickets.map Ticket.thread

/-- The threads of a queue, in the order of their arrival. -/
def inArrivalOrder (q : SortedQueue β) : List ThreadId :=
  (sortedBy Ticket.arrival q.tickets).map Ticket.thread

/-- A sorted queue serves a request. -/
def serve (op : Op β) : EStateM Halt (SortedQueue β) Reply := fun stale =>
  let q := stale.change (List.map (Ticket.rerank op.rank))
  match op.request with
  | .push t =>
    if t ∈ q.threads then .error (.queuedTwice t) q else .ok .nothing (q.enter (op.rank t) t)
  | .remove t => .ok (.flag (t ∈ q.threads)) (q.change (List.filter fun x => x.thread ≠ t))
  | .keep p => .ok .nothing (q.change (List.filter fun x => p x.thread))
  | .peek => .ok (.thread q.threads.head?) q
  | .pop => .ok (.thread q.threads.head?) (q.change List.tail)

end SortedQueue

/-! ## The two agree -/

variable {r : SortedQueue β} {row row' : List (Ticket β)}

/-- The queue is the row of the tickets as they arrived. -/
structure Lined (q : Queue) (r : SortedQueue β) (row : List (Ticket β)) : Prop where
  entries : q.entries = row.map Ticket.thread
  nodup : q.entries.Nodup
  inOrder : Ticket.InOrder row
  arrivals : ∀ x ∈ row, x.arrival < r.arrivals
  tickets : r.tickets = sortedBy Ticket.key row

theorem Lined.perm (h : Lined q r row) : r.tickets.Perm row := h.tickets ▸ sortedBy_perm _ _

theorem Lined.inArrivalOrder (h : Lined q r row) : r.inArrivalOrder = q.entries := by
  have hapart : ∀ x ∈ r.tickets, ∀ y ∈ r.tickets, x.arrival = y.arrival → x = y := fun x hx y hy =>
    h.inOrder.eq_of_arrival (h.perm.mem_iff.mp hx) (h.perm.mem_iff.mp hy)
  rw [SortedQueue.inArrivalOrder, sortedBy_eq_of_perm h.perm hapart,
    sortedBy_of_pairwise (h.inOrder.imp Nat.le_of_lt), h.entries]

theorem Lined.mem_threads (h : Lined q r row) (t : ThreadId) : t ∈ r.threads ↔ t ∈ q := by
  rw [Queue.mem_def, h.entries]
  exact (h.perm.map _).mem_iff

/-- A change of the tickets is one of the row. -/
theorem change_tickets {f : List (Ticket β) → List (Ticket β)} (hf : (f r.tickets).Perm row')
    (h : Ticket.InOrder row') : (r.change f).tickets = sortedBy Ticket.key row' :=
  (sortedBy_eq_of_perm hf.symm fun _ hx _ hy => h.eq_of_key hx hy).symm

/-- Some of the row are the row after a change. -/
theorem Lined.sublist (h : Lined q r row) {f : List (Ticket β) → List (Ticket β)}
    (hf : (f r.tickets).Perm row') (hsub : row'.Sublist row)
    (hq : q'.entries = row'.map Ticket.thread) : Lined q' (r.change f) row' where
  entries := hq
  nodup := hq ▸ (h.entries ▸ h.nodup).sublist (hsub.map _)
  inOrder := List.Pairwise.sublist hsub h.inOrder
  arrivals x hx := h.arrivals x (hsub.mem hx)
  tickets := change_tickets hf (List.Pairwise.sublist hsub h.inOrder)

theorem Lined.rerank (h : Lined q r row) (rank : ThreadId → β) :
    Lined q (r.change (List.map (Ticket.rerank rank))) (row.map (Ticket.rerank rank)) where
  entries := by
    rw [h.entries, List.map_map]
    rfl
  nodup := h.nodup
  inOrder := List.pairwise_map.mpr h.inOrder
  arrivals := List.forall_mem_map.mpr h.arrivals
  tickets := change_tickets (h.perm.map _) (List.pairwise_map.mpr h.inOrder)

theorem Lined.enter (h : Lined q r row) {t : ThreadId} (ht : t ∉ q) (rank : β) :
    Lined ⟨q.entries ++ [t]⟩ (r.enter rank t) (row ++ [⟨rank, r.arrivals, t⟩]) := by
  have hlast : ∀ x ∈ row, ∀ y ∈ [(⟨rank, r.arrivals, t⟩ : Ticket β)], x.arrival < y.arrival :=
    fun x hx y hy =>
    List.mem_singleton.mp hy ▸ h.arrivals x hx
  have hinOrder : Ticket.InOrder (row ++ [⟨rank, r.arrivals, t⟩]) :=
    List.pairwise_append.mpr ⟨h.inOrder, List.pairwise_singleton _ _, hlast⟩
  refine ⟨?_, ?_, hinOrder, fun x hx => ?_, ?_⟩
  · rw [h.entries, List.map_append]
    rfl
  · exact List.nodup_append'.mpr ⟨h.nodup, List.nodup_singleton t, List.disjoint_singleton.mpr ht⟩
  · show x.arrival < r.arrivals + 1
    rcases List.mem_append.mp hx with hx | hx
    · exact (h.arrivals x hx).trans (Nat.lt_succ_self _)
    · exact List.mem_singleton.mp hx ▸ Nat.lt_succ_self _
  · exact change_tickets ((h.perm.cons _).trans (List.perm_append_singleton _ _).symm) hinOrder

theorem Lined.keep (h : Lined q r row) (p : ThreadId → Bool) :
    Lined (q.keep p) (r.change (List.filter fun x => p x.thread))
      (row.filter fun x => p x.thread) := by
  refine h.sublist (h.perm.filter _) List.filter_sublist ?_
  rw [Queue.entries_keep, h.entries, List.filter_map]
  rfl

theorem key_lt_of_rank {x y : Ticket β} (h : y.rank < x.rank) : x.key < y.key :=
  Prod.Lex.toLex_lt_toLex.mpr (.inl h)

theorem key_le_of_rank {x y : Ticket β} (h : y.rank ≤ x.rank) (ha : x.arrival < y.arrival) :
    x.key ≤ y.key := by
  rcases h.lt_or_eq with hlt | heq
  · exact (key_lt_of_rank hlt).le
  · exact Prod.Lex.toLex_le_toLex.mpr (.inr ⟨congrArg OrderDual.toDual heq.symm, ha.le⟩)

/-- The foremost of a queue has the first ticket, or there is none. -/
theorem Lined.foremost (h : Lined q r row) (hrank : ∀ x ∈ row, x.rank = rank x.thread) :
    (row = [] ∧ q.foremost (precedes rank) = none) ∨
      ∃ before x after, row = before ++ x :: after ∧ q.foremost (precedes rank) = some x.thread ∧
        r.tickets = x :: sortedBy Ticket.key (before ++ after) := by
  cases hnext : q.foremost (precedes rank) with
  | none =>
    have hempty : q.entries = [] := Queue.foremostOf_eq_none_iff.mp hnext
    exact .inl ⟨List.map_eq_nil_iff.mp (h.entries ▸ hempty), rfl⟩
  | some t =>
    obtain ⟨ts, us, hsplit, hbefore, hafter⟩ := Queue.foremostOf_eq_some hnext
    obtain ⟨before, rest, rfl, hts, hrest⟩ := List.map_eq_append_iff.mp (h.entries ▸ hsplit)
    obtain ⟨x, after, rfl, rfl, hus⟩ := List.map_eq_cons_iff.mp hrest
    have hx : x.rank = rank x.thread := hrank x (by simp)
    obtain ⟨-, hinOrder, -⟩ := List.pairwise_append.mp h.inOrder
    refine .inr
      ⟨before, x, after, rfl, rfl, h.tickets.trans (sortedBy_split (fun y hy => ?_) fun y hy => ?_)⟩
    · refine key_lt_of_rank ?_
      rw [hx, hrank y (List.mem_append_left _ hy)]
      exact hbefore _ (hts ▸ List.mem_map_of_mem hy)
    · refine key_le_of_rank ?_ ((List.pairwise_cons.mp hinOrder).1 y hy)
      rw [hx, hrank y (List.mem_append_right _ (List.mem_cons_of_mem _ hy))]
      exact hafter _ (hus ▸ List.mem_map_of_mem hy)

theorem Lined.foremost_eq_head (h : Lined q r row) (hrank : ∀ x ∈ row, x.rank = rank x.thread) :
    q.foremost (precedes rank) = r.threads.head? := by
  rcases h.foremost hrank with ⟨rfl, hnone⟩ | ⟨before, x, after, rfl, hsome, htickets⟩
  · rw [hnone, SortedQueue.threads, h.tickets, sortedBy_nil]
    rfl
  · rw [hsome, SortedQueue.threads, htickets]
    rfl

theorem Lined.pop (h : Lined q r row) (hrank : ∀ x ∈ row, x.rank = rank x.thread) :
    ∃ row', Lined (withoutForemost q rank) (r.change List.tail) row' := by
  rcases h.foremost hrank with ⟨rfl, hnone⟩ | ⟨before, x, after, rfl, hsome, htickets⟩
  · rw [withoutForemost, hnone]
    refine ⟨[], h.sublist ?_ (List.Sublist.refl _) h.entries⟩
    rw [h.tickets, sortedBy_nil]
    exact .nil
  · rw [withoutForemost, hsome]
    refine ⟨before ++ after, h.sublist ?_ ((List.sublist_cons_self _ _).append_left before) ?_⟩
    · rw [htickets]
      exact sortedBy_perm _ _
    · have hnodup : (before.map Ticket.thread ++ x.thread :: after.map Ticket.thread).Nodup := by
        simpa [h.entries] using h.nodup
      have hx : x.thread ∉ before.map Ticket.thread := fun hx =>
        (List.nodup_append'.mp hnodup).2.2 hx List.mem_cons_self
      show q.entries.erase x.thread = _
      rw [h.entries, List.map_append, List.map_cons, List.erase_append_right _ hx,
        List.erase_cons_head, List.map_append]

/-- The queue and the sorted queue hold the same threads, which arrived in the same order. -/
def Agrees (q : Queue) (r : SortedQueue β) : Prop := ∃ row, Lined q r row

theorem agrees_empty : Agrees .empty (SortedQueue.empty : SortedQueue β) :=
  ⟨[], rfl, List.nodup_nil, List.Pairwise.nil, fun _ hx => absurd hx List.not_mem_nil,
    sortedBy_nil.symm⟩

/-- Both answer a request alike, and agree afterwards. -/
theorem Agrees.step (h : Agrees q r) (op : Op β) :
    (Bench.line serve q op).outcome = (Bench.line SortedQueue.serve r op).outcome ∧
      Agrees (Bench.line serve q op).after (Bench.line SortedQueue.serve r op).after := by
  obtain ⟨row, hrow⟩ := h
  obtain ⟨rank, request⟩ := op
  have hranked := hrow.rerank rank
  have hrank : ∀ x ∈ row.map (Ticket.rerank rank), x.rank = rank x.thread :=
    List.forall_mem_map.mpr fun _ _ => rfl
  cases request with
  | push t =>
    by_cases ht : t ∈ q
    · have hsorted : SortedQueue.serve ⟨rank, .push t⟩ r = .error (.queuedTwice t) _ :=
        if_pos ((hranked.mem_threads t).mpr ht)
      rw [Bench.line_of_error (serve_push_of_mem ht), Bench.line_of_error hsorted]
      exact ⟨rfl, _, hranked⟩
    · have hsorted : SortedQueue.serve ⟨rank, .push t⟩ r = .ok .nothing _ :=
        if_neg (mt (hranked.mem_threads t).mp ht)
      rw [Bench.line_of_ok (serve_push_of_not_mem ht), Bench.line_of_ok hsorted]
      exact ⟨rfl, _, hranked.enter ht (rank t)⟩
  | remove t =>
    refine ⟨congrArg (fun b => Except.ok (Reply.flag b))
      (decide_eq_decide.mpr (hranked.mem_threads t).symm), ?_⟩
    have hkeep : q.remove t = q.keep (· ≠ t) := by
      simp only [Queue.keep, decide_not, ← entries_remove_eq hrow.nodup]
    show Agrees (q.remove t) _
    rw [hkeep]
    exact ⟨_, hranked.keep _⟩
  | keep p => exact ⟨rfl, _, hranked.keep p⟩
  | peek =>
    exact ⟨congrArg (fun t => Except.ok (Reply.thread t)) (hranked.foremost_eq_head hrank), _,
      hranked⟩
  | pop =>
    have hsorted : SortedQueue.serve ⟨rank, .pop⟩ r =
        .ok (.thread (q.foremost (precedes rank))) _ :=
      congrArg (fun t => EStateM.Result.ok (Reply.thread t) _) (hranked.foremost_eq_head hrank).symm
    rw [Bench.line_of_ok hsorted, Bench.line_of_ok (serve_pop q rank)]
    exact ⟨rfl, hranked.pop hrank⟩

/-- Trials of the two go alike. -/
theorem run_agrees (ops : List (Op β)) :
    (Bench.run serve .empty ops).map (fun l => (l.outcome, l.after.entries)) =
      (Bench.run SortedQueue.serve .empty ops).map fun l =>
        (l.outcome, l.after.inArrivalOrder) := by
  have hrun := Bench.run_forall₂ (R := Agrees (β := β)) (fun op _ _ h => h.step op) agrees_empty ops
  refine List.forall₂_eq_eq_eq ▸ List.forall₂_map_left_iff.mpr
    (List.forall₂_map_right_iff.mpr (hrun.imp ?_))
  rintro l l' ⟨houtcome, row, hrow⟩
  rw [houtcome, hrow.inArrivalOrder]

/-! ## Draining -/

/-- What comes out of a queue, as long as the ranks stay as they are. -/
theorem drain (rank : ThreadId → β) (q : Queue) :
    (Bench.run serve q (List.replicate q.size ⟨rank, .pop⟩)).map Bench.Line.outcome =
        (sortedBy (fun t => OrderDual.toDual (rank t)) q.entries).map
        (fun t => .ok (.thread (some t))) ∧
      Bench.finish serve q (List.replicate q.size ⟨rank, .pop⟩) = .empty := by
  generalize hn : q.size = n
  induction n generalizing q with
  | zero =>
    obtain ⟨entries⟩ := q
    obtain rfl := List.eq_nil_of_length_eq_zero hn
    refine ⟨?_, rfl⟩
    rw [sortedBy_nil]
    rfl
  | succ n ih =>
    cases hnext : q.foremost (precedes rank) with
    | none =>
      have hempty : q.entries = [] := Queue.foremostOf_eq_none_iff.mp hnext
      rw [Queue.size, hempty] at hn
      cases hn
    | some t =>
      obtain ⟨before, after, hsplit, hbefore, hafter⟩ := Queue.foremostOf_eq_some hnext
      have ht : t ∉ before := fun ht => lt_irrefl _ (hbefore t ht)
      have hrest : (q.remove t).entries = before ++ after := by
        rw [Queue.entries_remove, hsplit, List.erase_append_right _ ht, List.erase_cons_head]
      have hpop : Bench.line serve q ⟨rank, .pop⟩ = ⟨.ok (.thread (some t)), q.remove t⟩ := by
        rw [Bench.line_of_ok (serve_pop q rank), withoutForemost, hnext]
        rfl
      have hsize : (q.remove t).size = n := by
        rw [Queue.size, hsplit, List.length_append, List.length_cons, ← Nat.add_assoc,
          ← List.length_append] at hn
        rw [Queue.size, hrest]
        exact Nat.succ.inj hn
      obtain ⟨houtcomes, hfinish⟩ := ih (q.remove t) hsize
      rw [hrest] at houtcomes
      rw [hsplit, sortedBy_split hbefore hafter, List.map_cons, ← houtcomes, List.replicate_succ,
        Bench.run_cons, Bench.finish, hpop]
      exact ⟨rfl, hfinish⟩

/-- **Ranking late is sorting early.** Whatever is asked of a queue, and however ranks change in
between, it answers like a sorted queue, and holds the same threads in the order they arrived: those
that have arrived and not left since, each once. Who is shown as the foremost is who is taken out
with the same ranks. If the ranks stay, the threads come out in the stable sort of the entries, and
nobody is left. The core takes out threads by priority, and sleepers by how early they are to wake,
so this holds of both. -/
theorem serve_sorted (ops : List (Op β)) :
    (Bench.run serve .empty ops).map (fun l => (l.outcome, l.after.entries)) =
        (Bench.run SortedQueue.serve .empty ops).map
        (fun l => (l.outcome, l.after.inArrivalOrder)) ∧
      ((Bench.finish serve .empty ops).entries.Nodup ∧
        (Bench.finish serve .empty ops).entries = waiting (Bench.log serve .empty ops)) ∧
      (∀ (q : Queue) (rank : ThreadId → β), ∃ next,
        Bench.line serve q ⟨rank, .peek⟩ = ⟨.ok (.thread next), q⟩ ∧
          Bench.line serve q ⟨rank, .pop⟩ = ⟨.ok (.thread next), next.elim q q.remove⟩) ∧
      (∀ (q : Queue) (rank : ThreadId → β),
        (Bench.run serve q (List.replicate q.size ⟨rank, .pop⟩)).map Bench.Line.outcome =
            (sortedBy (fun t => OrderDual.toDual (rank t)) q.entries).map
            (fun t => .ok (.thread (some t))) ∧
          Bench.finish serve q (List.replicate q.size ⟨rank, .pop⟩) = .empty) ∧
      ∀ k : Core, k.outranks = precedes k.priorityOf ∧ k.earlier = precedes k.earliness := by
  refine ⟨run_agrees ops, entries_finish ops, fun q rank => ⟨q.foremost (precedes rank), rfl, ?_⟩,
    fun q rank => drain rank q, fun k => ⟨rfl, k.earlier_eq⟩⟩
  exact Bench.line_of_ok (serve_pop q rank)

/-- Thread 8 is raised while it waits, and lowered again before it is taken out. -/
example :
    (Bench.run serve .empty
      [⟨id, .push 7⟩, ⟨id, .push 8⟩, ⟨id, .peek⟩, ⟨fun t => 10 - t, .pop⟩]).map
    Bench.Line.outcome =
      [.ok .nothing, .ok .nothing, .ok (.thread (some 8)), .ok (.thread (some 7))] := rfl

end ThreadCore.Ranked
