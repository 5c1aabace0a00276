import ThreadCore.Proofs.ExitStatuses
import ThreadCore.Proofs.Handshakes
import ThreadCore.Proofs.Regaining
import ThreadCore.Proofs.Shelter

/-!
# What the idle thread waits for

Whoever waits gives the processor away (`Core.Departs`), unless it is the idle thread and nobody is
ready: then the wait is over at once, with nothing obtained, and the thread is left in the queue
(`Session.idle_waits_in_vain`). Nobody can take it out again, since the idle thread cannot be
unblocked.

Nothing but such a call brings the idle thread into a queue, and all other calls that return to
their caller have brought it what it waits for (`Session.logged_idle`).
-/

namespace ThreadCore

namespace Core

open Relation (ReflTransGen)

variable {α β : Type} {k k' : Core} {t : ThreadId} {s l c : ObjectId} {u : Unit}

/-! ## The idle thread stays the same -/

theorem endTurn_idle {σ : ThreadState} (h : endTurn σ k = .ok u k') : k'.idle = k.idle := by
  obtain ⟨m, t, hq, -, -, ha⟩ := endTurn_alike h
  exact (congrArg Seating.idle ha.seating).trans hq.idle

theorem Move.idle (h : Move k k') : k'.idle = k.idle := by
  cases h with
  | act ha => exact ha.stays.2.1
  | birth hb => cases hb <;> rfl
  | turn ht =>
    cases ht with
    | block h => exact endTurn_idle h
    | lineUp _ _ hm h =>
      unfold enqueueReady at hm
      simp only [ask_bind_eq_ok, modify_eq_ok] at hm
      obtain ⟨_, -, rfl⟩ := hm
      exact (endTurn_idle h).trans rfl
    | die _ h => exact endTurn_idle h
  | handler on => rfl

theorem Course.idle (h : Course k k') : k'.idle = k.idle :=
  h.keeps (P := fun m => m.idle = k.idle) rfl fun _ _ ih hm => hm.idle.trans ih

/-! ## Who waits gives the processor away -/

/-- `t` runs, and is not the idle thread. -/
structure RunBy (t : ThreadId) (k : Core) : Prop where
  steered : k.Steered .running
  current : k.current = t
  idle : t ≠ k.idle

theorem RunBy.acts (h : k.RunBy t) (ha : ReflTransGen Act k k') : k'.RunBy t := by
  obtain ⟨hc, hi, -⟩ := acts_stay ha
  exact ⟨h.steered.course (course_of_acts ha), hc.trans h.current, hi ▸ h.idle⟩

theorem RunBy.quiet (h : k.RunBy t) (hq : Quiet k k') : k'.RunBy t :=
  ⟨h.steered.congr (fun _ => by rw [hq.threads]) (fun _ => by rw [hq.threads]) hq.ready hq.current
    hq.idle hq.nextThread, hq.current.trans h.current, hq.idle ▸ h.idle⟩

/-- If the step succeeds while `t` runs, another thread runs after it. -/
def Departs (t : ThreadId) (x : CoreM α) : Prop :=
  ∀ k a k', k.RunBy t → x k = .ok a k' → k'.current ≠ t

/-- Before the step the turn goes on. -/
theorem Departs.after {x : CoreM α} {g : α → CoreM β} (hx : Makes Act x)
    (hg : ∀ a, Departs t (g a)) : Departs t (x >>= g) := by
  intro k b k' hk h
  obtain ⟨a, m, hm, h⟩ := bind_eq_ok.mp h
  exact hg a m b k' (hk.acts ((hx k).ok a m hm)) h

theorem Departs.masked {body : CoreM α} (hb : Departs t body) : Departs t (Core.masked body) := by
  intro k a k' hk h
  obtain ⟨m, m', hq, h, hq'⟩ := masked_eq_ok h
  rw [hq'.current]
  exact hb m a m' (hk.quiet hq) h

theorem departs_endTurn : Departs t (endTurn .blocked) := by
  rintro k ⟨⟩ k' ⟨hs, rfl, hi⟩ h
  exact current_ne_of_endTurn (hs.current_not_mem (by decide)) hi h

/-- There is no unit. -/
theorem down_departs {o : Semaphore} (hk : k.RunBy t) (ho : k.objects.semaphores[s]? = some o)
    (hv : o.value = 0) (h : down s k = .ok u k') : k'.current ≠ t := by
  unfold down at h
  rw [ask_bind_eq_ok] at h
  obtain ⟨th, -, h⟩ := h
  obtain ⟨m, m', hq, h, hq'⟩ := masked_eq_ok h
  simp only [ask_bind_eq_ok, semaphore_eq_ok_iff] at h
  obtain ⟨x, hx, h⟩ := h
  rw [hq.objects, ho] at hx
  obtain rfl := Option.some.inj hx
  rw [if_neg (by omega)] at h
  rw [hq'.current]
  refine Departs.after (makes_outsideHandler _) (fun _ => ?_) m () m' (hk.quiet hq) h
  exact .after (makes_ask _) fun _ => .after (makes_changeSemaphore _ _) fun _ =>
    .after (makes_say _) fun _ => departs_endTurn

/-- Somebody holds the lock. -/
theorem acquire_departs {o : Lock} (hk : k.RunBy t) (ho : k.objects.locks[l]? = some o)
    (hh : o.holder ≠ none) (h : acquire l k = .ok u k') : k'.current ≠ t := by
  unfold acquire at h
  simp only [outsideHandler_bind_eq_ok, ask_bind_eq_ok] at h
  obtain ⟨-, th, -, h⟩ := h
  obtain ⟨m, m', hq, h, hq'⟩ := masked_eq_ok h
  simp only [ask_bind_eq_ok, lock_eq_ok_iff] at h
  obtain ⟨x, hx, h⟩ := h
  rw [hq.objects, ho] at hx
  obtain rfl := Option.some.inj hx
  rw [hq'.current]
  cases hholder : o.holder with
  | none => exact absurd hholder hh
  | some holder =>
    rw [hholder] at h
    refine Departs.after (makes_demand _ _) (fun _ => ?_) m () m' (hk.quiet hq) h
    exact .after (makes_waitForLock _ _ _) fun _ => .after (makes_say _) fun _ => departs_endTurn

/-- A wait for a signal always takes the processor away. -/
theorem departs_await (c l : ObjectId) : Departs t (await c l) := by
  refine .after (makes_outsideHandler _) fun _ =>
    .after ((partwise_makes _).checkHeld _ _ _) fun _ => .after (makes_ask _) fun th =>
    .masked <| .after (makes_ask _) fun cond => ?_
  have hwait : Departs t (do
      let waiters ← ask fun k => do (← k.condition c).waiters.push th.id
      changeCondition c fun cond => { cond with waiters := waiters }
      let _ ← passOn l th.id
      say (.waits th.id (.condition c))
      endTurn .blocked) :=
    .after (makes_ask _) fun _ => .after (makes_changeCondition _ _) fun _ =>
      .after (makes_passOn _ _) fun _ => .after (makes_say _) fun _ => departs_endTurn
  split
  · exact .after (makes_demand _ _) fun _ => hwait
  · exact .after (makes_changeCondition _ _) fun _ => hwait

theorem awaitFork_departs {child : ThreadId} {r : ChildRecord} {o : Semaphore} (hk : k.RunBy t)
    (hr : k.recordOf t child = some r) (ho : k.objects.semaphores[r.forkSemaphore]? = some o)
    (hv : o.value = 0) {a : Except Refusal Unit} (h : awaitFork child k = .ok a k') :
    k'.current ≠ t := by
  unfold awaitFork at h
  simp only [ask_bind_eq_ok] at h
  obtain ⟨th, hth, h⟩ := h
  have hid : th.id = t := by
    rw [hk.steered.current_id (running_eq_ok.mp hth).1, hk.current]
  simp only [childRecord_eq_ok, hid, hr] at h
  obtain ⟨_, ⟨-, rfl⟩, h⟩ := h
  simp only [bind_eq_ok, pure_eq_ok] at h
  obtain ⟨_, m, hm, -, rfl⟩ := h
  exact down_departs hk ho hv hm

end Core

/-- The idle thread has made a call that it had to wait for. -/
def Entry.IdleWaits (e : Entry) : Prop :=
  e.caller = e.before.core.idle ∧ ∃ c a, e.deed = .call c a ∧ e.before.Queues c

namespace Session

open ThreadCore.Core (Joins Seated)

variable {log : List Entry} {frames : List Bool} {s s' : Session} {c : Call} {a : Answer} {d : Deed}
  {allowed : List Entry → Session → Call → Prop}

/-! ## How the idle thread gets into a queue -/

/-- The places that a transition may give: none among the sleepers to the idle thread, and one in
the queue of an object only by a call that the idle thread has to wait for. -/
def places (s : Session) (d : Deed) : Set (Seat × ThreadId) :=
  {x | x.2 = s.core.idle → x.1 ≠ .sleep ∧ s.core.current = s.core.idle ∧
    ∃ c a, d = .call c a ∧ s.Queues c}

/-- In every state of a run the idle thread is not among the sleepers, and in a queue only if it has
made a call that it had to wait for. -/
theorem Logged.idle_seated (h : Logged allowed log frames s) :
    s.core.idle ∉ s.core.seating.queue .sleep ∧
      ∀ p, s.core.idle ∈ s.core.seating.queue p → ∃ e ∈ log, e.IdleWaits := by
  refine h.invariant (P := fun log s => s.core.idle ∉ s.core.seating.queue .sleep ∧
    ∀ p, s.core.idle ∈ s.core.seating.queue p → ∃ e ∈ log, e.IdleWaits) (fun _ _ k _ hk => ?_)
    fun log frames s d s' hs ih hl _ => ?_
  · have hstands := (reached_boot hk).1.seating.idle_stands
    exact ⟨hstands .sleep, fun p hp => absurd hp (hstands p)⟩
  have hidle : s'.core.idle = s.core.idle := hl.course.idle
  have hs' : s'.core.Steered .running := hs.steered.course hl.course
  have hplaces : ∀ c a p, d = .call c a → (s.core.current = s.core.idle → p ≠ .sleep ∧ s.Queues c) →
      (p, s.core.current) ∈ s.places d :=
    fun c a p hd hp hi => ⟨(hp hi).1, hi, c, a, hd, (hp hi).2⟩
  have hjoins := (leads_passes hs.steered hplaces hl).joins
  rw [hidle]
  have hseated : ∀ p, Seated (s.places d) s.core p s.core.idle →
      p ≠ .sleep ∧ ∃ e ∈ (⟨s, d, s'⟩ : Entry) :: log, e.IdleWaits := by
    rintro p (hp | hp)
    · refine ⟨fun he => ih.1 (he ▸ hp), ?_⟩
      obtain ⟨e, he, hw⟩ := ih.2 p hp
      exact ⟨e, List.mem_cons_of_mem _ he, hw⟩
    · obtain ⟨hsleep, hi, hcall⟩ := hp rfl
      exact ⟨hsleep, _, List.mem_cons_self, hi, hcall⟩
  refine ⟨fun hmem => ?_, fun p hmem => ?_⟩
  · rcases hjoins .sleep _ (by simp) hmem with hp | ⟨⟨l, hl⟩, -⟩
    · exact (hseated _ hp).1 rfl
    · cases hl
  · by_cases hready : p = .ready
    · subst hready
      exact absurd (hidle ▸ hmem) hs'.idle_not_mem
    · rcases hjoins p _ hready hmem with hp | ⟨-, c, hp⟩
      · exact (hseated _ hp).2
      · exact (hseated _ hp).2

/-! ## What a call that waits brings -/

/-- What the caller has when the call is answered and it still runs: a unit, the lock, the report of
its child, or the status that its child has left. -/
def Obtains (log : List Entry) (s s' : Session) : Call → Answer → Prop
  | .down i, .done _ =>
    ∃ id o, s.semaphores[i]? = some id ∧ s.core.objects.semaphores[id]? = some o ∧
      0 < o.value ∧ s'.core.objects.semaphores[id]? = some { o with value := o.value - 1 }
  | .acquire i, .done _ => ∃ id o, s.locks[i]? = some id ∧ s.core.objects.locks[id]? = some o ∧
      o.holder = none ∧ s'.core.objects.locks[id]? = some { o with holder := some s.core.current }
  | .await _ j, .done _ => ∃ id o, s.locks[j]? = some id ∧ s'.core.objects.locks[id]? = some o ∧
      o.holder = some s.core.current
  | .awaitFork child, .done _ => Created log s.core.current child ∧ Reported log child
  | .awaitExit child, .done r => Created log s.core.current child ∧
      ∃ v, statusLeft child log = some v ∧ r = .integer v.toInt ∧
        s'.core.recordOf s.core.current child = none
  | _, _ => True

section

variable (h : Logged allowed log frames s) (he : execute c s = .ok a s')
  (hcurrent : s'.core.current = s.core.current)
  (hidle : s.core.current = s.core.idle → ¬ s.Queues c)

include h he hcurrent hidle

theorem Logged.obtains : Obtains log s s' c a := by
  have hs : s.core.Steered .running := h.steered
  have hrun : s.Queues c → s.core.RunBy s.core.current := fun hq => ⟨hs, rfl, fun hi => hidle hi hq⟩
  have hid : ∀ th, s.core.running = .ok th → th.id = s.core.current := fun th hr =>
    hs.current_id (Core.running_eq_ok.mp hr).1
  obtain ⟨hkindred, hfollows⟩ := leads_kinship h.kindred (.call he)
  obtain ⟨-, office, hd⟩ := hkindred
  cases c with
  | down i =>
    rcases resolve_eq_ok.mp he with ⟨-, rfl, -⟩ | ⟨id, hi, he⟩
    · trivial
    obtain ⟨_, k, hk, rfl, rfl⟩ := report_ok.mp he
    obtain ⟨th, o, -, ho, hset, -⟩ := Core.down_sets hk
    have hv : 0 < o.value := by
      by_contra hv
      have hv : o.value = 0 := by omega
      exact Core.down_departs (hrun ⟨id, o, hi, ho, hv⟩) ho hv hk hcurrent
    refine ⟨id, o, hi, ho, hv, ?_⟩
    rw [hset.semaphores, if_pos rfl, Semaphore.taken_of_pos hv]
  | acquire i =>
    rcases resolve_eq_ok.mp he with ⟨-, rfl, -⟩ | ⟨id, hi, he⟩
    · trivial
    obtain ⟨_, k, hk, rfl, rfl⟩ := report_ok.mp he
    obtain ⟨th, o, hr, ho, ⟨hh, hset⟩ | ⟨hh, -⟩⟩ := Core.acquire_sets hk
    · refine ⟨id, o, hi, ho, hh, ?_⟩
      rw [hset.locks, if_pos rfl, hid th hr]
    · exact absurd hcurrent (Core.acquire_departs (hrun ⟨id, o, hi, ho, hh⟩) ho hh hk)
  | await i j =>
    rcases resolve_eq_ok.mp he with ⟨-, rfl, -⟩ | ⟨cond, hi, he⟩
    · trivial
    rcases resolve_eq_ok.mp he with ⟨-, rfl, -⟩ | ⟨lock, hj, he⟩
    · trivial
    obtain ⟨_, k, hk, rfl, rfl⟩ := report_ok.mp he
    have hway := Core.departs_await cond lock _ _ _ (hrun ⟨cond, lock, hi, hj⟩) hk
    exact absurd hcurrent hway
  | awaitFork child =>
    cases a with
    | done r =>
      obtain ⟨b, hb, -⟩ := hfollows
      obtain ⟨r, hr, ho, -⟩ := Core.of_bond hb
      have hbal := h.handshaken.balanced _ child b hb
      have hv : 0 < b.fork.value := by
        by_contra hv
        have hv : b.fork.value = 0 := by omega
        obtain ⟨_, k, hk, -, rfl⟩ := report_ok.mp he
        exact Core.awaitFork_departs (hrun ⟨r, b.fork, hr, ho, hv⟩) hr ho hv hk hcurrent
      refine ⟨(h.chronicle.bond _ child b hb).1, hbal.forked.mp ?_⟩
      -- Without a report there is no unit.
      by_contra hforked
      have hunits := hbal.units
      rw [hbal.patient hv, if_neg hforked, List.length_nil] at hunits
      omega
    | _ => trivial
  | awaitExit child =>
    cases a with
    | done r =>
      obtain ⟨b, v, hb, hstatus, rfl, hK⟩ := hfollows
      obtain ⟨hcreated, -, hleft, -⟩ := h.chronicle.bond _ child b hb
      refine ⟨hcreated, v, hleft ▸ hstatus, rfl, hd.assigned.record_eq_none ?_⟩
      rw [hK, Kinship.setBond_bond_self]
    | _ => trivial
  | _ => trivial

end

/-- **The idle thread.** In every state of any run the idle thread is not among the sleepers, and it
is in a queue only if it has made a call that it had to wait for. And whoever makes a call, but for
such a call of the idle thread, and still runs when the call is answered, has obtained what it asked
for. -/
theorem logged_idle (h : Logged allowed log frames s) :
    s.core.idle ∉ s.core.sleepers ∧
      (∀ p, s.core.idle ∈ s.core.seating.queue p → ∃ e ∈ log, e.IdleWaits) ∧
      ∀ c a s', execute c s = .ok a s' → s'.core.current = s.core.current →
        (s.core.current = s.core.idle → ¬ s.Queues c) → Obtains log s s' c a :=
  ⟨h.idle_seated.1, h.idle_seated.2, fun _ _ _ he hcurrent hidle => h.obtains he hcurrent hidle⟩

/-- The idle thread takes a unit that is there. -/
theorem logged_idle_down : ∃ log s s', Logged (fun _ _ _ => True) log [] s ∧
    s.core.current = s.core.idle ∧ execute (.down 0) s = .ok (.done .nothing) s' ∧
    s'.core.current = s.core.current ∧ Obtains log s s' (.down 0) (.done .nothing) := by
  have hrun : (replayFrom (fun _ _ _ => true) ⟨none, none, none, false, none⟩
      [.newSemaphore 1, .disableInterrupts, .block]).any (fun r =>
        decide (r.2.core.current = r.2.core.idle ∧ r.2.semaphores[0]? = some 1 ∧
          (r.2.core.objects.semaphores[(1 : ObjectId)]?).map Semaphore.value = some 1) &&
          succeeds (fun a s' => a = .done .nothing ∧ s'.core.current = r.2.core.current)
            (execute (.down 0) r.2)) = true := by
    decide +kernel
  obtain ⟨⟨log, s⟩, hs, hrun⟩ := (Option.any_eq_true _ _).mp hrun
  have hlog : Logged (fun _ _ _ => True) log [] s := logged_replayFrom (fun _ _ _ _ => trivial) hs
  obtain ⟨hbefore, hrun⟩ := Bool.and_eq_true_iff.mp hrun
  obtain ⟨hi, hhandle, hvalue⟩ := of_decide_eq_true hbefore
  obtain ⟨a, s', he, hrun⟩ := exists_of_succeeds hrun
  obtain ⟨rfl, hcurrent⟩ := of_decide_eq_true hrun
  refine ⟨log, s, s', hlog, hi, he, hcurrent, (logged_idle hlog).2.2 _ _ _ he hcurrent ?_⟩
  rintro - ⟨id, o, hid, ho, hv⟩
  obtain rfl := Option.some.inj (hid.symm.trans hhandle)
  rw [ho, Option.map_some, hv] at hvalue
  cases hvalue

/-- The idle thread asks for a unit that is not there, while nobody is ready. The call is answered,
the idle thread runs on without a unit, and it is left in the queue. -/
theorem idle_waits_in_vain : ∃ log s s', Logged (fun _ _ _ => True) log [] s ∧
    s.core.current = s.core.idle ∧ execute (.down 0) s = .ok (.done .nothing) s' ∧
    s'.core.current = s.core.current ∧ ¬ Obtains log s s' (.down 0) (.done .nothing) ∧
    s'.core.idle ∈ s'.core.seating.queue (.semaphore 1) := by
  have hrun : (replayFrom (fun _ _ _ => true) ⟨none, none, none, false, none⟩
      [.newSemaphore 0, .disableInterrupts, .block]).any (fun r =>
        decide (r.2.core.current = r.2.core.idle ∧ r.2.semaphores[0]? = some 1 ∧
          (r.2.core.objects.semaphores[(1 : ObjectId)]?).map Semaphore.value = some 0) &&
          succeeds (fun a s' => a = .done .nothing ∧ s'.core.current = r.2.core.current ∧
            s'.core.idle ∈ s'.core.seating.queue (.semaphore 1)) (execute (.down 0) r.2)) =
            true := by
    decide +kernel
  obtain ⟨⟨log, s⟩, hs, hrun⟩ := (Option.any_eq_true _ _).mp hrun
  have hlog : Logged (fun _ _ _ => True) log [] s := logged_replayFrom (fun _ _ _ _ => trivial) hs
  obtain ⟨hbefore, hrun⟩ := Bool.and_eq_true_iff.mp hrun
  obtain ⟨hi, hhandle, hvalue⟩ := of_decide_eq_true hbefore
  obtain ⟨a, s', he, hrun⟩ := exists_of_succeeds hrun
  obtain ⟨rfl, hcurrent, hqueue⟩ := of_decide_eq_true hrun
  refine ⟨log, s, s', hlog, hi, he, hcurrent, ?_, hqueue⟩
  rintro ⟨id, o, hid, ho, hv, -⟩
  obtain rfl := Option.some.inj (hid.symm.trans hhandle)
  rw [ho, Option.map_some, Option.some.injEq] at hvalue
  omega

end Session

end ThreadCore
