import Mathlib
import ThreadCore.Object.Handle
import ThreadCore.Thread.State

/-!
# Where threads wait

A thread that does not run may sit in one queue: the ready queue, the sleep list or the queue of an
object. `Seating` is the part of the state that says who sits where, and `Seating.Sound` are its
rules: nobody sits twice, those in the ready queue are ready and all others who sit are blocked, the
idle thread never sits, and those with a tick to wake at are those in the sleep list.

Inside an operation the running thread may have taken a seat already while its turn has not ended.
The rules therefore speak of the state that the running thread is about to have.
-/

namespace ThreadCore

/-- A queue that threads wait in. -/
inductive Seat
  | ready
  | sleep
  | semaphore (id : ObjectId)
  | lock (id : ObjectId)
  | condition (id : ObjectId)
deriving DecidableEq

/-- The state of the threads that sit there. -/
def Seat.state : Seat → ThreadState
  | ready => .ready
  | _ => .blocked

@[simp] theorem Seat.state_ne_running (p : Seat) : p.state ≠ .running := by
  intro h
  cases p <;> cases h

@[simp] theorem Seat.state_ne_dying (p : Seat) : p.state ≠ .dying := by
  intro h
  cases p <;> cases h

theorem Seat.state_eq_ready {p : Seat} : p.state = .ready ↔ p = .ready := by
  cases p <;> simp [Seat.state]

/-- Who is in which state, sits where and wakes when. -/
structure Seating where
  /-- The states of the live threads. -/
  state : ThreadId → Option ThreadState
  queue : Seat → List ThreadId
  wakeAt : ThreadId → Option Nat
  current : ThreadId
  idle : ThreadId

namespace Seating

/-- The state of `t`, where the current thread counts as being in state `σ` already. -/
def about (s : Seating) (σ : ThreadState) (t : ThreadId) : Option ThreadState :=
  if t = s.current then some σ else s.state t

/-- The rules of seating, while the current thread is about to be in state `σ`. -/
structure Sound (s : Seating) (σ : ThreadState) : Prop where
  current_running : s.state s.current = some .running
  other_state : ∀ t x, t ≠ s.current → s.state t = some x → x = .ready ∨ x = .blocked
  idle_live : ∃ x, s.state s.idle = some x
  nodup : ∀ p, (s.queue p).Nodup
  one_seat : ∀ t p q, t ∈ s.queue p → t ∈ s.queue q → p = q
  seated : ∀ t p, t ∈ s.queue p → s.about σ t = some p.state
  ready_seated : ∀ t, s.about σ t = some .ready → t ∈ s.queue .ready
  idle_stands : ∀ p, s.idle ∉ s.queue p
  wakeAt_iff : ∀ t, (s.wakeAt t).isSome ↔ t ∈ s.queue .sleep

def setState (s : Seating) (t : ThreadId) (o : Option ThreadState) : Seating :=
  { s with state := Function.update s.state t o }

def setQueue (s : Seating) (p : Seat) (ts : List ThreadId) : Seating :=
  { s with queue := Function.update s.queue p ts }

def setWakeAt (s : Seating) (t : ThreadId) (o : Option Nat) : Seating :=
  { s with wakeAt := Function.update s.wakeAt t o }

/-- `t` sits nowhere. -/
def Stands (s : Seating) (t : ThreadId) : Prop := ∀ p, t ∉ s.queue p

variable {s : Seating} {σ : ThreadState} {t : ThreadId} {p : Seat}

theorem about_current (s : Seating) (σ : ThreadState) : s.about σ s.current = some σ := if_pos rfl

theorem about_of_ne (ht : t ≠ s.current) : s.about σ t = s.state t := if_neg ht

/-- The current thread sits nowhere if it is about to be in a state that no seat has. -/
theorem Sound.current_stands (h : s.Sound σ) (hσ : ∀ p : Seat, p.state ≠ σ) :
    s.Stands s.current := by
  intro p hp
  have := h.seated _ p hp
  rw [about_current, Option.some.injEq] at this
  exact hσ p this.symm

/-! ## Leaving a seat -/

/-- Who sat in a queue that is destroyed stands. -/
theorem Sound.clear (h : s.Sound σ) (hr : p ≠ .ready) (hs : p ≠ .sleep) :
    (s.setQueue p []).Sound σ := by
  obtain ⟨h₁, h₂, h₃, h₄, h₅, h₆, h₇, h₈, h₉⟩ := h
  constructor <;> simp only [setQueue, about, Function.update_apply] at * <;> grind

/-- A thread leaves the queue of an object. -/
theorem Sound.leave (h : s.Sound σ) (hr : p ≠ .ready) (hs : p ≠ .sleep) (t : ThreadId) :
    (s.setQueue p ((s.queue p).erase t)).Sound σ := by
  obtain ⟨h₁, h₂, h₃, h₄, h₅, h₆, h₇, h₈, h₉⟩ := h
  constructor <;> simp only [setQueue, about, Function.update_apply] at * <;> grind

/-- A thread leaves the sleep list, and its tick is forgotten. -/
theorem Sound.wake (h : s.Sound σ) (t : ThreadId) :
    ((s.setQueue .sleep ((s.queue .sleep).erase t)).setWakeAt t none).Sound σ := by
  obtain ⟨h₁, h₂, h₃, h₄, h₅, h₆, h₇, h₈, h₉⟩ := h
  constructor <;> simp only [setQueue, setWakeAt, about, Function.update_apply] at * <;> grind

/-- Whoever left their seat stands. -/
theorem Sound.stands_of_leave (h : s.Sound σ) (ht : t ∈ s.queue p) :
    (s.setQueue p ((s.queue p).erase t)).Stands t := by
  intro q hq
  have h₁ := h.nodup p
  have h₂ := h.one_seat t p q ht
  simp only [setQueue, Function.update_apply] at hq
  grind

/-! ## Taking a seat -/

/-- A blocked thread becomes ready. -/
theorem Sound.makeReady (h : s.Sound σ) (hb : s.state t = some .blocked) (hi : t ≠ s.idle)
    (ht : s.Stands t) :
    ((s.setState t (some .ready)).setQueue .ready (s.queue .ready ++ [t])).Sound σ := by
  have hc : t ≠ s.current := by
    rintro rfl
    simp [h.current_running] at hb
  obtain ⟨h₁, h₂, h₃, h₄, h₅, h₆, h₇, h₈, h₉⟩ := h
  have hsr : Seat.ready.state = .ready := rfl
  have hpr := @Seat.state_eq_ready
  unfold Stands at ht
  constructor <;> simp only [setQueue, setState, about, Function.update_apply] at * <;> grind

/-- A blocked thread that stands takes a seat in the queue of an object. -/
theorem Sound.sit (h : s.Sound σ) (hb : s.about σ t = some p.state) (hi : t ≠ s.idle)
    (ht : s.Stands t) (hr : p ≠ .ready) (hs : p ≠ .sleep) :
    (s.setQueue p (s.queue p ++ [t])).Sound σ := by
  obtain ⟨h₁, h₂, h₃, h₄, h₅, h₆, h₇, h₈, h₉⟩ := h
  unfold Stands at ht
  constructor <;> simp only [setQueue, about, Function.update_apply] at * <;> grind

/-- The running thread is about to be blocked or to die, and sits nowhere. -/
theorem Sound.stand (h : s.Sound .running) (hσ : σ ≠ .ready) : s.Sound σ := by
  have hc := h.current_stands Seat.state_ne_running
  obtain ⟨h₁, h₂, h₃, h₄, h₅, h₆, h₇, h₈, h₉⟩ := h
  unfold Stands at hc
  constructor <;> simp only [about] at * <;> grind

/-- The running thread goes to sleep. -/
theorem Sound.goToSleep (h : s.Sound .running) (hi : s.current ≠ s.idle) (tick : Nat) :
    ((s.setWakeAt s.current (some tick)).setQueue .sleep (s.queue .sleep ++ [s.current])).Sound
      .blocked := by
  have hc := h.current_stands Seat.state_ne_running
  obtain ⟨h₁, h₂, h₃, h₄, h₅, h₆, h₇, h₈, h₉⟩ := h
  have hsr : Seat.sleep.state = .blocked := rfl
  unfold Stands at hc
  constructor <;> simp only [setQueue, setWakeAt, about, Function.update_apply] at * <;> grind

/-- The running thread goes to the end of the ready queue. -/
theorem Sound.lineUp (h : s.Sound .running) (hi : s.current ≠ s.idle) :
    (s.setQueue .ready (s.queue .ready ++ [s.current])).Sound .ready := by
  have hc := h.current_stands Seat.state_ne_running
  obtain ⟨h₁, h₂, h₃, h₄, h₅, h₆, h₇, h₈, h₉⟩ := h
  have hsr : Seat.ready.state = .ready := rfl
  unfold Stands at hc
  constructor <;> simp only [setQueue, about, Function.update_apply] at * <;> grind

/-- A new thread is blocked. -/
theorem Sound.register (h : s.Sound σ) (ht : s.state t = none) :
    (s.setState t (some .blocked)).Sound σ := by
  have hc : t ≠ s.current := by
    rintro rfl
    simp [h.current_running] at ht
  obtain ⟨h₁, h₂, h₃, h₄, h₅, h₆, h₇, h₈, h₉⟩ := h
  constructor <;> simp only [setState, about, Function.update_apply] at * <;> grind

/-! ## The end of a turn -/

/-- The current thread ends its turn in state `σ`, or is no longer live if it dies, and `t` runs. -/
def turn (s : Seating) (σ : ThreadState) (t : ThreadId) : Seating :=
  { s with
    state := Function.update
      (Function.update s.state s.current (if σ = .dying then none else some σ)) t (some .running)
    queue := Function.update s.queue .ready ((s.queue .ready).erase t)
    current := t }

theorem Sound.turn (h : s.Sound σ) (hσ : σ ≠ .running) (ht : t ∈ s.queue .ready ∨ t = s.idle)
    (hd : σ = .dying → s.current ≠ s.idle) : (s.turn σ t).Sound .running := by
  have hpd := Seat.state_ne_dying
  have hsr : Seat.ready.state = .ready := rfl
  have hstands : ∀ p, t ∉ (Function.update s.queue .ready ((s.queue .ready).erase t)) p := by
    intro p
    have := h.nodup .ready
    have := h.one_seat t .ready p
    have := h.idle_stands p
    simp only [Function.update_apply]
    grind
  have hσ' : ∀ x, (if σ = .dying then none else some σ) = some x → x = .ready ∨ x = .blocked := by
    cases σ <;> simp_all
  obtain ⟨h₁, h₂, h₃, h₄, h₅, h₆, h₇, h₈, h₉⟩ := h
  constructor <;> simp only [Seating.turn, about, Function.update_apply] at * <;> grind

end Seating

end ThreadCore
