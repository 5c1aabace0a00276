import ThreadCore.Thread.State
import ThreadCore.Object.Handle
import ThreadCore.Text.Quoted

/-!
# Halts

A halt is a broken rule. Unlike a refusal it ends the run: the core stops where it is and says what
went wrong. `Halt` lists the causes, one constructor each, and `Halt.message` is the diagnosis. A
diagnosis is a sentence, or the two sides of a comparison that failed with an optional sentence.
-/

namespace ThreadCore

/-- The word at the base of every stack. A stack that grows over its base destroys it. -/
def stackMagic : Nat := 0xcd6abf4b

/-- The number of bytes of a page. -/
def pageSize : Nat := 4096

/-- What a thread tried to do inside an interrupt handler, where nothing may wait. -/
inductive Attempt
  | yield
  | block
  | exit
  | sleep
  /-- Taking a unit of a semaphore that has none. -/
  | down (id : ObjectId)
  | acquire (id : ObjectId)
  /-- Waiting on a condition variable. -/
  | await (id : ObjectId)
deriving DecidableEq, Repr

/-- Where a thread waits. -/
inductive Place
  | readyQueue
  | sleepList
  | semaphore
  | lock
  | condition
deriving DecidableEq, Repr

/-- What a thread does to a condition variable on behalf of the holder of its lock. -/
inductive ConditionUse
  | wait
  | signal
  | broadcast
deriving DecidableEq, Repr

/-- A broken rule. -/
inductive Halt
  -- Words and pages.
  /-- A counter has no successor. -/
  | overflow
  /-- A byte outside a page. -/
  | byteOutside (offset : Nat)
  /-- A word that starts outside a page. -/
  | wordStartsOutside (offset : Nat)
  /-- A word that ends outside a page, before `past`. -/
  | wordEndsOutside (past : Nat)
  /-- A page was returned to a pool that has none out. -/
  | poolEmpty
  /-- A busy lock's guard was dropped and not unlocked. -/
  | guardDropped
  -- The processor.
  /-- A handler was entered inside a handler, or left outside one. -/
  | unbalanced (entering : Bool)
  /-- A context switch with interrupts enabled. -/
  | switchUnmasked
  /-- A context switch to the context that runs. -/
  | switchInPlace (sp : Nat)
  /-- The core was booted with interrupts enabled. -/
  | bootUnmasked
  -- Threads and dispatching.
  /-- No live thread has this number. -/
  | notRegistered (thread : ThreadId)
  /-- A queue names a thread that is not live. -/
  | danglingEntry
  | queuedTwice (thread : ThreadId)
  /-- The running thread has overwritten the base of its stack. -/
  | canaryLost (thread : ThreadId) (name : String)
  /-- The thread to run next has `found` at the base of its stack. -/
  | canaryLostAtDispatch (thread : ThreadId) (found : Nat)
  | currentNotRunning (thread : ThreadId) (state : ThreadState)
  | priorityOutOfRange (priority : Priority)
  | inHandler (attempt : Attempt)
  | blockUnmasked
  | unblockIdle (idle : ThreadId)
  | unblockNotBlocked (thread : ThreadId) (state : ThreadState)
  | exitIdle (idle : ThreadId)
  | exitHolding (thread : ThreadId) (lock : ObjectId)
  /-- Dispatching with interrupts enabled. -/
  | dispatchUnmasked
  /-- The turn of a thread that does not run was ended. -/
  | turnNotRunning (state : ThreadState)
  /-- The thread whose turn ended still runs. -/
  | turnNotEnded
  /-- A yield on return was requested outside a handler. -/
  | noReturn
  -- Synchronization.
  | destroyed (handle : Handle)
  | acquiredTwice (thread : ThreadId) (lock : ObjectId)
  /-- A lock was released by `thread`, while `holder` holds it. -/
  | releasedByOther (thread : ThreadId) (lock : ObjectId) (holder : Option ThreadId)
  /-- A thread waits for a lock that nobody holds. -/
  | waitsForFree (thread : ThreadId) (lock : ObjectId)
  /-- The chain of waits from `thread` leads back to it through `lock`. -/
  | deadlock (thread : ThreadId) (lock : ObjectId)
  /-- The chain of waits from `thread` has more links than there are threads. -/
  | endlessWait (thread : ThreadId)
  | withoutLock (use : ConditionUse) (condition lock : ObjectId)
  /-- A condition variable bound to lock `bound` was used with another. -/
  | twoLocks (condition bound lock : ObjectId)
  /-- A parent was woken from its wait for a child that has not exited. -/
  | wokenEarly (thread child : ThreadId)
  -- The audit.
  | auditRunning (running : List ThreadId) (current : ThreadId)
  | auditIdleReady (idle : ThreadId)
  | auditReadyState (thread : ThreadId) (state : ThreadState)
  | auditSleeperState (thread : ThreadId) (state : ThreadState)
  | auditNoWakeTick (thread : ThreadId)
  | auditWaiterState (thread : ThreadId) (place : Place) (state : ThreadState)
  | auditTwoPlaces (thread : ThreadId) (first second : Place)
  | auditCanary (thread : ThreadId) (found : Nat)
  | auditNotQueued (thread : ThreadId)
  | auditNotWaiting (thread : ThreadId) (lock : ObjectId)
  | auditPriority (thread : ThreadId) (priority expected : Priority)
deriving DecidableEq

/-- A diagnosis: a sentence, or a comparison that failed. -/
inductive Diagnosis
  | sentence (text : String)
  /-- The sides had to be equal. -/
  | unequal (text : Option String) (left right : String)
  /-- The sides had to differ. -/
  | same (text : Option String) (side : String)

namespace Diagnosis

/-- The sentence of a comparison, set off from what precedes it. -/
def remark : Option String → String
  | none => ""
  | some text => s!": {text}"

/-- The text of a diagnosis. -/
def text : Diagnosis → String
  | sentence text => text
  | unequal text left right =>
      s!"assertion `left == right` failed{remark text}\n  left: {left}\n right: {right}"
  | same text side =>
      s!"assertion `left != right` failed{remark text}\n  left: {side}\n right: {side}"

end Diagnosis

/-- What is said of an attempt inside a handler. -/
def Attempt.text : Attempt → String
  | yield => "Yielding"
  | block => "Blocking"
  | exit => "Exiting"
  | sleep => "Sleeping"
  | down id => s!"{(Handle.semaphore id).text} would block"
  | acquire id => s!"{(Handle.lock id).text} acquired"
  | await id => s!"{(Handle.condition id).text} waited on"

/-- The name of a place. -/
def Place.text : Place → String
  | readyQueue => "the ready queue"
  | sleepList => "the sleep list"
  | semaphore => "a semaphore"
  | lock => "a lock"
  | condition => "a condition variable"

/-- The word for a use of a condition variable. -/
def ConditionUse.text : ConditionUse → String
  | wait => "Waiting on"
  | signal => "Signalling"
  | broadcast => "Broadcasting"

/-- The text of the state of the interrupt flag. -/
def interruptText (on : Bool) : String := if on then "On" else "Off"

namespace Halt

/-- The diagnosis of a broken rule. -/
def diagnosis : Halt → Diagnosis
  | overflow => .sentence "attempt to add with overflow"
  | byteOutside offset =>
      .sentence s!"index out of bounds: the len is {pageSize} but the index is {offset}"
  | wordStartsOutside offset =>
      .sentence s!"range start index {offset} out of range for slice of length {pageSize}"
  | wordEndsOutside past =>
      .sentence s!"range end index {past} out of range for slice of length {pageSize}"
  | poolEmpty => .sentence "Freeing a page to an empty pool."
  | guardDropped => .sentence "SpinLockGuard dropped without `.unlock()`"
  | unbalanced entering =>
      .same (some "Unbalanced external interrupt entry/exit.") (toString entering)
  | switchUnmasked =>
      .unequal (some "Context switch with interrupts enabled.")
        (interruptText true) (interruptText false)
  | switchInPlace sp => .same (some "Switching to the running context.") (toString sp)
  | bootUnmasked =>
      .unequal (some "The thread core must be booted with interrupts disabled.")
        (interruptText true) (interruptText false)
  | notRegistered thread => .sentence s!"Thread {thread} is not registered."
  | danglingEntry => .sentence "no entry found for key"
  | queuedTwice thread => .sentence s!"Thread {thread} is queued twice."
  | canaryLost thread name =>
      .sentence s!"Stack overflow detected! Thread {thread} ({name}) corrupted its canary."
  | canaryLostAtDispatch thread found =>
      .unequal
        (some s!"Stack overflow detected! Thread {thread} is selected with a corrupted canary.")
        (toString found) (toString stackMagic)
  | currentNotRunning thread state =>
      .unequal (some s!"Current thread {thread} is not running.")
        state.text ThreadState.running.text
  | priorityOutOfRange priority => .sentence s!"Priority {priority} is out of range."
  | inHandler attempt => .sentence s!"{attempt.text} in an external interrupt handler."
  | blockUnmasked =>
      .unequal (some "Blocking with interrupts enabled.") (interruptText true) (interruptText false)
  | unblockIdle idle => .same (some "The idle thread cannot be unblocked.") (toString idle)
  | unblockNotBlocked thread state =>
      .unequal (some s!"Unblocking thread {thread}, which is not blocked.")
        state.text ThreadState.blocked.text
  | exitIdle idle => .same (some "The idle thread cannot exit.") (toString idle)
  | exitHolding thread lock =>
      .sentence s!"Thread {thread} exits while holding {(Handle.lock lock).text}."
  | dispatchUnmasked => .unequal none (interruptText true) (interruptText false)
  | turnNotRunning state => .unequal none state.text ThreadState.running.text
  | turnNotEnded => .same none ThreadState.running.text
  | noReturn => .sentence "Yield on return requested outside an interrupt handler."
  | destroyed handle => .sentence s!"{handle.text} is destroyed."
  | acquiredTwice thread lock =>
      .same (some s!"Thread {thread} acquires {(Handle.lock lock).text} twice.") (toString thread)
  | releasedByOther thread lock holder =>
      .unequal
        (some s!"Thread {thread} releases {(Handle.lock lock).text}, which it does not hold.")
        (Text.optional (holder.map toString)) (Text.optional (some (toString thread)))
  | waitsForFree thread lock =>
      .sentence s!"Thread {thread} waits on {(Handle.lock lock).text}, which is free."
  | deadlock thread lock =>
      .same (some
        s!"Deadlock: thread {thread} waits for itself through {(Handle.lock lock).text}.")
        (toString thread)
  | endlessWait thread => .sentence s!"Deadlock: the waits of thread {thread} form a cycle."
  | withoutLock use condition lock =>
      .sentence
        s!"{use.text} {(Handle.condition condition).text} without holding {(Handle.lock lock).text}."
  | twoLocks condition bound lock =>
      .unequal (some s!"{(Handle.condition condition).text} is used with two locks.")
        (Handle.lock bound).text (Handle.lock lock).text
  | wokenEarly thread child =>
      .sentence
        s!"internal error: entered unreachable code: Thread {thread} woke before child {child} exited."
  | auditRunning running current =>
      let listed := Text.listing (running.map toString)
      .unequal (some s!"Running threads: {listed}") listed (Text.listing [toString current])
  | auditIdleReady idle => .same (some "The idle thread is in the ready queue.") (toString idle)
  | auditReadyState thread state =>
      .unequal (some s!"Thread {thread}") state.text ThreadState.ready.text
  | auditSleeperState thread state =>
      .unequal (some s!"Sleeping thread {thread}") state.text ThreadState.blocked.text
  | auditNoWakeTick thread => .sentence s!"Thread {thread} sleeps without a wakeup tick."
  | auditWaiterState thread place state =>
      .unequal (some s!"Waiter {thread} of {place.text}") state.text ThreadState.blocked.text
  | auditTwoPlaces thread first second =>
      .sentence s!"Thread {thread} waits in both {first.text} and {second.text}."
  | auditCanary thread found =>
      .unequal (some s!"Stack overflow detected! Thread {thread}")
        (toString found) (toString stackMagic)
  | auditNotQueued thread => .sentence s!"Ready thread {thread} is not queued."
  | auditNotWaiting thread lock =>
      .sentence s!"Thread {thread} waits on {(Handle.lock lock).text} but is not queued there."
  | auditPriority thread priority expected =>
      .unequal (some s!"Effective priority of thread {thread}")
        (toString priority) (toString expected)

/-- The text that a halted run leaves. -/
def message (h : Halt) : String := h.diagnosis.text

end Halt

/-- Nothing, if `p` holds; else the run halts. -/
def demand {m : Type → Type} [Monad m] [MonadExcept Halt m] (p : Prop) [Decidable p] (h : Halt) :
    m Unit :=
  if p then pure () else throw h

end ThreadCore
