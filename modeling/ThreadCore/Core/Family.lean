import ThreadCore.Core.Semaphore

/-!
# Parents and children

A thread is the parent of the threads it creates. It keeps a record of each until it has collected
the child's exit status, and with the record two semaphores of its own: on one it waits until the
child reports the end of its fork, on the other until the child exits. An exit counts as a report. A
parent that exits leaves its children without a parent and their statuses uncollected.
-/

namespace ThreadCore

/-- What a parent learns of a child without waiting. -/
inductive ChildStatus
  /-- The child has exited with this status, which is now collected. -/
  | exited (status : Int32)
  | running
deriving DecidableEq, Repr

namespace Core

/-- Changes the family of a live thread. -/
def changeFamily (t : ThreadId) (f : Family → Family) : CoreM Unit :=
  changeThread t fun th => { th with family := f th.family }

/-- Makes `child` a child of `parent`. -/
def adopt (parent child : ThreadId) : CoreM Unit := do
  let forkSemaphore ← newSemaphore 0
  let exitSemaphore ← newSemaphore 0
  let entry : ChildRecord := ⟨forkSemaphore, exitSemaphore, false, none⟩
  changeFamily parent fun f => { f with children := f.children.insert child entry }
  changeFamily child fun f => { f with parent := some parent }

/-- The parent of the running thread, unless it has exited. -/
def parent (k : Core) : Except Halt (Option ThreadId) := do
  return (← k.running).family.parent

/-- The children of the running thread whose status is not collected. -/
def children (k : Core) : Except Halt (List ThreadId) := do
  return (← k.running).family.children.keys

/-- The status the running thread will exit with. -/
def exitStatus (k : Core) : Except Halt Int32 := do
  return (← k.running).family.exitStatus

/-- Sets the status the running thread will exit with. -/
def setExitStatus (status : Int32) : CoreM Unit := do
  let t := (← ask running).id
  changeFamily t fun f => { f with exitStatus := status }

/-- The record that `parent` keeps of `child`. -/
def childRecord (parent child : ThreadId) (k : Core) : Except Halt (Option ChildRecord) := do
  return (← k.thread parent).family.children[child]?

/-- Destroys the semaphores of a record. -/
def dropRecord (entry : ChildRecord) : CoreM Unit := do
  dropSemaphore entry.forkSemaphore
  dropSemaphore entry.exitSemaphore

/-- Reports to the parent that the running thread has finished forking. It may do so once. -/
def reportFork : CoreM (Except Refusal Unit) := do
  let t := (← ask running).id
  match (← ask (thread t)).family.parent with
  | none => return .error .notPermitted
  | some parent =>
    match ← ask (childRecord parent t) with
    | none => return .error .notPermitted
    | some entry =>
      if entry.forked then return .error .notPermitted
      changeFamily parent fun f =>
        { f with children := f.children.insert t { entry with forked := true } }
      up entry.forkSemaphore
      return .ok ()

/-- Waits until `child` reports the end of its fork or exits. -/
def awaitFork (child : ThreadId) : CoreM (Except Refusal Unit) := do
  let t := (← ask running).id
  match ← ask (childRecord t child) with
  | none => return .error .noSuchEntry
  | some entry =>
    down entry.forkSemaphore
    return .ok ()

/-- Collects the status of `child` for `parent` if the child has exited. -/
def collect (parent child : ThreadId) : CoreM (Except Refusal ChildStatus) := do
  match ← ask (childRecord parent child) with
  | none => return .error .noSuchEntry
  | some entry =>
    match entry.status with
    | none => return .ok .running
    | some status =>
      changeFamily parent fun f => { f with children := f.children.erase child }
      dropRecord entry
      return .ok (.exited status)

/-- Collects the status of a child of the running thread if the child has exited. -/
def tryCollect (child : ThreadId) : CoreM (Except Refusal ChildStatus) := do
  let t := (← ask running).id
  collect t child

/-- Waits until `child` exits and collects its status. If this takes the processor away, the call is
over in the name of the thread that got it: the answer is `busy`, and the parent collects the status
when it runs again. -/
def awaitExit (child : ThreadId) : CoreM (Except Refusal Int32) := do
  let t := (← ask running).id
  match ← collect t child with
  | .error refusal => return .error refusal
  | .ok (.exited status) => return .ok status
  | .ok .running =>
    match ← ask (childRecord t child) with
    | none => return .error .noSuchEntry
    | some entry =>
      down entry.exitSemaphore
      if (← get).current ≠ t then return .error .busy
      match ← collect t child with
      | .error refusal => return .error refusal
      | .ok (.exited status) => return .ok status
      | .ok .running => throw (.wokenEarly t child)

/-- Leaves the children of an exiting thread without a parent. -/
def orphan : List (ThreadId × ChildRecord) → CoreM Unit
  | [] => pure ()
  | (child, entry) :: rest => do
    if child ∈ (← get).threads then
      changeFamily child fun f => { f with parent := none }
    dropRecord entry
    orphan rest

/-- Stores the exit status of `t` with its parent, and wakes the parent if it waits for it. -/
def reportExit (t : ThreadId) (status : Int32) (parent : ThreadId) : CoreM Unit := do
  match (← get).threads[parent]? with
  | none => pure ()
  | some th =>
    match th.family.children[t]? with
    | none => pure ()
    | some entry =>
      changeFamily parent fun f =>
        { f with
          children := f.children.insert t { entry with forked := true, status := some status } }
      if !entry.forked then
        let _ ← wakeOne entry.forkSemaphore
      let _ ← wakeOne entry.exitSemaphore
      say (.reports t status parent)

/-- Ends the task and the family ties of the exiting thread `t`. -/
def leaveFamily (t : ThreadId) : CoreM Unit := do
  let th ← ask (thread t)
  match th.task.bind Task.label? with
  | some label => record (.taskExited label th.family.exitStatus)
  | none => pure ()
  changeFamily t fun f => { f with parent := none, children := ∅ }
  orphan th.family.children.toList
  match th.family.parent with
  | none => pure ()
  | some parent => reportExit t th.family.exitStatus parent

end Core

end ThreadCore
