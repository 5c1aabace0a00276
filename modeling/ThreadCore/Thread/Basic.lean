import Std.Data.ExtTreeMap
import ThreadCore.Machine.Context
import ThreadCore.Machine.Page
import ThreadCore.Queue
import ThreadCore.Thread.Name

/-!
# Threads

What the core keeps of a live thread: who it is, whether and how urgently it can run, what it waits
for, its stack and saved context, and its ties to the threads it created and the one that created
it.

A thread has a base priority of its own and an effective priority, by which it is scheduled. The
threads that wait for locks it holds are its donors, and its effective priority is the greatest of
its base priority and theirs.
-/

namespace ThreadCore

/-- The work a thread does for a user program. -/
inductive Task
  /-- It has no name and leaves no events. -/
  | silent
  /-- It leaves events under its name. -/
  | named (label : String)
deriving DecidableEq, Repr

/-- The name under which a task leaves events. -/
def Task.label? : Task → Option String
  | silent => none
  | named label => some label

/-- What a parent keeps of a child whose exit status it has not collected. -/
structure ChildRecord where
  /-- The semaphore on which the parent waits for the end of the child's fork. -/
  forkSemaphore : ObjectId
  /-- The semaphore on which the parent waits for the child's exit. -/
  exitSemaphore : ObjectId
  /-- Whether the child has reported the end of its fork, or exited. -/
  forked : Bool
  /-- The status the child exited with. -/
  status : Option Int32
deriving DecidableEq, Repr

/-- The ties of a thread to its parent and its children. -/
structure Family where
  parent : Option ThreadId
  children : Std.ExtTreeMap ThreadId ChildRecord
  /-- The status the thread will exit with. -/
  exitStatus : Int32

/-- A thread without ties. -/
def Family.alone : Family := ⟨none, ∅, -1⟩

/-- A live thread. -/
structure Thread where
  id : ThreadId
  name : String
  state : ThreadState
  /-- The priority it was given. -/
  base : Priority
  /-- The effective priority. -/
  priority : Priority
  /-- The lock it waits for. -/
  waitsFor : Option ObjectId
  /-- The threads that donate to it. -/
  donors : Queue
  /-- The tick it sleeps until. -/
  wakeAt : Option Nat
  family : Family
  task : Option Task
  stack : Page
  context : Context

namespace Thread

/-- A new thread on a stack of its own. It is blocked. -/
def create (id : ThreadId) (name : String) (priority : Priority) (page : Page)
    (entry : Option String) (task : Option Task) : Thread where
  id := id
  name := name
  state := .blocked
  base := priority
  priority := priority
  waitsFor := none
  donors := .empty
  wakeAt := none
  family := .alone
  task := task
  stack := page.asStack
  context := ⟨page.lastWord, entry⟩

instance : Inhabited Thread := ⟨create 0 "" 0 default none none⟩

/-- Whether the base of the stack holds the magic word. -/
def intact (t : Thread) : Bool := t.stack.canary = stackMagic

/-- The text of a thread. -/
def text (t : Thread) : String :=
  s!"Thread \x7b tid: {t.id}, name: {Text.quote t.name}, state: {t.state.text}, " ++
    s!"priority: {t.priority}, base_priority: {t.base} \x7d"

end Thread

end ThreadCore
