import ThreadCore.Bench.Basic
import ThreadCore.Bench.BusyLock
import ThreadCore.Bench.Machine
import ThreadCore.Bench.Pool
import ThreadCore.Bench.Queue
import ThreadCore.Config
import ThreadCore.Core.Audit
import ThreadCore.Core.Basic
import ThreadCore.Core.Condition
import ThreadCore.Core.Dispatch
import ThreadCore.Core.Family
import ThreadCore.Core.Interrupt
import ThreadCore.Core.Lifetime
import ThreadCore.Core.Lock
import ThreadCore.Core.Priority
import ThreadCore.Core.Semaphore
import ThreadCore.Core.Sleep
import ThreadCore.Halt
import ThreadCore.Journal
import ThreadCore.Machine.Basic
import ThreadCore.Machine.BusyLock
import ThreadCore.Machine.Context
import ThreadCore.Machine.Flags
import ThreadCore.Machine.Page
import ThreadCore.Machine.Pool
import ThreadCore.Object.Handle
import ThreadCore.Object.Table
import ThreadCore.Queue
import ThreadCore.Refusal
import ThreadCore.Session.Call
import ThreadCore.Session.Run
import ThreadCore.Session.Snapshot
import ThreadCore.Text.Extending
import ThreadCore.Text.Graphic
import ThreadCore.Text.Quoted
import ThreadCore.Thread.Basic
import ThreadCore.Thread.Name
import ThreadCore.Thread.State
import ThreadCore.Word
import ThreadCore.Proofs.WaitGraph
import ThreadCore.Proofs.Donations
import ThreadCore.Proofs.Seating
import ThreadCore.Proofs.Steps
import ThreadCore.Proofs.Views
import ThreadCore.Proofs.Soundness
import ThreadCore.Proofs.Turns
import ThreadCore.Proofs.Preemption
import ThreadCore.Proofs.Queueing
import ThreadCore.Proofs.Chains
import ThreadCore.Proofs.Locking
import ThreadCore.Proofs.Families
import ThreadCore.Proofs.Audits
import ThreadCore.Proofs.Lifetimes
import ThreadCore.Proofs.Handlers
import ThreadCore.Proofs.Parts
import ThreadCore.Proofs.Arrivals
import ThreadCore.Proofs.Errands
import ThreadCore.Proofs.Runs
import ThreadCore.Proofs.Inheritance
import ThreadCore.Proofs.Consistency
import ThreadCore.Proofs.StrictPriority
import ThreadCore.Proofs.Walks
import ThreadCore.Proofs.Deadlock
import ThreadCore.Proofs.Histories
import ThreadCore.Proofs.Frames
import ThreadCore.Proofs.Regaining
import ThreadCore.Proofs.Units
import ThreadCore.Proofs.Kinship
import ThreadCore.Proofs.FamilyCalls
import ThreadCore.Proofs.Handshakes
import ThreadCore.Proofs.Aside
import ThreadCore.Proofs.ExitStatuses
import ThreadCore.Proofs.Handoffs
import ThreadCore.Proofs.Courses
import ThreadCore.Proofs.Onward
import ThreadCore.Proofs.Steadiness
import ThreadCore.Proofs.Books
import ThreadCore.Proofs.Pages
import ThreadCore.Proofs.Stock
import ThreadCore.Proofs.Trades
import ThreadCore.Proofs.Handles
import ThreadCore.Proofs.Tenure
import ThreadCore.Proofs.Watches
import ThreadCore.Proofs.Returns
import ThreadCore.Proofs.Refusals
import ThreadCore.Proofs.Restraint
import ThreadCore.Proofs.Shelter
import ThreadCore.Proofs.Idling
import ThreadCore.Proofs.Sweeps
import ThreadCore.Proofs.Alarms
import ThreadCore.Proofs.Guards
import ThreadCore.Proofs.Guises
import ThreadCore.Proofs.GuisedCalls
import ThreadCore.Proofs.Deferral
import ThreadCore.Proofs.Neutrality
import ThreadCore.Proofs.Chapters
import ThreadCore.Proofs.Protocol
import ThreadCore.Proofs.Dispatches
import ThreadCore.Proofs.Raises
import ThreadCore.Proofs.Successions
import ThreadCore.Proofs.Aims
import ThreadCore.Proofs.Bindings
import ThreadCore.Proofs.DoubleSeats
import ThreadCore.Proofs.Backdrop
import ThreadCore.Proofs.Passes
import ThreadCore.Proofs.Slices
import ThreadCore.Proofs.StableSorts
import ThreadCore.Proofs.Rousing
import ThreadCore.Proofs.Rotation
import ThreadCore.Proofs.Broadcasts
import ThreadCore.Proofs.Grants
import ThreadCore.Proofs.PageWords
import ThreadCore.Proofs.Trials
import ThreadCore.Proofs.PoolCounts
import ThreadCore.Proofs.SortedQueues
import ThreadCore.Proofs.Names
