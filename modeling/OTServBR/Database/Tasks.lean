import Mathlib.Logic.Function.Basic
import OTServBR.Lib.Trace

/-! # Database tasks

Queries wait in a list that a worker thread empties, together with every thread
that flushes it. A task is taken under the lock and executed without it. A step
of a thread is what it does under the lock, or what it does between two locks.
-/

namespace OTServBR.DatabaseTasks

/-- An accepted task with its number among all accepted tasks. -/
structure DatabaseTask where
  serial : ℕ
  query : String
  callback : Option ℕ
  store : Bool
  deriving DecidableEq, Repr

/-- The worker, and the threads that call the functions. -/
inductive Thread
  | worker
  | caller (id : ℕ)
  deriving DecidableEq, Repr

inductive ThreadState
  | running
  | closing
  | terminated
  deriving DecidableEq, Repr

/-- The loop in which a task is executed. -/
inductive Loop
  | threadMain
  | flush (shutdown : Bool)
  deriving DecidableEq, Repr

/-- Where a thread is. -/
inductive Point
  /-- A caller outside of all functions. -/
  | idle
  /-- In `addTask`, behind the lock, with a signal to send. -/
  | signalling
  /-- In `flush`, before the lock. -/
  | flushing (shutdown : Bool)
  /-- In `shutdown`, behind `flush`. -/
  | notifying
  /-- The worker before it reads the state. -/
  | checking
  /-- The worker before the lock. -/
  | entering
  /-- The worker in the wait. -/
  | waiting (notified : Bool)
  /-- The worker behind its loop. -/
  | ended
  | executing (task : DatabaseTask) (loop : Loop)
  deriving DecidableEq, Repr

/-- Where a thread goes on after a task. -/
def Loop.resume : Loop → Point
  | .threadMain => .checking
  | .flush shutdown => .flushing shutdown

/-- Right after `start`, the worker is before its loop and nobody called anything. -/
structure State where
  threadState : ThreadState := .running
  tasks : List DatabaseTask := []
  point : Thread → Point := fun t => if t = .worker then .checking else .idle
  /-- The tasks accepted, taken from the list and executed, in this order. -/
  accepted : List DatabaseTask := []
  taken : List DatabaseTask := []
  executed : List DatabaseTask := []
  /-- The tasks whose callbacks the dispatcher got. -/
  dispatched : List DatabaseTask := []

namespace State

variable (s : State)

def setPoint (t : Thread) (p : Point) : State := { s with point := Function.update s.point t p }

def addTask (c : ℕ) (query : String) (callback : Option ℕ) (store : Bool) : State :=
  if s.threadState = .running then
    let task := ⟨s.accepted.length, query, callback, store⟩
    let signal := s.tasks = []
    { s with
      tasks := s.tasks ++ [task]
      accepted := s.accepted ++ [task] }.setPoint (.caller c)
        (if signal then .signalling else .idle)
  else s

/-- `notify_one` reaches the worker if it waits. -/
def notify (c : ℕ) : State :=
  let s := s.setPoint (.caller c) .idle
  match s.point .worker with
  | .waiting _ => s.setPoint .worker (.waiting true)
  | _ => s

/-- Under the lock a thread takes the first task, or goes where it goes if there is none. -/
def take (t : Thread) (loop : Loop) (whenEmpty : Point) : State :=
  match s.tasks with
  | [] => s.setPoint t whenEmpty
  | task :: tasks =>
    { s with
      tasks := tasks
      taken := s.taken ++ [task] }.setPoint t (.executing task loop)

def runTask (task : DatabaseTask) : State :=
  { s with
    executed := s.executed ++ [task]
    dispatched := if task.callback.isSome then s.dispatched ++ [task] else s.dispatched }

end State

inductive Action
  | addTask (c : ℕ) (query : String) (callback : Option ℕ) (store : Bool)
  | stop
  | flush (c : ℕ)
  | shutdown (c : ℕ)
  /-- A flushing thread gets the lock. -/
  | flushLock (c : ℕ)
  | notify (c : ℕ)
  /-- The worker reads the state, gets the lock, and wakes up with or without a signal. -/
  | check
  | lock
  | wake
  | execute (t : Thread)
  deriving DecidableEq, Repr

def Enabled (s : State) : Action → Prop
  | .stop => True
  | .addTask c _ _ _ | .flush c | .shutdown c => s.point (.caller c) = .idle
  | .flushLock c => ∃ shutdown, s.point (.caller c) = .flushing shutdown
  | .notify c => s.point (.caller c) = .signalling ∨ s.point (.caller c) = .notifying
  | .check => s.point .worker = .checking
  | .lock => s.point .worker = .entering
  | .wake => ∃ notified, s.point .worker = .waiting notified
  | .execute t => ∃ task loop, s.point t = .executing task loop

def apply (s : State) : Action → State
  | .addTask c query callback store => s.addTask c query callback store
  | .stop => { s with threadState := .closing }
  | .flush c => s.setPoint (.caller c) (.flushing false)
  | .shutdown c => { s with threadState := .terminated }.setPoint (.caller c) (.flushing true)
  | .flushLock c =>
    match s.point (.caller c) with
    | .flushing shutdown =>
      s.take (.caller c) (.flush shutdown) (if shutdown then .notifying else .idle)
    | _ => s
  | .notify c => s.notify c
  | .check => s.setPoint .worker (if s.threadState = .terminated then .ended else .entering)
  | .lock => s.take .worker .threadMain (.waiting false)
  | .wake => s.take .worker .threadMain .checking
  | .execute t =>
    match s.point t with
    | .executing task loop => (s.runTask task).setPoint t loop.resume
    | _ => s

/-- The threads that run from a started worker. -/
def system : TransitionSystem State Action where
  init := {}
  enabled := Enabled
  apply := apply

end OTServBR.DatabaseTasks
