import Mathlib.Data.Finset.Insert
import Mathlib.Data.Finset.Erase
import OTServBR.Lib.Trace

/-! # Scheduler and dispatcher

Events wait in a priority queue, ordered by the time they are due, until the
scheduler thread hands them to the dispatcher, whose thread executes the tasks
of a list one after another. To stop an event only takes its id out of a set;
its task stays in the queue and is dropped when its time comes.
-/

namespace OTServBR

namespace Scheduler

/-- An accepted event: its number among all accepted events, its id and the time it is due. -/
structure SchedulerTask where
  serial : ℕ
  eventId : UInt32
  cycle : ℕ
  deriving DecidableEq, Repr

/-- What waits in the list of the dispatcher. -/
inductive Task
  | event (task : SchedulerTask)
  | other (n : ℕ)
  deriving DecidableEq, Repr

/-- Where the scheduler thread is: before it locks, in a wait, or behind a popped task. -/
inductive ThreadPoint
  | running
  | waiting (deadline : Option ℕ)
  | handing (task : SchedulerTask)
  deriving DecidableEq, Repr

structure State where
  now : ℕ := 0
  /-- The due times of tasks that are created and not yet added. -/
  created : List ℕ := []
  lastEventId : UInt32 := 0
  /-- The number of accepted events. -/
  added : ℕ := 0
  eventList : List SchedulerTask := []
  eventIds : Finset UInt32 := ∅
  /-- The notifications that are not yet delivered. -/
  signals : ℕ := 0
  thread : ThreadPoint := .running
  /-- The events handed to the dispatcher with the time of it, the last one first. -/
  handed : List (SchedulerTask × ℕ) := []
  taskList : List Task := []
  /-- The tasks that the dispatcher executed, the last one first. -/
  executed : List Task := []
  deriving DecidableEq

namespace State

variable (s : State)

/-- `++lastEventId`, where zero is left out. -/
def nextEventId : UInt32 := if s.lastEventId + 1 = 0 then 1 else s.lastEventId + 1

def createSchedulerTask (delay : UInt32) : State :=
  { s with created := (s.now + delay.toNat) :: s.created }

/-- A new task rises to the top of the queue above tasks that are due later. -/
def addEvent (cycle : ℕ) : State :=
  { s with
    created := s.created.erase cycle
    lastEventId := s.nextEventId
    added := s.added + 1
    eventIds := insert s.nextEventId s.eventIds
    eventList := ⟨s.added, s.nextEventId, cycle⟩ :: s.eventList
    signals := if ∀ task ∈ s.eventList, cycle < task.cycle then s.signals + 1 else s.signals }

def stopEvent (eventid : UInt32) : State × Bool :=
  if eventid = 0 then (s, false)
  else if eventid ∈ s.eventIds then ({ s with eventIds := s.eventIds.erase eventid }, true)
  else (s, false)

/-- To stop an event changes the set of ids only. -/
theorem stopEvent_fst (eventid : UInt32) : (s.stopEvent eventid).1 =
    { s with eventIds := if eventid = 0 then s.eventIds else s.eventIds.erase eventid } := by
  unfold stopEvent
  split
  · rfl
  split
  · rfl
  · next hnot => rw [Finset.erase_eq_of_notMem hnot]

theorem stopEvent_snd (eventid : UInt32) :
    (s.stopEvent eventid).2 = true ↔ eventid ≠ 0 ∧ eventid ∈ s.eventIds := by
  unfold stopEvent
  split
  · next hzero => simp [hzero]
  split
  · next hzero hmem => simp [hzero, hmem]
  · next hzero hmem => simp [hzero, hmem]

/-- Whether a task may be on top of the queue. -/
def IsTop (task : SchedulerTask) : Prop :=
  task ∈ s.eventList ∧ ∀ other ∈ s.eventList, task.cycle ≤ other.cycle

instance (task : SchedulerTask) : Decidable (s.IsTop task) :=
  inferInstanceAs (Decidable (_ ∧ _))

/-- The thread locks and begins to wait, for a signal or until the top of the queue is due. -/
def wait : State := { s with thread := .waiting (s.eventList.map (·.cycle)).min? }

/-- The thread wakes without a timeout. -/
def wake : State := { s with thread := .running }

def notify : State :=
  { s with
    signals := s.signals - 1
    thread := match s.thread with
      | .waiting _ => .running
      | thread => thread }

/-- The thread had a timeout and pops the top of the queue. -/
def timeout (task : SchedulerTask) : State :=
  let s := { s with eventList := s.eventList.erase task }
  if task.eventId ∈ s.eventIds then
    { s with eventIds := s.eventIds.erase task.eventId, thread := .handing task }
  else { s with thread := .running }

/-- `Dispatcher::addTask`. -/
def addTask (task : Task) (push_front : Bool) : State :=
  { s with taskList := if push_front then task :: s.taskList else s.taskList ++ [task] }

/-- The thread hands the popped task to the dispatcher. -/
def hand (task : SchedulerTask) : State :=
  { s.addTask (.event task) true with
    thread := .running
    handed := (task, s.now) :: s.handed }

/-- The dispatcher takes the first task and executes it. -/
def execute (task : Task) (rest : List Task) : State :=
  { s with taskList := rest, executed := task :: s.executed }

end State

inductive Action
  | tick (d : ℕ)
  | createSchedulerTask (delay : UInt32)
  | addEvent (cycle : ℕ)
  | stopEvent (eventid : UInt32)
  | wait
  | wake
  | notify
  | timeout (task : SchedulerTask)
  | hand
  | addTask (n : ℕ) (push_front : Bool)
  | execute
  deriving DecidableEq, Repr

/-- When a thread can take a step. A wait until a time ends without a timeout only before it. -/
def Enabled (s : State) : Action → Prop
  | .tick _ | .createSchedulerTask _ | .stopEvent _ | .addTask _ _ => True
  | .addEvent cycle => cycle ∈ s.created
  | .wait => s.thread = .running
  | .wake =>
    match s.thread with
    | .waiting none => True
    | .waiting (some deadline) => s.now < deadline
    | _ => False
  | .notify => 0 < s.signals
  | .timeout task =>
    match s.thread with
    | .waiting (some deadline) => deadline ≤ s.now ∧ s.IsTop task
    | _ => False
  | .hand =>
    match s.thread with
    | .handing _ => True
    | _ => False
  | .execute => s.taskList ≠ []

def apply (s : State) : Action → State
  | .tick d => { s with now := s.now + d }
  | .createSchedulerTask delay => s.createSchedulerTask delay
  | .addEvent cycle => s.addEvent cycle
  | .stopEvent eventid => (s.stopEvent eventid).1
  | .wait => s.wait
  | .wake => s.wake
  | .notify => s.notify
  | .timeout task => s.timeout task
  | .hand =>
    match s.thread with
    | .handing task => s.hand task
    | _ => s
  | .addTask n push_front => s.addTask (.other n) push_front
  | .execute =>
    match s.taskList with
    | [] => s
    | task :: rest => s.execute task rest

section Inversion

variable {s : State} {task : SchedulerTask}

theorem exists_of_wake (h : Enabled s .wake) :
    ∃ deadline, s.thread = .waiting deadline ∧ ∀ d ∈ deadline, s.now < d := by
  cases hthread : s.thread with
  | running => simp [Enabled, hthread] at h
  | handing task => simp [Enabled, hthread] at h
  | waiting deadline =>
    refine ⟨deadline, rfl, ?_⟩
    rintro d rfl
    simpa [Enabled, hthread] using h

theorem exists_of_timeout (h : Enabled s (.timeout task)) :
    ∃ deadline, s.thread = .waiting (some deadline) ∧ deadline ≤ s.now ∧ s.IsTop task := by
  cases hthread : s.thread with
  | running => simp [Enabled, hthread] at h
  | handing task => simp [Enabled, hthread] at h
  | waiting deadline =>
    cases deadline with
    | none => simp [Enabled, hthread] at h
    | some d => exact ⟨d, rfl, by simpa [Enabled, hthread] using h⟩

theorem exists_of_hand (h : Enabled s .hand) : ∃ task, s.thread = .handing task := by
  cases hthread : s.thread with
  | running => simp [Enabled, hthread] at h
  | waiting deadline => simp [Enabled, hthread] at h
  | handing task => exact ⟨task, rfl⟩

theorem exists_of_execute (h : Enabled s .execute) : ∃ task rest, s.taskList = task :: rest :=
  List.exists_cons_of_ne_nil h

theorem apply_hand (h : s.thread = .handing task) : apply s .hand = s.hand task := by
  simp [apply, h]

theorem apply_execute {task : Task} {rest : List Task} (h : s.taskList = task :: rest) :
    apply s .execute = s.execute task rest := by
  simp [apply, h]

end Inversion

/-- The threads that run from a scheduler without events. -/
def system : TransitionSystem State Action where
  init := {}
  enabled := Enabled
  apply := apply

end Scheduler

end OTServBR
