import Mathlib.Data.Int.ModEq
import Mathlib.Data.List.Perm.Subperm
import Mathlib.Data.Prod.Lex
import Mathlib.Data.List.MinMax
import Mathlib.Tactic.IntervalCases
import OTServBR.Scheduler.Basic

/-! # Delivery of events

Every accepted event is in the queue, behind the scheduler thread or handed
over, and in one of these places only. As long as no two queued events share
an id, a live event leaves the queue only to be handed over, and a stopped one
is dropped. A fair run hands every live event over.
-/

namespace OTServBR

namespace Scheduler

/-- The id of the event with a number: ids count up and skip zero. -/
def idOf (n : ℕ) : UInt32 := UInt32.ofNat (n % (2 ^ 32 - 1) + 1)

theorem toNat_idOf (n : ℕ) : (idOf n).toNat = n % (2 ^ 32 - 1) + 1 := by
  rw [idOf, UInt32.toNat_ofNat']
  omega

theorem idOf_succ (n : ℕ) : idOf (n + 1) = if idOf n + 1 = 0 then 1 else idOf n + 1 := by
  have hadd : (idOf n + 1).toNat = (n % (2 ^ 32 - 1) + 1 + 1) % 2 ^ 32 := by
    rw [UInt32.toNat_add, toNat_idOf]
    rfl
  rw [← UInt32.toNat_inj, toNat_idOf]
  split
  · next hzero =>
    rw [hzero] at hadd
    simp only [UInt32.toNat_zero, UInt32.toNat_one] at hadd ⊢
    omega
  · next hzero =>
    rw [← UInt32.toNat_inj, hadd, UInt32.toNat_zero] at hzero
    rw [hadd]
    omega

/-- Ids come back only after all others. -/
theorem idOf_injective {m n : ℕ} (h : idOf m = idOf n) (hmn : m ≤ n) (hlt : n < m + (2 ^ 32 - 1)) :
    m = n := by
  have hmod : m % (2 ^ 32 - 1) = n % (2 ^ 32 - 1) := by
    have htoNat := congrArg UInt32.toNat h
    rw [toNat_idOf, toNat_idOf] at htoNat
    exact Nat.succ.inj htoNat
  have hdvd : 2 ^ 32 - 1 ∣ n - m := (Nat.modEq_iff_dvd' hmn).1 hmod
  have hzero := Nat.eq_zero_of_dvd_of_lt hdvd (by omega)
  omega

namespace State

variable (s : State)

def inFlight : List SchedulerTask :=
  match s.thread with
  | .handing task => [task]
  | _ => []

/-- The events that were accepted and not dropped. -/
def known : List SchedulerTask := s.eventList ++ (s.inFlight ++ s.handed.map (·.1))

end State

variable {s : State} {a : Action} {e : SchedulerTask}

theorem inFlight_notify : s.notify.inFlight = s.inFlight := by
  unfold State.notify State.inFlight
  cases s.thread <;> rfl

theorem mem_inFlight (h : s.thread = .handing e) : e ∈ s.inFlight := by
  rw [State.inFlight, h]
  exact List.mem_singleton_self e

/-! ## The events that are known -/

/-- What holds of the known events between two steps. -/
structure Tracked (events : List SchedulerTask) (added : ℕ) : Prop where
  ids : ∀ task ∈ events, task.eventId = idOf task.serial
  serials : ∀ task ∈ events, task.serial < added
  nodup : (events.map (·.serial)).Nodup

namespace Tracked

variable {l l' : List SchedulerTask} {n : ℕ}

theorem subperm (h : Tracked l n) (hl : l'.Subperm l) : Tracked l' n := by
  obtain ⟨k, hperm, hsub⟩ := hl
  have hmem : ∀ task ∈ l', task ∈ l := fun task ht => hsub.subset (hperm.symm.subset ht)
  constructor
  · exact fun task ht => h.ids task (hmem task ht)
  · exact fun task ht => h.serials task (hmem task ht)
  · exact ((hperm.map _).nodup_iff).1 (h.nodup.sublist (hsub.map _))

theorem cons (h : Tracked l n) (cycle : ℕ) : Tracked (⟨n, idOf n, cycle⟩ :: l) (n + 1) := by
  constructor
  · rintro task ht
    rcases List.mem_cons.1 ht with rfl | ht
    · rfl
    · exact h.ids task ht
  · rintro task ht
    rcases List.mem_cons.1 ht with rfl | ht
    · exact Nat.lt_succ_self _
    · exact (h.serials task ht).trans (Nat.lt_succ_self _)
  · refine List.nodup_cons.2 ⟨fun hmem => ?_, h.nodup⟩
    obtain ⟨task, ht, heq⟩ := List.mem_map.1 hmem
    exact absurd (h.serials task ht) (by simp [heq])

end Tracked

/-- What holds of a scheduler between two steps. -/
structure Consistent (s : State) : Prop where
  nextEventId : s.nextEventId = idOf s.added
  tracked : Tracked s.known s.added
  /-- The thread waits no longer than until its first event is due. -/
  due : ∀ deadline, s.thread = .waiting (some deadline) →
    ∃ task ∈ s.eventList, task.cycle ≤ deadline
  inFlight : ∀ task ∈ s.inFlight, task.cycle ≤ s.now
  handed : ∀ p ∈ s.handed, p.1.cycle ≤ p.2

theorem consistent_init : Consistent {} := by
  constructor
  · decide
  · constructor <;> simp [State.known, State.inFlight]
  · simp
  · simp [State.inFlight]
  · simp

namespace Consistent

variable (h : Consistent s)

include h

theorem addEvent (cycle : ℕ) : Consistent (s.addEvent cycle) := by
  constructor
  · have hid : (s.addEvent cycle).nextEventId =
        if s.nextEventId + 1 = 0 then 1 else s.nextEventId + 1 := rfl
    rw [hid, h.nextEventId, ← idOf_succ]
    rfl
  · have hknown : (s.addEvent cycle).known = ⟨s.added, s.nextEventId, cycle⟩ :: s.known := rfl
    rw [hknown, h.nextEventId]
    exact h.tracked.cons cycle
  · intro deadline hthread
    obtain ⟨task, htask, hcycle⟩ := h.due deadline hthread
    exact ⟨task, List.mem_cons_of_mem _ htask, hcycle⟩
  · exact h.inFlight
  · exact h.handed

theorem wait (hrunning : s.thread = .running) : Consistent s.wait := by
  have hknown : s.wait.known = s.known := by
    simp [State.known, State.inFlight, State.wait, hrunning]
  constructor
  · exact h.nextEventId
  · rw [hknown]
    exact h.tracked
  · intro deadline hthread
    have hmin : (s.eventList.map (·.cycle)).min? = some deadline := ThreadPoint.waiting.inj hthread
    obtain ⟨task, htask, rfl⟩ := List.mem_map.1 (List.min?_mem hmin)
    exact ⟨task, htask, le_refl _⟩
  · simp [State.inFlight, State.wait]
  · exact h.handed

theorem wake {deadline : Option ℕ} (hwaiting : s.thread = .waiting deadline) :
    Consistent s.wake := by
  have hknown : s.wake.known = s.known := by
    simp [State.known, State.inFlight, State.wake, hwaiting]
  constructor
  · exact h.nextEventId
  · rw [hknown]
    exact h.tracked
  · simp [State.wake]
  · simp [State.inFlight, State.wake]
  · exact h.handed

theorem notify : Consistent s.notify := by
  have hknown : s.notify.known = s.known := by
    rw [State.known, inFlight_notify]
    rfl
  constructor
  · exact h.nextEventId
  · rw [hknown]
    exact h.tracked
  · intro deadline hthread
    refine h.due deadline ?_
    unfold State.notify at hthread
    cases hs : s.thread <;> rw [hs] at hthread <;> cases hthread
  · rw [inFlight_notify]
    exact h.inFlight
  · exact h.handed

theorem timeout {deadline : ℕ} {task : SchedulerTask}
    (hwaiting : s.thread = .waiting (some deadline)) (hdue : deadline ≤ s.now)
    (htop : s.IsTop task) : Consistent (s.timeout task) := by
  have hnone : s.inFlight = [] := by rw [State.inFlight, hwaiting]
  have htracked := h.tracked
  unfold State.known at htracked
  rw [hnone] at htracked
  unfold State.timeout
  dsimp only
  split
  · constructor
    · exact h.nextEventId
    · refine htracked.subperm (List.Perm.subperm ?_)
      refine List.perm_middle.trans ?_
      exact (List.perm_cons_erase htop.1).symm.append_right _
    · simp
    · intro other hother
      obtain rfl := List.mem_singleton.1 hother
      obtain ⟨first, hfirst, hcycle⟩ := h.due deadline hwaiting
      exact ((htop.2 first hfirst).trans hcycle).trans hdue
    · exact h.handed
  · constructor
    · exact h.nextEventId
    · exact htracked.subperm ((List.erase_sublist.append_right _).subperm)
    · simp
    · simp [State.inFlight]
    · exact h.handed

theorem hand {task : SchedulerTask} (hthread : s.thread = .handing task) :
    Consistent (s.hand task) := by
  have hinFlight : s.inFlight = [task] := by rw [State.inFlight, hthread]
  have hknown : (s.hand task).known = s.known := by
    rw [State.known, State.known, hinFlight]
    rfl
  constructor
  · exact h.nextEventId
  · rw [hknown]
    exact h.tracked
  · simp [State.hand]
  · simp [State.hand, State.inFlight]
  · intro p hp
    rcases List.mem_cons.1 hp with rfl | hp
    · exact h.inFlight task (by rw [hinFlight]; exact List.mem_singleton_self _)
    · exact h.handed p hp

/-- A step of any thread keeps the scheduler consistent. -/
theorem step (ha : Enabled s a) : Consistent (apply s a) := by
  cases a with
  | tick d =>
    constructor
    · exact h.nextEventId
    · exact h.tracked
    · exact h.due
    · exact fun task htask => (h.inFlight task htask).trans (Nat.le_add_right _ _)
    · exact h.handed
  | createSchedulerTask delay => exact ⟨h.nextEventId, h.tracked, h.due, h.inFlight, h.handed⟩
  | addEvent cycle => exact h.addEvent cycle
  | stopEvent eventid =>
    rw [apply, State.stopEvent_fst]
    exact ⟨h.nextEventId, h.tracked, h.due, h.inFlight, h.handed⟩
  | wait => exact h.wait ha
  | wake =>
    obtain ⟨deadline, hthread, -⟩ := exists_of_wake ha
    exact h.wake hthread
  | notify => exact h.notify
  | timeout task =>
    obtain ⟨deadline, hthread, hdue, htop⟩ := exists_of_timeout ha
    exact h.timeout hthread hdue htop
  | hand =>
    obtain ⟨task, hthread⟩ := exists_of_hand ha
    rw [apply_hand hthread]
    exact h.hand hthread
  | addTask n push_front => exact ⟨h.nextEventId, h.tracked, h.due, h.inFlight, h.handed⟩
  | execute =>
    obtain ⟨task, rest, htaskList⟩ := exists_of_execute ha
    rw [apply_execute htaskList]
    exact ⟨h.nextEventId, h.tracked, h.due, h.inFlight, h.handed⟩

end Consistent

/-- A queued event was queued before, or it has just been added. -/
theorem mem_eventList_of_apply (ha : Enabled s a) (he : e ∈ (apply s a).eventList) :
    e ∈ s.eventList ∨ ∃ cycle, a = .addEvent cycle ∧ e = ⟨s.added, s.nextEventId, cycle⟩ := by
  cases a with
  | addEvent cycle =>
    rcases List.mem_cons.1 he with heq | he
    · exact .inr ⟨cycle, rfl, heq⟩
    · exact .inl he
  | stopEvent eventid =>
    rw [apply, State.stopEvent_fst] at he
    exact .inl he
  | timeout task =>
    left
    unfold apply State.timeout at he
    dsimp only at he
    split at he <;> exact List.mem_of_mem_erase he
  | hand =>
    obtain ⟨task, hthread⟩ := exists_of_hand ha
    rw [apply_hand hthread] at he
    exact .inl he
  | execute =>
    obtain ⟨task, rest, htaskList⟩ := exists_of_execute ha
    rw [apply_execute htaskList] at he
    exact .inl he
  | _ => exact .inl he

/-! ## Live and stopped events -/

/-- No two queued events share an id. -/
def UniqueIds (s : State) : Prop :=
  ∀ task ∈ s.eventList, ∀ other ∈ s.eventList, task.eventId = other.eventId → task = other

/-- An event in the queue that was not stopped. -/
def Live (s : State) (e : SchedulerTask) : Prop := e ∈ s.eventList ∧ e.eventId ∈ s.eventIds

/-- An accepted event that was stopped before it left the queue. -/
structure Stopped (s : State) (e : SchedulerTask) : Prop where
  serial : e.serial < s.added
  inFlight : e ∉ s.inFlight
  handed : e ∉ s.handed.map (·.1)
  eventIds : e ∈ s.eventList → e.eventId ∉ s.eventIds

namespace Consistent

variable (h : Consistent s)

include h

theorem eq_of_serial {task other : SchedulerTask} (htask : task ∈ s.known)
    (hother : other ∈ s.known) (hserial : task.serial = other.serial) : task = other :=
  List.inj_on_of_nodup_map h.tracked.nodup htask hother hserial

theorem not_mem_of_queued (he : e ∈ s.eventList) : e ∉ s.inFlight ∧ e ∉ s.handed.map (·.1) := by
  have hdisjoint := (List.nodup_append.1 h.tracked.nodup.of_map).2.2 e he
  constructor
  · exact fun hmem => hdisjoint e (List.mem_append_left _ hmem) rfl
  · exact fun hmem => hdisjoint e (List.mem_append_right _ hmem) rfl

/-- An event to be stopped while it is queued is stopped. -/
theorem stopped_of_stopEvent (he : e ∈ s.eventList)
    (hstop : (s.stopEvent e.eventId).2 = true) : Stopped (s.stopEvent e.eventId).1 e := by
  obtain ⟨hzero, hmem⟩ := (s.stopEvent_snd _).1 hstop
  obtain ⟨hinFlight, hhanded⟩ := h.not_mem_of_queued he
  rw [State.stopEvent_fst, if_neg hzero]
  constructor
  · exact h.tracked.serials e (List.mem_append_left _ he)
  · exact hinFlight
  · exact hhanded
  · exact fun _ => Finset.notMem_erase _ _

end Consistent

/-- An event never comes back once it was stopped. -/
theorem Stopped.step (ha : Enabled s a) (hunique : UniqueIds (apply s a)) (he : Stopped s e) :
    Stopped (apply s a) e := by
  cases a with
  | addEvent cycle =>
    constructor
    · exact he.serial.trans (Nat.lt_succ_self _)
    · exact he.inFlight
    · exact he.handed
    · intro hmem
      rcases List.mem_cons.1 hmem with heq | hqueued
      · exact absurd he.serial (by simp [heq])
      · intro hid
        rcases Finset.mem_insert.1 hid with heq | hid
        · have hnew := hunique e hmem _ List.mem_cons_self heq
          exact absurd he.serial (by simp [hnew])
        · exact he.eventIds hqueued hid
  | stopEvent eventid =>
    rw [apply, State.stopEvent_fst]
    refine ⟨he.serial, he.inFlight, he.handed, fun hmem hid => he.eventIds hmem ?_⟩
    dsimp only at hid
    split at hid
    · exact hid
    · exact Finset.mem_of_mem_erase hid
  | wait => exact ⟨he.serial, by simp [apply, State.wait, State.inFlight], he.handed, he.eventIds⟩
  | wake => exact ⟨he.serial, by simp [apply, State.wake, State.inFlight], he.handed, he.eventIds⟩
  | notify =>
    refine ⟨he.serial, ?_, he.handed, he.eventIds⟩
    rw [apply, inFlight_notify]
    exact he.inFlight
  | timeout task =>
    obtain ⟨deadline, hthread, hdue, htop⟩ := exists_of_timeout ha
    unfold apply State.timeout
    dsimp only
    split
    · next hid =>
      have hne : e ≠ task := by
        rintro rfl
        exact he.eventIds htop.1 hid
      refine ⟨he.serial, by simpa [State.inFlight] using hne, he.handed, fun hmem hmemId => ?_⟩
      exact he.eventIds (List.mem_of_mem_erase hmem) (Finset.mem_of_mem_erase hmemId)
    · refine ⟨he.serial, by simp [State.inFlight], he.handed, fun hmem => ?_⟩
      exact he.eventIds (List.mem_of_mem_erase hmem)
  | hand =>
    obtain ⟨task, hthread⟩ := exists_of_hand ha
    have hne : e ≠ task := by
      rintro rfl
      exact he.inFlight (by simp [State.inFlight, hthread])
    rw [apply_hand hthread]
    refine ⟨he.serial, by simp [State.hand, State.inFlight], fun hmem => ?_, he.eventIds⟩
    rcases List.mem_cons.1 hmem with heq | hmem
    · exact hne heq
    · exact he.handed hmem
  | execute =>
    obtain ⟨task, rest, htaskList⟩ := exists_of_execute ha
    rw [apply_execute htaskList]
    exact ⟨he.serial, he.inFlight, he.handed, he.eventIds⟩
  | _ => exact ⟨he.serial, he.inFlight, he.handed, he.eventIds⟩

/-- A live event leaves the queue only when it is stopped or popped to be handed over. -/
theorem Live.step (ha : Enabled s a) (hunique : UniqueIds s) (he : Live s e) :
    Live (apply s a) e ∨ (a = .stopEvent e.eventId ∧ (s.stopEvent e.eventId).2 = true) ∨
      (a = .timeout e ∧ (apply s a).thread = .handing e) := by
  cases a with
  | addEvent cycle => exact .inl ⟨List.mem_cons_of_mem _ he.1, Finset.mem_insert_of_mem he.2⟩
  | stopEvent eventid =>
    by_cases hstop : eventid = e.eventId ∧ eventid ≠ 0
    · obtain ⟨rfl, hzero⟩ := hstop
      exact .inr (.inl ⟨rfl, (s.stopEvent_snd _).2 ⟨hzero, he.2⟩⟩)
    · refine .inl ?_
      rw [apply, State.stopEvent_fst]
      refine ⟨he.1, ?_⟩
      dsimp only
      split
      · exact he.2
      · next hzero => exact Finset.mem_erase.2 ⟨fun heq => hstop ⟨heq.symm, hzero⟩, he.2⟩
  | timeout task =>
    obtain ⟨deadline, hthread, hdue, htop⟩ := exists_of_timeout ha
    unfold apply State.timeout
    dsimp only
    by_cases heq : e = task
    · subst heq
      rw [if_pos he.2]
      exact .inr (.inr ⟨rfl, rfl⟩)
    · have hid : e.eventId ≠ task.eventId := fun hid => heq (hunique e he.1 task htop.1 hid)
      have hmem : e ∈ s.eventList.erase task := (List.mem_erase_of_ne heq).2 he.1
      left
      split
      · exact ⟨hmem, Finset.mem_erase.2 ⟨hid, he.2⟩⟩
      · exact ⟨hmem, he.2⟩
  | hand =>
    obtain ⟨task, hthread⟩ := exists_of_hand ha
    rw [apply_hand hthread]
    exact .inl he
  | execute =>
    obtain ⟨task, rest, htaskList⟩ := exists_of_execute ha
    rw [apply_execute htaskList]
    exact .inl he
  | _ => exact .inl he

variable {τ : system.Trace} {n : ℕ}

theorem consistent (n : ℕ) : Consistent (τ.state n) :=
  τ.invariant consistent_init (fun _ _ ha h => h.step ha) n

/-- Fewer than `2 ^ 32 - 1` events were added since an event that is in the queue. -/
def Sparse (s : State) : Prop := ∀ task ∈ s.eventList, s.added < task.serial + 2 ^ 32

theorem Consistent.uniqueIds (h : Consistent s) (hsparse : Sparse s) : UniqueIds s := by
  intro task htask other hother hid
  have hmem : ∀ {task}, task ∈ s.eventList → task ∈ s.known := List.mem_append_left _
  rw [h.tracked.ids task (hmem htask), h.tracked.ids other (hmem hother)] at hid
  have hlt := hsparse task htask
  have hlt' := hsparse other hother
  have hserial := h.tracked.serials task (hmem htask)
  have hserial' := h.tracked.serials other (hmem hother)
  refine h.eq_of_serial (hmem htask) (hmem hother) ?_
  rcases le_total task.serial other.serial with hle | hle
  · exact idOf_injective hid hle (by omega)
  · exact (idOf_injective hid.symm hle (by omega)).symm

section Unique

variable (hunique : ∀ n, UniqueIds (τ.state n))

include hunique

/-- What is stopped in a run stays stopped. -/
theorem stopped_of_le {m : ℕ} (h : Stopped (τ.state n) e) (hnm : n ≤ m) :
    Stopped (τ.state m) e := by
  refine TransitionSystem.Trace.stable (P := fun k => Stopped (τ.state k) e) h
    (fun k _ hk => ?_) hnm
  have hnext := hunique (k + 1)
  rw [τ.next] at hnext ⊢
  exact hk.step (τ.enabled k) hnext

/-- An event that is not stopped while it is queued stays live in the queue. -/
theorem live_of_mem (hstop : ∀ m, τ.action m = .stopEvent e.eventId →
      ((τ.state m).stopEvent e.eventId).2 = true → e ∉ (τ.state m).eventList)
    (he : e ∈ (τ.state n).eventList) : Live (τ.state n) e := by
  induction n with
  | zero =>
    rw [τ.init] at he
    cases he
  | succ n ih =>
    have hconsistent := consistent (τ := τ) (n + 1)
    have hnot := (hconsistent.not_mem_of_queued he).1
    rw [τ.next] at he hnot ⊢
    rcases mem_eventList_of_apply (τ.enabled n) he with hold | ⟨cycle, haction, rfl⟩
    · rcases (ih hold).step (τ.enabled n) (hunique n) with hlive | ⟨haction, htrue⟩ | ⟨-, hthread⟩
      · exact hlive
      · exact absurd hold (hstop n haction htrue)
      · exact absurd (mem_inFlight hthread) hnot
    · rw [haction]
      exact ⟨List.mem_cons_self, Finset.mem_insert_self _ _⟩

end Unique

/-! ## Fair runs -/

/-- The steps of the scheduler thread. -/
def ofThread : Action → Prop
  | .wait | .wake | .timeout _ | .hand => True
  | _ => False

/-- The thread waits for nothing but its turn. -/
def ThreadReady (s : State) : Prop :=
  match s.thread with
  | .waiting none => False
  | .waiting (some deadline) => deadline ≤ s.now
  | _ => True

/-- Time passes, the scheduler thread gets its turns, and notifications are delivered. -/
structure Fair (τ : system.Trace) : Prop where
  time : ∀ t, ∃ n, t ≤ (τ.state n).now
  thread : τ.WeaklyFair ThreadReady ofThread
  notify : τ.WeaklyFair (fun s => 0 < s.signals) (· = .notify)

/-- A thread that waits too long has a notification under way. -/
def Awake (s : State) : Prop :=
  s.signals = 0 → match s.thread with
    | .waiting none => s.eventList = []
    | .waiting (some deadline) => ∀ task ∈ s.eventList, deadline ≤ task.cycle
    | _ => True

theorem Awake.step (h : Awake s) (ha : Enabled s a) : Awake (apply s a) := by
  cases a with
  | addEvent cycle =>
    intro hsignals
    unfold apply State.addEvent at hsignals ⊢
    dsimp only at hsignals ⊢
    split at hsignals
    · cases hsignals
    · next hfirst =>
      -- The top of the queue is still due before the new event.
      have hex : ∃ task ∈ s.eventList, task.cycle ≤ cycle := by simpa using hfirst
      obtain ⟨first, hmem, hle⟩ := hex
      have hawake := h hsignals
      cases hthread : s.thread with
      | running => trivial
      | handing task => trivial
      | waiting deadline =>
        rw [hthread] at hawake
        cases deadline with
        | none =>
          rw [show s.eventList = [] from hawake] at hmem
          cases hmem
        | some deadline =>
          intro task htask
          rcases List.mem_cons.1 htask with rfl | htask
          · exact (hawake first hmem).trans hle
          · exact hawake task htask
  | stopEvent eventid =>
    rw [apply, State.stopEvent_fst]
    exact h
  | wait =>
    intro _
    unfold apply State.wait
    dsimp only
    cases hmin : (s.eventList.map (·.cycle)).min? with
    | none => simpa using hmin
    | some deadline =>
      intro task htask
      exact (List.min?_eq_some_iff.1 hmin).2 _ (List.mem_map_of_mem htask)
  | wake => exact fun _ => trivial
  | notify =>
    intro _
    unfold apply State.notify
    dsimp only
    cases s.thread <;> trivial
  | timeout task =>
    obtain ⟨deadline, hthread, -, -⟩ := exists_of_timeout ha
    unfold apply State.timeout
    dsimp only
    split <;> exact fun _ => trivial
  | hand =>
    obtain ⟨task, hthread⟩ := exists_of_hand ha
    rw [apply_hand hthread]
    exact fun _ => trivial
  | execute =>
    obtain ⟨task, rest, htaskList⟩ := exists_of_execute ha
    rw [apply_execute htaskList]
    exact h
  | _ => exact h

theorem awake (n : ℕ) : Awake (τ.state n) :=
  τ.invariant (fun _ => trivial) (fun _ _ ha h => h.step ha) n

/-! ### The rank of a queued event that is overdue -/

/-- How far the thread is from the next timeout at a time. -/
def phase (t : ℕ) : ThreadPoint → ℕ
  | .waiting none => 3
  | .waiting (some deadline) => if deadline ≤ t then 1 else 3
  | .running => 2
  | .handing _ => 3

/-- The tasks still to be added in front of an event, the tasks in front of it in the queue, the
notifications under way and the steps to the next timeout. -/
def rank (e : SchedulerTask) (s : State) : ℕ ×ₗ ℕ ×ₗ ℕ ×ₗ ℕ :=
  toLex (s.created.countP (· ≤ e.cycle), toLex (s.eventList.countP (·.cycle ≤ e.cycle),
    toLex (s.signals, phase e.cycle s.thread)))

theorem rank_lt_iff {s' : State} : rank e s' < rank e s ↔
    s'.created.countP (· ≤ e.cycle) < s.created.countP (· ≤ e.cycle) ∨
      s'.created.countP (· ≤ e.cycle) = s.created.countP (· ≤ e.cycle) ∧
        (s'.eventList.countP (·.cycle ≤ e.cycle) < s.eventList.countP (·.cycle ≤ e.cycle) ∨
          s'.eventList.countP (·.cycle ≤ e.cycle) = s.eventList.countP (·.cycle ≤ e.cycle) ∧
            (s'.signals < s.signals ∨
              s'.signals = s.signals ∧ phase e.cycle s'.thread < phase e.cycle s.thread)) := by
  simp only [rank, Prod.Lex.toLex_lt_toLex]

theorem countP_erase_lt {α : Type} [DecidableEq α] {p : α → Bool} {l : List α} {x : α} (hx : x ∈ l)
    (hp : p x = true) : (l.erase x).countP p < l.countP p := by
  rw [(List.perm_cons_erase hx).countP_eq p, List.countP_cons_of_pos hp]
  exact Nat.lt_succ_self _

theorem countP_erase_of_neg {α : Type} [DecidableEq α] {p : α → Bool} {l : List α} {x : α}
    (hx : x ∈ l) (hp : ¬ p x = true) : (l.erase x).countP p = l.countP p := by
  rw [(List.perm_cons_erase hx).countP_eq p, List.countP_cons_of_neg hp]

/-- Before an overdue event nothing new can come, and the steps of the thread and the
notifications bring the event closer to its turn. -/
theorem rank_step (he : e ∈ s.eventList) (hnow : e.cycle < s.now) (ha : Enabled s a) :
    rank e (apply s a) < rank e s ∨
      rank e (apply s a) = rank e s ∧ ¬ ofThread a ∧ a ≠ .notify := by
  cases a with
  | tick d => exact .inr ⟨rfl, id, by rintro ⟨⟩⟩
  | createSchedulerTask delay =>
    refine .inr ⟨?_, id, by rintro ⟨⟩⟩
    have hlate : e.cycle < s.now + delay.toNat := by omega
    unfold rank apply State.createSchedulerTask
    dsimp only
    rw [List.countP_cons_of_neg (by simpa using hlate)]
  | addEvent cycle =>
    have hcreated : cycle ∈ s.created := ha
    by_cases hcycle : cycle ≤ e.cycle
    · exact .inl (rank_lt_iff.2 (.inl (countP_erase_lt hcreated (by simpa using hcycle))))
    · refine .inr ⟨?_, id, by rintro ⟨⟩⟩
      have hfirst : ¬ ∀ task ∈ s.eventList, cycle < task.cycle :=
        fun hall => hcycle (hall e he).le
      unfold rank apply State.addEvent
      dsimp only
      rw [countP_erase_of_neg hcreated (by simpa using hcycle),
        List.countP_cons_of_neg (by simpa using hcycle), if_neg hfirst]
  | stopEvent eventid =>
    rw [apply, State.stopEvent_fst]
    exact .inr ⟨rfl, id, by rintro ⟨⟩⟩
  | wait =>
    have hrunning : s.thread = .running := ha
    refine .inl (rank_lt_iff.2 (.inr ⟨rfl, .inr ⟨rfl, .inr ⟨rfl, ?_⟩⟩⟩))
    obtain ⟨deadline, hmin⟩ : ∃ deadline, (s.eventList.map (·.cycle)).min? = some deadline := by
      rw [← Option.isSome_iff_exists, List.isSome_min?_iff]
      exact List.ne_nil_of_mem (List.mem_map_of_mem he)
    have hle : deadline ≤ e.cycle :=
      (List.min?_eq_some_iff.1 hmin).2 _ (List.mem_map_of_mem he)
    rw [apply, State.wait, hmin, hrunning]
    simp [phase, hle]
  | wake =>
    obtain ⟨deadline, hthread, hearly⟩ := exists_of_wake ha
    refine .inl (rank_lt_iff.2 (.inr ⟨rfl, .inr ⟨rfl, .inr ⟨rfl, ?_⟩⟩⟩))
    rw [apply, State.wake, hthread]
    cases deadline with
    | none => exact Nat.lt_succ_self 2
    | some d =>
      have hlate : ¬ d ≤ e.cycle := by
        have := hearly d rfl
        omega
      simp [phase, hlate]
  | notify =>
    refine .inl (rank_lt_iff.2 (.inr ⟨rfl, .inr ⟨rfl, .inl ?_⟩⟩))
    exact Nat.sub_lt ha Nat.one_pos
  | timeout task =>
    obtain ⟨deadline, hthread, hdue, htop⟩ := exists_of_timeout ha
    have hfall := countP_erase_lt (p := fun other => decide (other.cycle ≤ e.cycle)) htop.1
      (by simpa using htop.2 e he)
    refine .inl (rank_lt_iff.2 (.inr ?_))
    unfold apply State.timeout
    dsimp only
    split <;> exact ⟨rfl, .inl hfall⟩
  | hand =>
    obtain ⟨task, hthread⟩ := exists_of_hand ha
    refine .inl (rank_lt_iff.2 (.inr ?_))
    rw [apply_hand hthread, hthread]
    exact ⟨rfl, .inr ⟨rfl, .inr ⟨rfl, Nat.lt_succ_self 2⟩⟩⟩
  | addTask n push_front => exact .inr ⟨rfl, id, by rintro ⟨⟩⟩
  | execute =>
    obtain ⟨task, rest, htaskList⟩ := exists_of_execute ha
    rw [apply_execute htaskList]
    exact .inr ⟨rfl, id, by rintro ⟨⟩⟩

/-! ### Fair runs hand live events over -/

theorem now_le_apply (ha : Enabled s a) : s.now ≤ (apply s a).now := by
  cases a with
  | tick d => exact Nat.le_add_right _ _
  | stopEvent eventid =>
    rw [apply, State.stopEvent_fst]
  | timeout task =>
    unfold apply State.timeout
    dsimp only
    split <;> exact le_refl _
  | hand =>
    obtain ⟨task, hthread⟩ := exists_of_hand ha
    rw [apply_hand hthread]
    exact le_refl _
  | execute =>
    obtain ⟨task, rest, htaskList⟩ := exists_of_execute ha
    rw [apply_execute htaskList]
    exact le_refl _
  | _ => exact le_refl _

theorem handed_subset_apply (ha : Enabled s a) : s.handed ⊆ (apply s a).handed := by
  cases a with
  | stopEvent eventid =>
    rw [apply, State.stopEvent_fst]
    exact List.Subset.refl _
  | timeout task =>
    unfold apply State.timeout
    dsimp only
    split <;> exact List.Subset.refl _
  | hand =>
    obtain ⟨task, hthread⟩ := exists_of_hand ha
    rw [apply_hand hthread]
    exact List.subset_cons_self _ _
  | execute =>
    obtain ⟨task, rest, htaskList⟩ := exists_of_execute ha
    rw [apply_execute htaskList]
    exact List.Subset.refl _
  | _ => exact List.Subset.refl _

theorem handed_subset {m : ℕ} (hnm : n ≤ m) : (τ.state n).handed ⊆ (τ.state m).handed := by
  refine TransitionSystem.Trace.stable (P := fun k => (τ.state n).handed ⊆ (τ.state k).handed)
    (List.Subset.refl _) (fun k _ ih => ?_) hnm
  rw [τ.next]
  exact List.Subset.trans ih (handed_subset_apply (τ.enabled k))

theorem thread_apply (ha : Enabled s a) (hthread : ¬ ofThread a) (hnotify : a ≠ .notify) :
    (apply s a).thread = s.thread := by
  cases a with
  | wait | wake | timeout | hand => exact absurd trivial hthread
  | notify => exact absurd rfl hnotify
  | stopEvent eventid => rw [apply, State.stopEvent_fst]
  | execute =>
    obtain ⟨task, rest, htaskList⟩ := exists_of_execute ha
    rw [apply_execute htaskList]
    rfl
  | _ => rfl

theorem signals_le_apply (ha : Enabled s a) (hnotify : a ≠ .notify) :
    s.signals ≤ (apply s a).signals := by
  cases a with
  | addEvent cycle =>
    unfold apply State.addEvent
    dsimp only
    split
    · exact Nat.le_succ _
    · exact le_refl _
  | notify => exact absurd rfl hnotify
  | stopEvent eventid => rw [apply, State.stopEvent_fst]
  | timeout task =>
    unfold apply State.timeout
    dsimp only
    split <;> exact le_refl _
  | hand =>
    obtain ⟨task, hthread⟩ := exists_of_hand ha
    rw [apply_hand hthread]
    exact le_refl _
  | execute =>
    obtain ⟨task, rest, htaskList⟩ := exists_of_execute ha
    rw [apply_execute htaskList]
    exact le_refl _
  | _ => exact le_refl _

section Fairness

variable (hfair : Fair τ)

include hfair

/-- While an overdue event waits, the thread takes a step or a notification is delivered. -/
theorem exists_step (he : ∀ m ≥ n, e ∈ (τ.state m).eventList)
    (hnow : ∀ m ≥ n, e.cycle < (τ.state m).now) :
    ∃ m ≥ n, ofThread (τ.action m) ∨ τ.action m = .notify := by
  by_contra hnone
  simp only [not_exists, not_and, not_or] at hnone
  have hthread : ∀ m ≥ n, (τ.state m).thread = (τ.state n).thread := by
    intro m hm
    refine TransitionSystem.Trace.stable
      (P := fun k => (τ.state k).thread = (τ.state n).thread) rfl (fun k hk ih => ?_) hm
    rw [τ.next, ← ih]
    exact thread_apply (τ.enabled k) (hnone k hk).1 (hnone k hk).2
  -- A turn that is ready all the time would be taken.
  have hnotReady : ¬ ∀ m ≥ n, ThreadReady (τ.state m) := by
    intro hready
    obtain ⟨m, hm, htaken, -⟩ := hfair.thread.exists_taken fun m hm _ => hready m hm
    exact (hnone m hm).1 htaken
  by_cases hsignals : (τ.state n).signals = 0
  · have hawake := awake (τ := τ) n hsignals
    refine hnotReady fun m hm => ?_
    rw [ThreadReady, hthread m hm]
    cases hpoint : (τ.state n).thread with
    | running => trivial
    | handing task => trivial
    | waiting deadline =>
      rw [hpoint] at hawake
      cases deadline with
      | none =>
        have hqueued := he n (le_refl n)
        rw [show (τ.state n).eventList = [] from hawake] at hqueued
        cases hqueued
      | some deadline => exact ((hawake e (he n (le_refl n))).trans_lt (hnow m hm)).le
  · have hmore : ∀ m ≥ n, 0 < (τ.state m).signals := by
      intro m hm
      refine TransitionSystem.Trace.stable (P := fun k => 0 < (τ.state k).signals)
        (Nat.pos_of_ne_zero hsignals) (fun k hk ih => ?_) hm
      rw [τ.next]
      exact ih.trans_le (signals_le_apply (τ.enabled k) (hnone k hk).2)
    obtain ⟨m, hm, htaken, -⟩ := hfair.notify.exists_taken fun m hm _ => hmore m hm
    exact (hnone m hm).2 htaken

/-- A live event that nobody stops is popped to be handed over. -/
theorem exists_handing (hunique : ∀ n, UniqueIds (τ.state n)) (hlive : Live (τ.state n) e)
    (hstop : ∀ m, τ.action m = .stopEvent e.eventId →
      ((τ.state m).stopEvent e.eventId).2 = true → e ∉ (τ.state m).eventList) :
    ∃ m ≥ n, (τ.state m).thread = .handing e := by
  by_contra hnone
  simp only [not_exists, not_and] at hnone
  have hqueued : ∀ m ≥ n, Live (τ.state m) e := by
    intro m hm
    refine TransitionSystem.Trace.stable (P := fun k => Live (τ.state k) e) hlive
      (fun k hk ih => ?_) hm
    have hnext := hnone (k + 1) (hk.trans (Nat.le_succ k))
    rw [τ.next] at hnext ⊢
    rcases ih.step (τ.enabled k) (hunique k) with h | ⟨haction, htrue⟩ | ⟨-, hthread⟩
    · exact h
    · exact absurd ih.1 (hstop k haction htrue)
    · exact absurd hthread hnext
  obtain ⟨t, ht⟩ := hfair.time (e.cycle + 1)
  have hnow : ∀ m ≥ t, e.cycle < (τ.state m).now := by
    intro m hm
    refine TransitionSystem.Trace.stable (P := fun k => e.cycle < (τ.state k).now) ht
      (fun k _ ih => ?_) hm
    rw [τ.next]
    exact ih.trans_le (now_le_apply (τ.enabled k))
  have hstep : ∀ m ≥ max n t, rank e (τ.state (m + 1)) < rank e (τ.state m) ∨
      rank e (τ.state (m + 1)) = rank e (τ.state m) ∧ ¬ ofThread (τ.action m) ∧
        τ.action m ≠ .notify := by
    intro m hm
    rw [τ.next]
    exact rank_step (hqueued m (le_of_max_le_left hm)).1 (hnow m (le_of_max_le_right hm))
      (τ.enabled m)
  have hreach : ∃ m ≥ max n t, False := by
    refine TransitionSystem.Trace.reaches (fun k => rank e (τ.state k)) ?_ ?_
    · intro m hm _
      rcases hstep m hm with hlt | ⟨heq, -⟩
      · exact hlt.le
      · exact heq.le
    · intro m hm _
      obtain ⟨k, hk, htaken⟩ := exists_step hfair
        (fun k hk => (hqueued k ((le_of_max_le_left hm).trans hk)).1)
        (fun k hk => hnow k ((le_of_max_le_right hm).trans hk))
      refine ⟨k, hk, ?_⟩
      rcases hstep k (hm.trans hk) with hlt | ⟨-, hnot, hnotify⟩
      · exact hlt
      · exact absurd htaken (not_or.2 ⟨hnot, hnotify⟩)
  obtain ⟨m, -, hfalse⟩ := hreach
  exact hfalse

/-- A popped event that was live is handed over. -/
theorem exists_handed (hthread : (τ.state n).thread = .handing e) :
    ∃ m ≥ n, e ∈ (τ.state m).handed.map (·.1) := by
  have hstays : ∀ m ≥ n, (∀ k ≥ n, k < m → ¬ ofThread (τ.action k)) →
      (τ.state m).thread = .handing e := by
    intro m hm
    induction m, hm using Nat.le_induction with
    | base => exact fun _ => hthread
    | succ m hm ih =>
      intro hnot
      have hpoint := ih fun k hk hlt => hnot k hk (hlt.trans (Nat.lt_succ_self m))
      rw [τ.next]
      by_cases hnotify : τ.action m = .notify
      · rw [hnotify]
        exact (by simp [system, apply, State.notify, hpoint])
      · exact (thread_apply (τ.enabled m) (hnot m hm (Nat.lt_succ_self m)) hnotify).trans hpoint
  obtain ⟨m, hm, htaken, hbefore⟩ := hfair.thread.exists_taken fun m hm hnot => by
    rw [ThreadReady, hstays m hm hnot]
    trivial
  have hpoint := hstays m hm hbefore
  have henabled := τ.enabled m
  refine ⟨m + 1, hm.trans (Nat.le_succ m), ?_⟩
  rw [τ.next]
  -- Behind a popped task the thread can only hand it over.
  cases haction : τ.action m <;> rw [haction] at htaken henabled
  case hand =>
    have happly := apply_hand hpoint
    rw [show system.apply (τ.state m) .hand = _ from happly]
    exact List.mem_cons_self
  case wait => exact absurd (hpoint.symm.trans henabled) (by simp)
  case wake =>
    obtain ⟨deadline, hwaiting, -⟩ := exists_of_wake henabled
    exact absurd (hpoint.symm.trans hwaiting) (by simp)
  case timeout task =>
    obtain ⟨deadline, hwaiting, -⟩ := exists_of_timeout henabled
    exact absurd (hpoint.symm.trans hwaiting) (by simp)
  all_goals exact absurd htaken id

end Fairness

/-- In every run in which fewer than `2 ^ 32 - 1` events are added while any one event is queued,
no event is handed over twice or before it is due, no event is handed over after it was stopped
in the queue, and where the run is fair, every event that is not stopped is handed over. -/
theorem delivers_exactly_once (τ : system.Trace) (hsparse : ∀ n, Sparse (τ.state n)) :
    (∀ n, ((τ.state n).handed.map (·.1.serial)).Nodup) ∧
    (∀ n, ∀ p ∈ (τ.state n).handed, p.1.cycle ≤ p.2) ∧
    (∀ n, ∀ e ∈ (τ.state n).eventList, τ.action n = .stopEvent e.eventId →
      ((τ.state n).stopEvent e.eventId).2 = true →
        ∀ m, e ∉ (τ.state m).handed.map (·.1)) ∧
    (Fair τ → ∀ n, ∀ e ∈ (τ.state n).eventList,
      (∀ m, τ.action m = .stopEvent e.eventId →
        ((τ.state m).stopEvent e.eventId).2 = true → e ∉ (τ.state m).eventList) →
      ∃ m, e ∈ (τ.state m).handed.map (·.1)) := by
  have hunique : ∀ n, UniqueIds (τ.state n) := fun n => (consistent n).uniqueIds (hsparse n)
  refine ⟨fun n => ?_, fun n => (consistent n).handed, fun n e he haction htrue m => ?_, ?_⟩
  · have hnodup := (consistent (τ := τ) n).tracked.nodup
    unfold State.known at hnodup
    rw [List.map_append, List.map_append, List.map_map] at hnodup
    exact (List.nodup_append.1 (List.nodup_append.1 hnodup).2.1).2.1
  · have hnot := (consistent (τ := τ) n).not_mem_of_queued he
    have hstopped : Stopped (τ.state (n + 1)) e := by
      rw [τ.next, haction]
      exact (consistent n).stopped_of_stopEvent he htrue
    rcases Nat.lt_or_ge n m with hm | hm
    · exact (stopped_of_le hunique hstopped hm).handed
    · exact fun hmem => hnot.2 (List.map_subset _ (handed_subset hm) hmem)
  · intro hfair n e he hstop
    obtain ⟨m, -, hthread⟩ :=
      exists_handing hfair hunique (live_of_mem hunique hstop he) hstop
    obtain ⟨k, -, hhanded⟩ := exists_handed hfair hthread
    exact ⟨k, hhanded⟩

/-- One event is created, added and handed over, and then time passes. -/
def oneEvent (n : ℕ) : Action :=
  [Action.createSchedulerTask 50, .addEvent 50, .notify, .tick 50, .wait, .timeout ⟨0, 1, 50⟩,
    .hand, .wait].getD n (.tick 1)

theorem enabled_oneEvent :
    ∀ n, Enabled (TransitionSystem.Trace.states system oneEvent n) (oneEvent n)
  | 0 | 3 | 6 => trivial
  | 1 => List.mem_cons_self
  | 2 => Nat.one_pos
  | 4 | 7 => rfl
  | 5 => ⟨by decide, by decide⟩
  | _ + 8 => trivial

def oneEventTrace : system.Trace := .ofActions oneEvent enabled_oneEvent

theorem added_oneEvent : ∀ n, (oneEventTrace.state n).added ≤ 1
  | 0 | 1 | 2 | 3 | 4 | 5 | 6 | 7 | 8 => by decide
  | n + 9 => added_oneEvent (n + 8)

theorem now_oneEvent : ∀ n, n ≤ (oneEventTrace.state (n + 8)).now
  | 0 => Nat.zero_le _
  | n + 1 => Nat.succ_le_succ (now_oneEvent n)

theorem idle_oneEvent : ∀ n, (oneEventTrace.state (n + 8)).thread = .waiting none ∧
    (oneEventTrace.state (n + 8)).signals = 0
  | 0 => ⟨rfl, rfl⟩
  | n + 1 => idle_oneEvent n

theorem fair_oneEvent : Fair oneEventTrace := by
  constructor
  · exact fun t => ⟨t + 8, now_oneEvent t⟩
  · refine fun n => ⟨n + 8, Nat.le_add_right n 8, .inr ?_⟩
    rw [ThreadReady, (idle_oneEvent n).1]
    exact id
  · refine fun n => ⟨n + 8, Nat.le_add_right n 8, .inr ?_⟩
    exact fun hpos => absurd (idle_oneEvent n).2 (Nat.pos_iff_ne_zero.1 hpos)

theorem delivers_oneEvent :
    (∀ n, ((oneEventTrace.state n).handed.map (·.1.serial)).Nodup) ∧
    (∀ n, ∀ p ∈ (oneEventTrace.state n).handed, p.1.cycle ≤ p.2) ∧
    ∀ n, ∀ e ∈ (oneEventTrace.state n).eventList,
      (∀ m, oneEventTrace.action m = .stopEvent e.eventId →
        ((oneEventTrace.state m).stopEvent e.eventId).2 = true →
          e ∉ (oneEventTrace.state m).eventList) →
      ∃ m, e ∈ (oneEventTrace.state m).handed.map (·.1) := by
  obtain ⟨honce, hdue, -, hhanded⟩ := delivers_exactly_once oneEventTrace fun n task _ => by
    have hadded := added_oneEvent n
    omega
  exact ⟨honce, hdue, hhanded fair_oneEvent⟩

end Scheduler

end OTServBR
