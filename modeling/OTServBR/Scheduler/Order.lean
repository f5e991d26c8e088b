import OTServBR.Scheduler.Delivery

/-! # Order of execution

The queue gives events out in the order they are due, but each of them goes to
the front of the dispatcher's list. Two events are executed in their order as
long as the first one has left that list when the second one is handed over;
otherwise they are executed in the reverse order.
-/

namespace OTServBR

namespace Scheduler

variable {s : State} {a : Action} {e first second : SchedulerTask} {τ : system.Trace} {n : ℕ}

/-- Nobody stops an event while it is queued. -/
def NeverStopped (τ : system.Trace) (e : SchedulerTask) : Prop :=
  ∀ m, τ.action m = .stopEvent e.eventId →
    ((τ.state m).stopEvent e.eventId).2 = true → e ∉ (τ.state m).eventList

/-- No event is handed over while one that was due before it waits for the dispatcher, and no
event gets the id of a queued one. -/
def KeepsOrder (s : State) : Action → Prop
  | .hand => ∀ task, s.thread = .handing task →
      ∀ other, Task.event other ∈ s.taskList → task.cycle ≤ other.cycle
  | .addEvent _ => ∀ task ∈ s.eventList, task.eventId ≠ s.nextEventId
  | _ => True

theorem UniqueIds.step (h : UniqueIds s) (ha : Enabled s a) (hok : KeepsOrder s a) :
    UniqueIds (apply s a) := by
  intro task htask other hother hid
  rcases mem_eventList_of_apply ha htask with hold | ⟨cycle, rfl, rfl⟩
  · rcases mem_eventList_of_apply ha hother with hold' | ⟨cycle, rfl, rfl⟩
    · exact h task hold other hold' hid
    · exact absurd hid (hok task hold)
  · rcases mem_eventList_of_apply ha hother with hold' | ⟨cycle', haction, rfl⟩
    · exact absurd hid.symm (hok other hold')
    · cases haction
      rfl

/-- The events of a list of tasks. -/
def events (l : List Task) : List SchedulerTask :=
  l.filterMap fun
    | .event task => some task
    | .other _ => none

theorem mem_events {l : List Task} : e ∈ events l ↔ .event e ∈ l := by
  unfold events
  rw [List.mem_filterMap]
  constructor
  · rintro ⟨task, hmem, heq⟩
    cases task with
    | event task => exact Option.some.inj heq ▸ hmem
    | other n => cases heq
  · exact fun hmem => ⟨_, hmem, rfl⟩

/-- What was handed over waits for the dispatcher or was executed. -/
def Dispatched (s : State) : Prop :=
  (events (s.taskList ++ s.executed)).Perm (s.handed.map (·.1))

theorem Dispatched.step (h : Dispatched s) (ha : Enabled s a) : Dispatched (apply s a) := by
  cases a with
  | stopEvent eventid =>
    rw [apply, State.stopEvent_fst]
    exact h
  | timeout task =>
    unfold apply State.timeout
    dsimp only
    split <;> exact h
  | hand =>
    obtain ⟨task, hthread⟩ := exists_of_hand ha
    rw [apply_hand hthread]
    exact h.cons task
  | addTask n push_front =>
    cases push_front with
    | true => exact h
    | false =>
      have heq : events (s.taskList ++ [.other n] ++ s.executed) =
          events (s.taskList ++ s.executed) := by
        simp [events]
      exact (List.Perm.of_eq heq).trans h
  | execute =>
    obtain ⟨task, rest, htaskList⟩ := exists_of_execute ha
    rw [apply_execute htaskList]
    unfold Dispatched events at h ⊢
    rw [htaskList] at h
    exact (List.perm_middle.filterMap _).trans h
  | _ => exact h

theorem dispatched (n : ℕ) : Dispatched (τ.state n) :=
  τ.invariant (.refl _) (fun _ _ ha h => h.step ha) n

/-- The first event is on its way to the dispatcher before the second one, or executed. -/
def Ahead (first second : SchedulerTask) (s : State) : Prop :=
  .event first ∈ s.executed ∨
    (.event first ∈ s.taskList ∧ (Live s second ∨ second ∈ s.inFlight)) ∨
    ((Live s first ∨ first ∈ s.inFlight) ∧ Live s second)

/-! ## One step -/

theorem thread_of_mem_inFlight (h : e ∈ s.inFlight) : s.thread = .handing e := by
  unfold State.inFlight at h
  split at h
  · next task hthread => rw [hthread, List.mem_singleton.1 h]
  · cases h

/-- A popped event is behind the thread until it is handed over. -/
theorem inFlight_step (ha : Enabled s a) (h : e ∈ s.inFlight) :
    e ∈ (apply s a).inFlight ∨ a = .hand := by
  have hthread := thread_of_mem_inFlight h
  cases a with
  | hand => exact .inr rfl
  | wait => exact absurd (hthread.symm.trans ha) (by simp)
  | wake =>
    obtain ⟨deadline, hwaiting, -⟩ := exists_of_wake ha
    exact absurd (hthread.symm.trans hwaiting) (by simp)
  | timeout task =>
    obtain ⟨deadline, hwaiting, -⟩ := exists_of_timeout ha
    exact absurd (hthread.symm.trans hwaiting) (by simp)
  | notify =>
    left
    rw [apply, inFlight_notify]
    exact h
  | stopEvent eventid =>
    left
    rw [apply, State.stopEvent_fst]
    exact h
  | execute =>
    obtain ⟨task, rest, htaskList⟩ := exists_of_execute ha
    left
    rw [apply_execute htaskList]
    exact h
  | _ => exact .inl h

theorem mem_executed_step {x : Task} (ha : Enabled s a) (h : x ∈ s.executed) :
    x ∈ (apply s a).executed := by
  cases a with
  | stopEvent eventid =>
    rw [apply, State.stopEvent_fst]
    exact h
  | timeout task =>
    unfold apply State.timeout
    dsimp only
    split <;> exact h
  | hand =>
    obtain ⟨task, hthread⟩ := exists_of_hand ha
    rw [apply_hand hthread]
    exact h
  | execute =>
    obtain ⟨task, rest, htaskList⟩ := exists_of_execute ha
    rw [apply_execute htaskList]
    exact List.mem_cons_of_mem _ h
  | _ => exact h

theorem mem_taskList_step {x : Task} (ha : Enabled s a) (h : x ∈ s.taskList) :
    x ∈ (apply s a).taskList ∨ x ∈ (apply s a).executed := by
  cases a with
  | stopEvent eventid =>
    rw [apply, State.stopEvent_fst]
    exact .inl h
  | timeout task =>
    unfold apply State.timeout
    dsimp only
    split <;> exact .inl h
  | hand =>
    obtain ⟨task, hthread⟩ := exists_of_hand ha
    rw [apply_hand hthread]
    exact .inl (List.mem_cons_of_mem _ h)
  | addTask n push_front =>
    left
    cases push_front with
    | true => exact List.mem_cons_of_mem _ h
    | false => exact List.mem_append_left _ h
  | execute =>
    obtain ⟨task, rest, htaskList⟩ := exists_of_execute ha
    rw [htaskList] at h
    rw [apply_execute htaskList]
    rcases List.mem_cons.1 h with rfl | h
    · exact .inr List.mem_cons_self
    · exact .inl h
  | _ => exact .inl h

/-- A step that keeps the order keeps the first event ahead of the second one. -/
theorem Ahead.step (h : Ahead first second s) (ha : Enabled s a) (hunique : UniqueIds s)
    (hok : KeepsOrder s a) (hcycle : first.cycle < second.cycle)
    (hstop : ∀ e, e = first ∨ e = second → a = .stopEvent e.eventId →
      (s.stopEvent e.eventId).2 = true → e ∉ s.eventList) :
    Ahead first second (apply s a) := by
  have hlive : ∀ e, e = first ∨ e = second → Live s e →
      Live (apply s a) e ∨ (a = .timeout e ∧ e ∈ (apply s a).inFlight) := by
    intro e he hlive
    rcases hlive.step ha hunique with hlive' | ⟨haction, htrue⟩ | ⟨haction, hthread⟩
    · exact .inl hlive'
    · exact absurd hlive.1 (hstop e he haction htrue)
    · exact .inr ⟨haction, mem_inFlight hthread⟩
  rcases h with hdone | ⟨hlisted, hsecond⟩ | ⟨hfirst, hsecond⟩
  · exact .inl (mem_executed_step ha hdone)
  · rcases mem_taskList_step ha hlisted with hlisted' | hdone
    · refine .inr (.inl ⟨hlisted', ?_⟩)
      rcases hsecond with hsecond | hsecond
      · rcases hlive second (.inr rfl) hsecond with hlive' | ⟨-, hinFlight⟩
        · exact .inl hlive'
        · exact .inr hinFlight
      · rcases inFlight_step ha hsecond with hinFlight | rfl
        · exact .inr hinFlight
        · have hle := hok second (thread_of_mem_inFlight hsecond) first hlisted
          exact absurd hle (not_le.2 hcycle)
    · exact .inl hdone
  · rcases hlive second (.inr rfl) hsecond with hsecond' | ⟨rfl, -⟩
    · rcases hfirst with hfirst | hfirst
      · rcases hlive first (.inl rfl) hfirst with hfirst' | ⟨-, hinFlight⟩
        · exact .inr (.inr ⟨.inl hfirst', hsecond'⟩)
        · exact .inr (.inr ⟨.inr hinFlight, hsecond'⟩)
      · rcases inFlight_step ha hfirst with hinFlight | rfl
        · exact .inr (.inr ⟨.inr hinFlight, hsecond'⟩)
        · refine .inr (.inl ⟨?_, .inl hsecond'⟩)
          rw [apply_hand (thread_of_mem_inFlight hfirst)]
          exact List.mem_cons_self
    · -- The queue does not give the second event out before the first one.
      obtain ⟨deadline, hwaiting, -, htop⟩ := exists_of_timeout ha
      rcases hfirst with hfirst | hfirst
      · exact absurd (htop.2 first hfirst.1) (not_le.2 hcycle)
      · exact absurd ((thread_of_mem_inFlight hfirst).symm.trans hwaiting) (by simp)

/-- While the first event is ahead, the second one is not executed before it. -/
theorem Ahead.executed (h : Ahead first second s) (hconsistent : Consistent s)
    (hdispatched : Dispatched s) (hsecond : .event second ∈ s.executed) :
    .event first ∈ s.executed := by
  have hhanded : second ∈ s.handed.map (·.1) :=
    hdispatched.subset (mem_events.2 (List.mem_append_right _ hsecond))
  have hnot : ¬ (Live s second ∨ second ∈ s.inFlight) := by
    rintro (hlive | hinFlight)
    · exact (hconsistent.not_mem_of_queued hlive.1).2 hhanded
    · have hnodup := (List.nodup_append.1 hconsistent.tracked.nodup.of_map).2.1
      exact (List.nodup_append.1 hnodup).2.2 second hinFlight second hhanded rfl
  rcases h with hdone | ⟨-, hleft⟩ | ⟨-, hlive⟩
  · exact hdone
  · exact absurd hleft hnot
  · exact absurd (.inl hlive) hnot

/-- Two queued events of which none is stopped are executed in the order they are due, in every
run whose steps all keep the order. -/
theorem executes_in_order (τ : system.Trace)
    (hok : ∀ n, KeepsOrder (τ.state n) (τ.action n)) (first second : SchedulerTask)
    (hcycle : first.cycle < second.cycle) (i : ℕ) (hnow : (τ.state i).now < first.cycle)
    (hfirst : first ∈ (τ.state i).eventList) (hsecond : second ∈ (τ.state i).eventList)
    (hfirstStop : NeverStopped τ first) (hsecondStop : NeverStopped τ second) (n : ℕ) :
    .event second ∈ (τ.state n).executed → .event first ∈ (τ.state n).executed := by
  have hunique : ∀ n, UniqueIds (τ.state n) := by
    intro n
    induction n with
    | zero =>
      rw [τ.init]
      exact fun task htask => absurd htask List.not_mem_nil
    | succ n ih =>
      rw [τ.next]
      exact ih.step (τ.enabled n) (hok n)
  have hfirstLive := live_of_mem hunique hfirstStop hfirst
  have hsecondLive := live_of_mem hunique hsecondStop hsecond
  have hahead : ∀ m ≥ i, Ahead first second (τ.state m) := by
    intro m hm
    refine TransitionSystem.Trace.stable (P := fun k => Ahead first second (τ.state k))
      (.inr (.inr ⟨.inl hfirstLive, hsecondLive⟩)) (fun k _ ih => ?_) hm
    rw [τ.next]
    refine ih.step (τ.enabled k) (hunique k) (hok k) hcycle ?_
    rintro e (rfl | rfl)
    · exact hfirstStop k
    · exact hsecondStop k
  intro hexecuted
  rcases le_total i n with hn | hn
  · exact (hahead n hn).executed (consistent n) (dispatched n) hexecuted
  · -- What was executed before is not queued any more.
    have hlater : .event second ∈ (τ.state i).executed := by
      refine TransitionSystem.Trace.stable (P := fun k => .event second ∈ (τ.state k).executed)
        hexecuted (fun k _ ih => ?_) hn
      rw [τ.next]
      exact mem_executed_step (τ.enabled k) ih
    have hhanded := (dispatched (τ := τ) i).subset (mem_events.2 (List.mem_append_right _ hlater))
    exact absurd hhanded ((consistent i).not_mem_of_queued hsecond).2

/-- The dispatcher executes each event before the next one falls due. -/
def inTurn (n : ℕ) : Action :=
  [Action.createSchedulerTask 50, .createSchedulerTask 60, .addEvent 50, .addEvent 60, .notify,
    .tick 100, .wait, .timeout ⟨0, 1, 50⟩, .hand, .execute, .wait, .timeout ⟨1, 2, 60⟩, .hand,
    .execute].getD n (.tick 1)

theorem enabled_inTurn :
    ∀ n, Enabled (TransitionSystem.Trace.states system inTurn n) (inTurn n)
  | 0 | 1 | 5 | 8 | 12 => trivial
  | 2 => List.mem_cons_of_mem _ List.mem_cons_self
  | 3 => List.mem_cons_self
  | 4 => Nat.one_pos
  | 6 | 10 => rfl
  | 7 | 11 => ⟨by decide, by decide⟩
  | 9 | 13 => List.cons_ne_nil _ _
  | _ + 14 => trivial

def inTurnTrace : system.Trace := .ofActions inTurn enabled_inTurn

theorem keepsOrder_inTurn : ∀ n, KeepsOrder (inTurnTrace.state n) (inTurnTrace.action n)
  | 0 | 1 | 4 | 5 | 6 | 7 | 9 | 10 | 11 | 13 => trivial
  | 2 => fun _ htask => absurd htask List.not_mem_nil
  | 3 => fun task htask => by
    obtain rfl := List.mem_singleton.1 htask
    decide
  | 8 | 12 => fun _ _ _ hlisted => absurd hlisted List.not_mem_nil
  | _ + 14 => trivial

theorem neverStopped_inTurn (e : SchedulerTask) : NeverStopped inTurnTrace e := by
  have hne : ∀ n eventid, inTurn n ≠ .stopEvent eventid
    | 0, _ | 1, _ | 2, _ | 3, _ | 4, _ | 5, _ | 6, _ | 7, _ | 8, _ | 9, _ | 10, _ | 11, _
    | 12, _ | 13, _ | _ + 14, _ => nofun
  exact fun n haction => absurd haction (hne n e.eventId)

/-- After fourteen steps the second event is executed, hence the first one is. -/
theorem executes_inTurn : .event ⟨0, 1, 50⟩ ∈ (inTurnTrace.state 14).executed :=
  executes_in_order inTurnTrace keepsOrder_inTurn ⟨0, 1, 50⟩ ⟨1, 2, 60⟩ (by decide) 4 (by decide)
    (by decide) (by decide) (neverStopped_inTurn _) (neverStopped_inTurn _) 14 (by decide)

/-! ## The reverse order -/

/-- The second event is in front of the first one, or executed. -/
def Overtaken (first second : SchedulerTask) (s : State) : Prop :=
  .event second ∈ s.executed ∨
    ([Task.event second, .event first].Sublist s.taskList ∧ .event first ∉ s.executed)

theorem Dispatched.nodup (h : Dispatched s) (hconsistent : Consistent s) :
    (events (s.taskList ++ s.executed)).Nodup := by
  have hrest := (List.nodup_append.1 hconsistent.tracked.nodup.of_map).2.1
  exact h.nodup_iff.2 (List.nodup_append.1 hrest).2.1

theorem Dispatched.not_executed (h : Dispatched s) (hconsistent : Consistent s)
    (hlisted : .event e ∈ s.taskList) : .event e ∉ s.executed := by
  intro hexecuted
  have hnodup := h.nodup hconsistent
  rw [events, List.filterMap_append] at hnodup
  exact (List.nodup_append.1 hnodup).2.2 e (mem_events.2 hlisted) e (mem_events.2 hexecuted) rfl

theorem Overtaken.step (h : Overtaken first second s) (ha : Enabled s a)
    (hconsistent : Consistent s) (hdispatched : Dispatched s) :
    Overtaken first second (apply s a) := by
  rcases h with hdone | ⟨hsub, hnot⟩
  · exact .inl (mem_executed_step ha hdone)
  cases a with
  | stopEvent eventid =>
    rw [apply, State.stopEvent_fst]
    exact .inr ⟨hsub, hnot⟩
  | timeout task =>
    unfold apply State.timeout
    dsimp only
    split <;> exact .inr ⟨hsub, hnot⟩
  | hand =>
    obtain ⟨task, hthread⟩ := exists_of_hand ha
    rw [apply_hand hthread]
    exact .inr ⟨hsub.cons _, hnot⟩
  | addTask n push_front =>
    cases push_front with
    | true => exact .inr ⟨hsub.cons _, hnot⟩
    | false => exact .inr ⟨hsub.trans (List.sublist_append_left _ _), hnot⟩
  | execute =>
    obtain ⟨task, rest, htaskList⟩ := exists_of_execute ha
    have hnodup := hdispatched.nodup hconsistent
    rw [apply_execute htaskList]
    rw [htaskList] at hsub hnodup
    cases hsub with
    | cons_cons _ _ => exact .inl List.mem_cons_self
    | cons _ hrest =>
      refine .inr ⟨hrest, fun hmem => ?_⟩
      rcases List.mem_cons.1 hmem with rfl | hmem
      · -- The first event would be listed twice.
        have hlisted : .event first ∈ rest := hrest.subset (by simp)
        exact (List.nodup_cons.1 hnodup).1 (mem_events.2 (List.mem_append_left _ hlisted))
      · exact hnot hmem
  | _ => exact .inr ⟨hsub, hnot⟩

/-- Where the first event still waits for the dispatcher when the second one is handed over, the
two are executed in the reverse order. -/
theorem executes_reversed (τ : system.Trace) (first second : SchedulerTask) (n : ℕ)
    (hfirst : .event first ∈ (τ.state n).taskList) (haction : τ.action n = .hand)
    (hsecond : (τ.state n).thread = .handing second) (m : ℕ) :
    .event first ∈ (τ.state m).executed → .event second ∈ (τ.state m).executed := by
  have hnot := (dispatched (τ := τ) n).not_executed (consistent n) hfirst
  intro hexecuted
  rcases Nat.lt_or_ge n m with hm | hm
  · have hovertaken : Overtaken first second (τ.state (n + 1)) := by
      rw [τ.next, haction]
      rw [show system.apply (τ.state n) .hand = _ from apply_hand hsecond]
      exact .inr ⟨(List.singleton_sublist.2 hfirst).cons_cons _, hnot⟩
    have hlater : Overtaken first second (τ.state m) := by
      refine TransitionSystem.Trace.stable (P := fun k => Overtaken first second (τ.state k))
        hovertaken (fun k _ ih => ?_) hm
      rw [τ.next]
      exact ih.step (τ.enabled k) (consistent k) (dispatched k)
    rcases hlater with hdone | ⟨-, hnot'⟩
    · exact hdone
    · exact absurd hexecuted hnot'
  · refine absurd ?_ hnot
    refine TransitionSystem.Trace.stable (P := fun k => .event first ∈ (τ.state k).executed)
      hexecuted (fun k _ ih => ?_) hm
    rw [τ.next]
    exact mem_executed_step (τ.enabled k) ih

/-- Two events fall due while the dispatcher is busy. -/
def twoEvents (n : ℕ) : Action :=
  [Action.createSchedulerTask 50, .createSchedulerTask 60, .addEvent 50, .addEvent 60, .notify,
    .tick 100, .wait, .timeout ⟨0, 1, 50⟩, .hand, .wait, .timeout ⟨1, 2, 60⟩, .hand,
    .execute].getD n (.tick 1)

theorem enabled_twoEvents :
    ∀ n, Enabled (TransitionSystem.Trace.states system twoEvents n) (twoEvents n)
  | 0 | 1 | 5 | 8 | 11 => trivial
  | 2 => List.mem_cons_of_mem _ List.mem_cons_self
  | 3 => List.mem_cons_self
  | 4 => Nat.one_pos
  | 6 | 9 => rfl
  | 7 | 10 => ⟨by decide, by decide⟩
  | 12 => List.cons_ne_nil _ _
  | _ + 13 => trivial

def twoEventsTrace : system.Trace := .ofActions twoEvents enabled_twoEvents

theorem neverStopped_twoEvents (e : SchedulerTask) : NeverStopped twoEventsTrace e := by
  have hne : ∀ n eventid, twoEvents n ≠ .stopEvent eventid
    | 0, _ | 1, _ | 2, _ | 3, _ | 4, _ | 5, _ | 6, _ | 7, _ | 8, _ | 9, _ | 10, _ | 11, _
    | 12, _ | _ + 13, _ => nofun
  exact fun n haction => absurd haction (hne n e.eventId)

theorem order_reversed : ¬ ∀ (τ : system.Trace) (first second : SchedulerTask),
    first.cycle < second.cycle → ∀ i, (τ.state i).now < first.cycle →
      first ∈ (τ.state i).eventList → second ∈ (τ.state i).eventList →
        NeverStopped τ first → NeverStopped τ second → ∀ n,
          .event second ∈ (τ.state n).executed → .event first ∈ (τ.state n).executed := by
  intro hall
  have hfirst := hall twoEventsTrace ⟨0, 1, 50⟩ ⟨1, 2, 60⟩ (by decide) 4 (by decide) (by decide)
    (by decide) (neverStopped_twoEvents _) (neverStopped_twoEvents _) 13 (by decide)
  exact absurd hfirst (by decide)

end Scheduler

end OTServBR
