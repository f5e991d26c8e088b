import OTServBR.Database.Delivery

/-! # Progress of the database tasks

As long as a task waits in the list, some thread is on its way to it. If every
thread goes on when it can, the list is taken from again and again, and in the
end every accepted task is executed.
-/

namespace OTServBR.DatabaseTasks

namespace Point

def OfWorker : Point → Prop
  | checking | entering | waiting _ | ended | executing _ .threadMain => True
  | _ => False

def OfCaller : Point → Prop
  | idle | signalling | flushing _ | notifying | executing _ (.flush _) => True
  | _ => False

/-- In the `flush` of a `shutdown`. -/
def Shutting : Point → Prop
  | flushing true | executing _ (.flush true) => True
  | _ => False

end Point

variable {s : State} {t : Thread} {a : Action} {task : DatabaseTask} {c : ℕ} {p : Point}

/-- Some thread sees to a task that waits, and once the tasks are shut down none is accepted. -/
structure Alert (s : State) : Prop where
  worker : (s.point .worker).OfWorker
  callers : ∀ c, (s.point (.caller c)).OfCaller
  waiting : s.point .worker = .waiting false → s.tasks ≠ [] →
    ∃ c, s.point (.caller c) = .signalling
  ended : s.point .worker = .ended → s.threadState ≠ .running
  down : s.threadState = .terminated ∨ s.point .worker = .ended → s.tasks ≠ [] →
    ∃ c, (s.point (.caller c)).Shutting
  shutting : ∀ c, (s.point (.caller c)).Shutting → s.threadState ≠ .running
  notifying : ∀ c, s.point (.caller c) = .notifying → s.threadState ≠ .running ∧ s.tasks = []

theorem alert_init : Alert {} where
  worker := trivial
  callers _ := trivial
  waiting h := by cases h
  ended h := by cases h
  down h := by rcases h with h | h <;> cases h
  shutting _ h := h.elim
  notifying _ h := by cases h

namespace Alert

variable (h : Alert s)

include h

/-- The worker moves. -/
theorem moveWorker (hp : p.OfWorker) (hwaiting : p = .waiting false → s.tasks = [])
    (hended : p = .ended → s.threadState = .terminated) : Alert (s.setPoint .worker p) where
  worker := by rwa [State.setPoint_self]
  callers := h.callers
  waiting hpoint htasks := by
    rw [State.setPoint_self] at hpoint
    exact absurd (hwaiting hpoint) htasks
  ended hpoint := by
    rw [State.setPoint_self] at hpoint
    rw [State.setPoint, hended hpoint]
    decide
  down hdown := by
    refine h.down (.inl ?_)
    rcases hdown with hdown | hpoint
    · exact hdown
    · rw [State.setPoint_self] at hpoint
      exact hended hpoint
  shutting := h.shutting
  notifying := h.notifying

/-- A caller moves; the worker does not wait for its signal. -/
theorem moveCaller {q : Point} (hq : s.point (.caller c) = q) (hp : p.OfCaller)
    (hsignal : q = .signalling → s.point .worker ≠ .waiting false)
    (hstays : q.Shutting → p.Shutting ∨ s.tasks = [])
    (hshutting : p.Shutting → s.threadState ≠ .running)
    (hnotifying : p = .notifying → s.threadState ≠ .running ∧ s.tasks = []) :
    Alert (s.setPoint (.caller c) p) := by
  have hother : ∀ c', c' ≠ c → (s.setPoint (.caller c) p).point (.caller c') =
      s.point (.caller c') := fun c' hc => State.setPoint_of_ne (by simpa using hc)
  constructor
  · exact h.worker
  · intro c'
    by_cases hc : c' = c
    · rwa [hc, State.setPoint_self]
    · rw [hother c' hc]
      exact h.callers c'
  · intro hpoint htasks
    obtain ⟨c', hc'⟩ := h.waiting hpoint htasks
    refine ⟨c', (hother c' ?_).trans hc'⟩
    rintro rfl
    exact hsignal (hq.symm.trans hc') hpoint
  · exact h.ended
  · intro hdown htasks
    obtain ⟨c', hc'⟩ := h.down hdown htasks
    by_cases hc : c' = c
    · subst hc
      rw [hq] at hc'
      refine ⟨c', ?_⟩
      rw [State.setPoint_self]
      exact (hstays hc').resolve_right htasks
    · refine ⟨c', ?_⟩
      rwa [hother c' hc]
  · intro c' hc'
    by_cases hc : c' = c
    · rw [hc, State.setPoint_self] at hc'
      exact hshutting hc'
    · rw [hother c' hc] at hc'
      exact h.shutting c' hc'
  · intro c' hc'
    by_cases hc : c' = c
    · rw [hc, State.setPoint_self] at hc'
      exact hnotifying hc'
    · rw [hother c' hc] at hc'
      exact h.notifying c' hc'

/-- Less to do needs no more threads. -/
theorem fewer {s' : State} (hstate : s'.threadState = s.threadState) (hpoint : s'.point = s.point)
    (htasks : s.tasks = [] → s'.tasks = []) : Alert s' where
  worker := by rw [hpoint]; exact h.worker
  callers := by rw [hpoint]; exact h.callers
  waiting hwaiting hne := by
    rw [hpoint] at hwaiting ⊢
    exact h.waiting hwaiting fun hnil => hne (htasks hnil)
  ended := by rw [hpoint, hstate]; exact h.ended
  down hdown hne := by
    rw [hpoint, hstate] at hdown
    rw [hpoint]
    exact h.down hdown fun hnil => hne (htasks hnil)
  shutting := by rw [hpoint, hstate]; exact h.shutting
  notifying c hc := by
    rw [hpoint] at hc
    rw [hstate]
    exact (h.notifying c hc).imp_right htasks

theorem addTask (query : String) (callback : Option ℕ) (store : Bool)
    (hc : s.point (.caller c) = .idle) : Alert (s.addTask c query callback store) := by
  rw [State.addTask]
  split
  · next hrunning =>
    have hother : ∀ c', c' ≠ c → ∀ p, (s.setPoint (.caller c) p).point (.caller c') =
        s.point (.caller c') := fun c' hc _ => State.setPoint_of_ne (by simpa using hc)
    constructor
    · exact h.worker
    · intro c'
      by_cases heq : c' = c
      · rw [heq, State.setPoint_self]
        split <;> trivial
      · exact hother c' heq _ ▸ h.callers c'
    · intro hpoint _
      by_cases htasks : s.tasks = []
      · exact ⟨c, by rw [State.setPoint_self, if_pos htasks]⟩
      · obtain ⟨c', hc'⟩ := h.waiting hpoint htasks
        refine ⟨c', (hother c' ?_ _).trans hc'⟩
        rintro rfl
        exact absurd (hc.symm.trans hc') (by simp)
    · exact h.ended
    · rintro (hdown | hpoint)
      · exact absurd (hrunning.symm.trans hdown) (by simp)
      · exact absurd hrunning (h.ended hpoint)
    · intro c' hc'
      by_cases heq : c' = c
      · rw [heq, State.setPoint_self] at hc'
        split at hc' <;> exact hc'.elim
      · exact h.shutting c' (hother c' heq _ ▸ hc')
    · intro c' hc'
      by_cases heq : c' = c
      · rw [heq, State.setPoint_self] at hc'
        split at hc' <;> cases hc'
      · exact absurd hrunning (h.notifying c' (hother c' heq _ ▸ hc')).1
  · exact h

theorem stop : Alert { s with threadState := .closing } where
  worker := h.worker
  callers := h.callers
  waiting := h.waiting
  ended _ := nofun
  down hdown := h.down (.inr (hdown.resolve_left nofun))
  shutting _ _ := nofun
  notifying c hc := ⟨nofun, (h.notifying c hc).2⟩

/-- The thread that shuts the tasks down sees to those that are left. -/
theorem shutdown (hc : s.point (.caller c) = .idle) :
    Alert ({ s with threadState := .terminated }.setPoint (.caller c) (.flushing true)) := by
  have hother : ∀ c', c' ≠ c → (s.setPoint (.caller c) (.flushing true)).point (.caller c') =
      s.point (.caller c') := fun c' hc => State.setPoint_of_ne (by simpa using hc)
  constructor
  · exact h.worker
  · intro c'
    by_cases heq : c' = c
    · rw [heq, State.setPoint_self]
      trivial
    · exact hother c' heq ▸ h.callers c'
  · intro hpoint htasks
    obtain ⟨c', hc'⟩ := h.waiting hpoint htasks
    refine ⟨c', (hother c' ?_).trans hc'⟩
    rintro rfl
    exact absurd (hc.symm.trans hc') (by simp)
  · rintro _ ⟨⟩
  · intro _ _
    exact ⟨c, by rw [State.setPoint_self]; trivial⟩
  · rintro _ _ ⟨⟩
  · intro c' hc'
    by_cases heq : c' = c
    · rw [heq, State.setPoint_self] at hc'
      cases hc'
    · exact ⟨by rintro ⟨⟩, (h.notifying c' (hother c' heq ▸ hc')).2⟩

theorem notify (hc : s.point (.caller c) = .signalling ∨ s.point (.caller c) = .notifying) :
    Alert (s.notify c) := by
  have hidle : ∀ {s : State}, Alert s → s.point (.caller c) = .signalling ∨
      s.point (.caller c) = .notifying → s.point .worker ≠ .waiting false →
        Alert (s.setPoint (.caller c) .idle) := by
    rintro s h (hq | hq) hworker
    · exact h.moveCaller hq trivial (fun _ => hworker) (fun hq => hq.elim) (fun hp => hp.elim) (by rintro ⟨⟩)
    · exact h.moveCaller hq trivial (by rintro ⟨⟩) (fun hq => hq.elim) (fun hp => hp.elim) (by rintro ⟨⟩)
  rw [State.notify]
  split
  · have hwoken := h.moveWorker (p := .waiting true) trivial (by rintro ⟨⟩) (by rintro ⟨⟩)
    have hmoved := hidle hwoken hc (by rw [State.setPoint_self]; simp)
    rw [State.setPoint, State.setPoint] at hmoved ⊢
    rwa [Function.update_comm (by simp)] at hmoved
  · next hworker => exact hidle h hc fun heq => hworker false heq

theorem take_worker (hempty : p.OfWorker) (hended : p ≠ .ended) :
    Alert (s.take .worker .threadMain p) := by
  rw [State.take]
  split
  · next hnil => exact h.moveWorker hempty (fun _ => hnil) fun heq => absurd heq hended
  · next task tasks hcons =>
    have hfewer : Alert { s with tasks := tasks, taken := s.taken ++ [task] } :=
      h.fewer rfl rfl fun hnil => by rw [hcons] at hnil; cases hnil
    exact hfewer.moveWorker trivial (by rintro ⟨⟩) (by rintro ⟨⟩)

theorem take_caller {shutdown : Bool} (hq : s.point (.caller c) = .flushing shutdown) :
    Alert (s.take (.caller c) (.flush shutdown) (if shutdown then .notifying else .idle)) := by
  have hshut : shutdown = true → s.threadState ≠ .running := by
    rintro rfl
    exact h.shutting c (by rw [hq]; trivial)
  rw [State.take]
  split
  · next hnil =>
    refine h.moveCaller hq ?_ (by rintro ⟨⟩) (fun _ => .inr hnil) ?_ ?_
    · cases shutdown <;> trivial
    · cases shutdown <;> exact fun hp => hp.elim
    · cases shutdown with
      | true => exact fun _ => ⟨hshut rfl, hnil⟩
      | false => rintro ⟨⟩
  · next task tasks hcons =>
    have hfewer : Alert { s with tasks := tasks, taken := s.taken ++ [task] } :=
      h.fewer rfl rfl fun hnil => by rw [hcons] at hnil; cases hnil
    refine hfewer.moveCaller hq trivial (by rintro ⟨⟩) ?_ ?_ (by rintro ⟨⟩)
    · cases shutdown with
      | true => exact fun _ => .inl trivial
      | false => exact fun hq => hq.elim
    · cases shutdown with
      | true => exact fun _ => hshut rfl
      | false => exact fun hp => hp.elim

theorem execute {loop : Loop} (hpoint : s.point t = .executing task loop) :
    Alert ((s.runTask task).setPoint t loop.resume) := by
  have hrun : Alert (s.runTask task) := h.fewer rfl rfl id
  cases t with
  | worker =>
    have hworker := h.worker
    rw [hpoint] at hworker
    cases loop with
    | threadMain => exact hrun.moveWorker trivial (by rintro ⟨⟩) (by rintro ⟨⟩)
    | flush shutdown => exact hworker.elim
  | caller c =>
    have hcaller := h.callers c
    rw [hpoint] at hcaller
    cases loop with
    | threadMain => exact hcaller.elim
    | flush shutdown =>
      refine hrun.moveCaller hpoint trivial (by rintro ⟨⟩) ?_ ?_ (by rintro ⟨⟩)
      · cases shutdown with
        | true => exact fun _ => .inl trivial
        | false => exact fun hq => hq.elim
      · cases shutdown with
        | true => exact fun _ => h.shutting c (by rw [hpoint]; trivial)
        | false => exact fun hp => hp.elim

theorem apply (ha : Enabled s a) : Alert (apply s a) := by
  cases a with
  | addTask c query callback store => exact h.addTask query callback store ha
  | stop => exact h.stop
  | flush c =>
    exact h.moveCaller ha trivial (by rintro ⟨⟩) (fun hq => hq.elim) (fun hp => hp.elim) (by rintro ⟨⟩)
  | shutdown c => exact h.shutdown ha
  | flushLock c =>
    obtain ⟨shutdown, hpoint⟩ := ha
    rw [DatabaseTasks.apply, hpoint]
    exact h.take_caller hpoint
  | notify c => exact h.notify ha
  | check =>
    rw [DatabaseTasks.apply]
    split
    · next hterminated => exact h.moveWorker trivial (by rintro ⟨⟩) fun _ => hterminated
    · exact h.moveWorker trivial (by rintro ⟨⟩) (by rintro ⟨⟩)
  | lock => exact h.take_worker trivial (by rintro ⟨⟩)
  | wake => exact h.take_worker trivial (by rintro ⟨⟩)
  | execute t =>
    obtain ⟨task, loop, hpoint⟩ := ha
    rw [DatabaseTasks.apply, hpoint]
    exact h.execute hpoint

end Alert

/-! ## Turns of threads -/

/-- The thread that takes a step. -/
def Action.thread : Action → Option Thread
  | .addTask c _ _ _ | .flush c | .shutdown c | .flushLock c | .notify c => some (.caller c)
  | .stop => none
  | .check | .lock | .wake => some .worker
  | .execute t => some t

/-- A thread inside a function can go on, unless it waits for a signal. -/
def Ready (s : State) (t : Thread) : Prop :=
  match s.point t with
  | .idle | .ended => False
  | .waiting notified => notified = true
  | _ => True

/-- Every thread goes on when it can. -/
def Fair (τ : system.Trace) : Prop :=
  ∀ t, τ.WeaklyFair (Ready · t) (·.thread = some t)

theorem point_take_of_ne {t' : Thread} {loop : Loop} (ht : t' ≠ t) :
    (s.take t loop p).point t' = s.point t' := by
  rw [State.take]
  split <;> exact State.setPoint_of_ne ht

theorem point_notify_of_ne (ht : t ≠ .caller c) (hready : Ready s t) :
    (s.notify c).point t = s.point t := by
  have hsame := State.setPoint_of_ne (s := s) (p := .idle) ht
  rw [State.notify]
  split
  · next notified hwaiting =>
    by_cases hworker : t = .worker
    · subst hworker
      rw [hsame] at hwaiting
      rw [Ready, hwaiting] at hready
      rw [State.setPoint_self, hwaiting, hready]
    · rw [State.setPoint_of_ne hworker, hsame]
  · exact hsame

/-- The others do not move a thread that can go on. -/
theorem point_apply (hnot : a.thread ≠ some t) (hready : Ready s t) :
    (apply s a).point t = s.point t := by
  cases a with
  | addTask c query callback store =>
    rw [apply, State.addTask]
    split
    · exact State.setPoint_of_ne fun heq => hnot (congrArg some heq.symm)
    · rfl
  | stop => rfl
  | flush c => exact State.setPoint_of_ne fun heq => hnot (congrArg some heq.symm)
  | shutdown c => exact State.setPoint_of_ne fun heq => hnot (congrArg some heq.symm)
  | flushLock c =>
    rw [apply]
    split
    · exact point_take_of_ne fun heq => hnot (congrArg some heq.symm)
    · rfl
  | notify c => exact point_notify_of_ne (fun heq => hnot (congrArg some heq.symm)) hready
  | check => exact State.setPoint_of_ne fun heq => hnot (congrArg some heq.symm)
  | lock => exact point_take_of_ne fun heq => hnot (congrArg some heq.symm)
  | wake => exact point_take_of_ne fun heq => hnot (congrArg some heq.symm)
  | execute t' =>
    rw [apply]
    split
    · exact State.setPoint_of_ne fun heq => hnot (congrArg some heq.symm)
    · rfl

/-- The step that a thread takes from a point. -/
def turn : Thread → Point → Option Action
  | t, .executing _ _ => some (.execute t)
  | .caller c, .flushing _ => some (.flushLock c)
  | .caller c, .signalling | .caller c, .notifying => some (.notify c)
  | .worker, .checking => some .check
  | .worker, .entering => some .lock
  | .worker, .waiting _ => some .wake
  | _, _ => none

/-- Inside a function a thread has no choice. -/
theorem turn_eq (ha : Enabled s a) (hturn : a.thread = some t) (hidle : s.point t ≠ .idle) :
    turn t (s.point t) = some a := by
  cases a with
  | addTask c query callback store =>
    obtain rfl := Option.some.inj hturn
    exact absurd ha hidle
  | stop => cases hturn
  | flush c =>
    obtain rfl := Option.some.inj hturn
    exact absurd ha hidle
  | shutdown c =>
    obtain rfl := Option.some.inj hturn
    exact absurd ha hidle
  | flushLock c =>
    obtain rfl := Option.some.inj hturn
    obtain ⟨shutdown, hpoint⟩ := ha
    rw [hpoint]
    rfl
  | notify c =>
    obtain rfl := Option.some.inj hturn
    rcases ha with hpoint | hpoint <;> rw [hpoint] <;> rfl
  | check =>
    obtain rfl := Option.some.inj hturn
    rw [show s.point .worker = .checking from ha]
    rfl
  | lock =>
    obtain rfl := Option.some.inj hturn
    rw [show s.point .worker = .entering from ha]
    rfl
  | wake =>
    obtain rfl := Option.some.inj hturn
    obtain ⟨notified, hpoint⟩ := ha
    rw [hpoint]
    rfl
  | execute t' =>
    obtain rfl := Option.some.inj hturn
    obtain ⟨task, loop, hpoint⟩ := ha
    rw [hpoint]
    cases t' <;> rfl

/-- The first task leaves the list. -/
def Takes (s s' : State) : Prop :=
  ∃ head rest, s.tasks = head :: rest ∧ s'.taken = s.taken ++ [head] ∧ s'.tasks = rest

/-- No task leaves the list, and one may come. -/
def Keeps (s s' : State) : Prop := s'.taken = s.taken ∧ ∃ more, s'.tasks = s.tasks ++ more

theorem keeps_refl {s' : State} (htaken : s'.taken = s.taken) (htasks : s'.tasks = s.tasks) :
    Keeps s s' := ⟨htaken, [], by rw [htasks, List.append_nil]⟩

theorem takes_or_keeps_take {loop : Loop} :
    Takes s (s.take t loop p) ∨ Keeps s (s.take t loop p) := by
  rw [State.take]
  cases htasks : s.tasks with
  | nil => exact .inr (keeps_refl rfl rfl)
  | cons head rest => exact .inl ⟨head, rest, htasks, rfl, rfl⟩

theorem takes_or_keeps (s : State) (a : Action) : Takes s (apply s a) ∨ Keeps s (apply s a) := by
  cases a with
  | addTask c query callback store =>
    rw [apply, State.addTask]
    split
    · exact .inr ⟨rfl, _, rfl⟩
    · exact .inr (keeps_refl rfl rfl)
  | stop => exact .inr (keeps_refl rfl rfl)
  | flush c => exact .inr (keeps_refl rfl rfl)
  | shutdown c => exact .inr (keeps_refl rfl rfl)
  | flushLock c =>
    rw [apply]
    split
    · exact takes_or_keeps_take
    · exact .inr (keeps_refl rfl rfl)
  | notify c =>
    rw [apply, State.notify]
    split <;> exact .inr (keeps_refl rfl rfl)
  | check => exact .inr (keeps_refl rfl rfl)
  | lock => exact takes_or_keeps_take
  | wake => exact takes_or_keeps_take
  | execute t =>
    rw [apply]
    split <;> exact .inr (keeps_refl rfl rfl)

/-- A thread that gets the lock takes a task if there is one. -/
theorem takes_take {loop : Loop} (htasks : s.tasks ≠ []) : Takes s (s.take t loop p) := by
  obtain ⟨head, rest, hcons⟩ := List.exists_cons_of_ne_nil htasks
  rw [State.take, hcons]
  exact ⟨head, rest, hcons, rfl, rfl⟩

section Runs

variable {τ : system.Trace} {n m : ℕ}

theorem accounts (n : ℕ) : Accounts (τ.state n) :=
  τ.invariant accounts_init (fun _ _ ha h => h.apply ha) n

theorem alert (n : ℕ) : Alert (τ.state n) :=
  τ.invariant alert_init (fun _ _ ha h => h.apply ha) n

variable (hfair : Fair τ)

include hfair

/-- A thread that can go on gets its turn where it is. -/
theorem exists_turn (hpoint : (τ.state n).point t = p) (hready : Ready (τ.state n) t) :
    ∃ m ≥ n, (τ.state m).point t = p ∧ turn t p = some (τ.action m) := by
  have hstays : ∀ m ≥ n, (∀ k ≥ n, k < m → (τ.action k).thread ≠ some t) →
      (τ.state m).point t = p := by
    intro m hm
    induction m, hm using Nat.le_induction with
    | base => exact fun _ => hpoint
    | succ m hm ih =>
      intro hnot
      have hbefore := ih fun k hk hlt => hnot k hk (hlt.trans (Nat.lt_succ_self m))
      have hready' : Ready (τ.state m) t := by rwa [Ready, hbefore, ← hpoint]
      rw [τ.next, ← hbefore]
      exact point_apply (hnot m hm (Nat.lt_succ_self m)) hready'
  obtain ⟨m, hm, hturn, hbefore⟩ := (hfair t).exists_taken fun m hm hnot => by
    rwa [Ready, hstays m hm hnot, ← hpoint]
  have hm' := hstays m hm hbefore
  have hidle : (τ.state m).point t ≠ .idle := by
    intro heq
    rw [Ready, hpoint, ← hm', heq] at hready
    exact hready
  exact ⟨m, hm, hm', hm' ▸ turn_eq (τ.enabled m) hturn hidle⟩

/-- A task that a thread holds is executed. -/
theorem exists_execute {loop : Loop} (hpoint : (τ.state n).point t = .executing task loop) :
    ∃ m ≥ n, task ∈ (τ.state (m + 1)).executed ∧ (τ.state (m + 1)).point t = loop.resume := by
  obtain ⟨m, hm, hsame, hturn⟩ := exists_turn hfair hpoint (by rw [Ready, hpoint]; trivial)
  have haction : τ.action m = .execute t := by
    cases t <;> exact (Option.some.inj hturn).symm
  refine ⟨m, hm, ?_⟩
  rw [τ.next, haction]
  change task ∈ (apply _ _).executed ∧ (apply _ _).point t = _
  rw [apply, hsame]
  exact ⟨List.mem_append_right _ List.mem_cons_self, State.setPoint_self⟩

section Stuck

variable (hne : (τ.state n).tasks ≠ []) (hstuck : ∀ m ≥ n, ¬ Takes (τ.state m) (τ.state (m + 1)))

include hne hstuck

omit hfair in
theorem tasks_ne_nil (hm : n ≤ m) : (τ.state m).tasks ≠ [] := by
  induction m, hm using Nat.le_induction with
  | base => exact hne
  | succ m hm ih =>
    have hstep := takes_or_keeps (τ.state m) (τ.action m)
    rw [show apply (τ.state m) (τ.action m) = τ.state (m + 1) from (τ.next m).symm] at hstep
    obtain ⟨-, more, hmore⟩ := hstep.resolve_left (hstuck m hm)
    rw [hmore]
    exact List.append_ne_nil_of_left_ne_nil ih more

theorem not_flushing {shutdown : Bool} (hm : n ≤ m) :
    (τ.state m).point (.caller c) ≠ .flushing shutdown := by
  intro hpoint
  obtain ⟨k, hk, hsame, hturn⟩ := exists_turn hfair hpoint (by rw [Ready, hpoint]; trivial)
  refine hstuck k (hm.trans hk) ?_
  rw [τ.next, show τ.action k = .flushLock c from (Option.some.inj hturn).symm]
  change Takes _ (apply _ _)
  rw [apply, hsame]
  exact takes_take (tasks_ne_nil hne hstuck (hm.trans hk))

theorem not_shutting (hm : n ≤ m) : ¬ ((τ.state m).point (.caller c)).Shutting := by
  intro hshutting
  cases hpoint : (τ.state m).point (.caller c) <;> rw [hpoint] at hshutting
  case flushing shutdown => exact not_flushing hfair hne hstuck hm hpoint
  case executing task loop =>
    cases loop with
    | threadMain => exact hshutting
    | flush shutdown =>
      obtain ⟨k, hk, -, hresume⟩ := exists_execute hfair hpoint
      exact not_flushing hfair hne hstuck (by omega) hresume
  all_goals exact hshutting

theorem not_entering (hm : n ≤ m) : (τ.state m).point .worker ≠ .entering := by
  intro hpoint
  obtain ⟨k, hk, hsame, hturn⟩ := exists_turn hfair hpoint (by rw [Ready, hpoint]; trivial)
  refine hstuck k (hm.trans hk) ?_
  rw [τ.next, show τ.action k = .lock from (Option.some.inj hturn).symm]
  exact takes_take (tasks_ne_nil hne hstuck (hm.trans hk))

theorem not_notified (hm : n ≤ m) : (τ.state m).point .worker ≠ .waiting true := by
  intro hpoint
  obtain ⟨k, hk, hsame, hturn⟩ := exists_turn hfair hpoint (by rw [Ready, hpoint])
  refine hstuck k (hm.trans hk) ?_
  rw [τ.next, show τ.action k = .wake from (Option.some.inj hturn).symm]
  exact takes_take (tasks_ne_nil hne hstuck (hm.trans hk))

theorem not_ended (hm : n ≤ m) : (τ.state m).point .worker ≠ .ended := by
  intro hpoint
  obtain ⟨c, hc⟩ := (alert m).down (.inr hpoint) (tasks_ne_nil hne hstuck hm)
  exact not_shutting hfair hne hstuck hm hc

theorem not_checking (hm : n ≤ m) : (τ.state m).point .worker ≠ .checking := by
  intro hpoint
  obtain ⟨k, hk, hsame, hturn⟩ := exists_turn hfair hpoint (by rw [Ready, hpoint]; trivial)
  have hnext : (τ.state (k + 1)).point .worker =
      if (τ.state k).threadState = .terminated then .ended else .entering := by
    rw [τ.next, show τ.action k = .check from (Option.some.inj hturn).symm]
    exact State.setPoint_self
  split at hnext
  · exact not_ended hfair hne hstuck (by omega) hnext
  · exact not_entering hfair hne hstuck (by omega) hnext

/-- A worker that takes nothing waits for a signal. -/
theorem worker_waiting (hm : n ≤ m) : (τ.state m).point .worker = .waiting false := by
  have hworker := (alert (τ := τ) m).worker
  cases hpoint : (τ.state m).point .worker <;> rw [hpoint] at hworker
  case checking => exact absurd hpoint (not_checking hfair hne hstuck hm)
  case entering => exact absurd hpoint (not_entering hfair hne hstuck hm)
  case ended => exact absurd hpoint (not_ended hfair hne hstuck hm)
  case waiting notified =>
    cases notified with
    | true => exact absurd hpoint (not_notified hfair hne hstuck hm)
    | false => rfl
  case executing task loop =>
    cases loop with
    | flush shutdown => exact hworker.elim
    | threadMain =>
      obtain ⟨k, hk, -, hresume⟩ := exists_execute hfair hpoint
      exact absurd hresume (not_checking hfair hne hstuck (by omega))
  all_goals exact hworker.elim

/-- The signal for the waiting worker comes. -/
theorem not_stuck : False := by
  obtain ⟨c, hc⟩ := (alert n).waiting (worker_waiting hfair hne hstuck le_rfl) hne
  obtain ⟨k, hk, hsame, hturn⟩ := exists_turn hfair hc (by rw [Ready, hc]; trivial)
  have hbefore := worker_waiting hfair hne hstuck hk
  have hafter := worker_waiting hfair hne hstuck (hk.trans (Nat.le_succ k))
  rw [τ.next, show τ.action k = .notify c from (Option.some.inj hturn).symm] at hafter
  change ((τ.state k).notify c).point .worker = _ at hafter
  have hother : ((τ.state k).setPoint (.caller c) .idle).point .worker = .waiting false := hbefore
  rw [State.notify, hother, State.setPoint_self] at hafter
  cases hafter

end Stuck

omit hfair in
theorem tasks_append (hm : n ≤ m)
    (hkeep : ∀ k ≥ n, k < m → ¬ Takes (τ.state k) (τ.state (k + 1))) :
    ∃ more, (τ.state m).tasks = (τ.state n).tasks ++ more := by
  induction m, hm using Nat.le_induction with
  | base => exact ⟨[], (List.append_nil _).symm⟩
  | succ m hm ih =>
    obtain ⟨more, hmore⟩ := ih fun k hk hlt => hkeep k hk (hlt.trans (Nat.lt_succ_self m))
    have hstep := takes_or_keeps (τ.state m) (τ.action m)
    rw [show apply (τ.state m) (τ.action m) = τ.state (m + 1) from (τ.next m).symm] at hstep
    obtain ⟨-, more', hmore'⟩ := hstep.resolve_left (hkeep m hm (Nat.lt_succ_self m))
    exact ⟨more ++ more', by rw [hmore', hmore, List.append_assoc]⟩

/-- As long as the list is not empty, its first task is taken some day. -/
theorem exists_takes (hne : (τ.state n).tasks ≠ []) : ∃ m head rest more,
    (τ.state m).tasks = head :: rest ∧ (τ.state m).tasks = (τ.state n).tasks ++ more ∧
      (τ.state (m + 1)).taken = (τ.state m).taken ++ [head] ∧
      (τ.state (m + 1)).tasks = rest := by
  classical
  have hex : ∃ m, n ≤ m ∧ Takes (τ.state m) (τ.state (m + 1)) := by
    by_contra hnone
    exact not_stuck hfair hne fun m hm htakes => hnone ⟨m, hm, htakes⟩
  obtain ⟨hm, head, rest, htasks, htaken, hrest⟩ := Nat.find_spec hex
  obtain ⟨more, hmore⟩ := tasks_append hm fun k hk hlt htakes => Nat.find_min hex hlt ⟨hk, htakes⟩
  exact ⟨_, head, rest, more, htasks, hmore, htaken, hrest⟩

/-- The tasks before a task are taken one after the other, then the task is. -/
theorem exists_taken {i : ℕ} (htask : (τ.state n).tasks[i]? = some task) :
    ∃ m, task ∈ (τ.state m).taken := by
  induction i generalizing n with
  | zero =>
    obtain ⟨m, head, rest, more, htasks, hmore, htaken, -⟩ := exists_takes hfair (n := n) (by
      intro hnil
      simp [hnil] at htask)
    have hhead : (τ.state m).tasks[0]? = some task := by
      rw [hmore, List.getElem?_append_left (List.getElem?_eq_some_iff.mp htask).1, htask]
    rw [htasks, List.getElem?_cons_zero, Option.some.injEq] at hhead
    refine ⟨m + 1, ?_⟩
    rw [htaken, hhead]
    exact List.mem_append_right _ List.mem_cons_self
  | succ i ih =>
    obtain ⟨m, head, rest, more, htasks, hmore, -, hrest⟩ := exists_takes hfair (n := n) (by
      intro hnil
      simp [hnil] at htask)
    have hlater : (τ.state m).tasks[i + 1]? = some task := by
      rw [hmore, List.getElem?_append_left (List.getElem?_eq_some_iff.mp htask).1, htask]
    rw [htasks, List.getElem?_cons_succ, ← hrest] at hlater
    exact ih hlater

theorem exists_executed (hmem : task ∈ (τ.state n).accepted) :
    ∃ m, task ∈ (τ.state m).executed := by
  have htaken : ∃ m, task ∈ (τ.state m).taken := by
    rw [(accounts n).accepted] at hmem
    rcases List.mem_append.mp hmem with hmem | hmem
    · exact ⟨n, hmem⟩
    · obtain ⟨i, htask⟩ := List.mem_iff_getElem?.mp hmem
      exact exists_taken hfair htask
  obtain ⟨m, hmem⟩ := htaken
  rcases (accounts m).taken task hmem with hdone | ⟨t, loop, hpoint⟩
  · exact ⟨m, hdone⟩
  · obtain ⟨k, -, hdone, -⟩ := exists_execute hfair hpoint
    exact ⟨k + 1, hdone⟩

end Runs

/-- Nothing is accepted and nothing is left. -/
def Closed (s : State) : Prop := s.threadState ≠ .running ∧ s.tasks = []

theorem Closed.take {loop : Loop} (h : Closed s) : Closed (s.take t loop p) := by
  rw [State.take, h.2]
  exact ⟨h.1, h.2⟩

theorem Closed.apply (h : Closed s) : Closed (apply s a) := by
  cases a with
  | addTask c query callback store =>
    rw [DatabaseTasks.apply, State.addTask, if_neg h.1]
    exact h
  | stop => exact ⟨by rintro ⟨⟩, h.2⟩
  | flush c => exact h
  | shutdown c => exact ⟨by rintro ⟨⟩, h.2⟩
  | flushLock c =>
    rw [DatabaseTasks.apply]
    split
    · exact h.take
    · exact h
  | notify c =>
    rw [DatabaseTasks.apply, State.notify]
    split <;> exact h
  | check => exact h
  | lock => exact h.take
  | wake => exact h.take
  | execute t =>
    rw [DatabaseTasks.apply]
    split <;> exact h

/-- A `shutdown` returns with its signal. -/
def Returns (τ : system.Trace) (n c : ℕ) : Prop :=
  τ.action n = .notify c ∧ (τ.state n).point (.caller c) = .notifying

theorem closed_of_returns {τ : system.Trace} {n m : ℕ} (h : Returns τ n c) (hm : n < m) :
    Closed (τ.state m) := by
  refine Nat.le_induction (P := fun m _ => Closed (τ.state m)) ((alert n).notifying c h.2)
    (fun m _ ih => ?_) m hm.le
  rw [τ.next]
  exact ih.apply

/-- Tasks are taken in the order in which they were accepted, none is executed
twice, the list is empty when `shutdown` returns and from then on, and if every
thread goes on when it can, every accepted task is executed. -/
theorem executed_exactly_once (τ : system.Trace) :
    (∀ n, (τ.state n).accepted = (τ.state n).taken ++ (τ.state n).tasks) ∧
    (∀ n, (τ.state n).accepted.Nodup ∧ (τ.state n).executed.Nodup ∧
      ∀ task ∈ (τ.state n).executed, task ∈ (τ.state n).accepted) ∧
    (∀ n c, Returns τ n c → ∀ m > n, (τ.state m).tasks = []) ∧
    (Fair τ → ∀ n, ∀ task ∈ (τ.state n).accepted, ∃ m, task ∈ (τ.state m).executed) := by
  refine ⟨fun n => (accounts n).accepted, fun n => ?_, ?_, ?_⟩
  · have h := accounts (τ := τ) n
    refine ⟨h.nodup_accepted, h.nodup, fun task hmem => ?_⟩
    rw [h.accepted]
    exact List.mem_append_left _ (h.executed task hmem)
  · exact fun n c hreturns m hm => (closed_of_returns hreturns hm).2
  · exact fun hfair n task hmem => exists_executed hfair hmem

/-- A caller adds a task, and the worker executes it and waits. -/
def oneTask (n : ℕ) : Action :=
  [Action.addTask 0 "UPDATE" none false, .notify 0, .check, .lock, .execute .worker, .check,
    .lock].getD n .stop

theorem enabled_oneTask :
    ∀ n, Enabled (TransitionSystem.Trace.states system oneTask n) (oneTask n)
  | 0 | 2 | 3 | 5 | 6 => rfl
  | 1 => .inl rfl
  | 4 => ⟨⟨0, "UPDATE", none, false⟩, .threadMain, rfl⟩
  | _ + 7 => trivial

def oneTaskTrace : system.Trace := .ofActions oneTask enabled_oneTask

theorem point_oneTask : ∀ n, (oneTaskTrace.state (n + 7)).point .worker = .waiting false ∧
    ∀ c, (oneTaskTrace.state (n + 7)).point (.caller c) = .idle
  | 0 => by
    refine ⟨rfl, fun c => ?_⟩
    by_cases hc : c = 0
    · rw [hc]
      rfl
    · have hne : Thread.caller c ≠ .caller 0 := fun h => hc (Thread.caller.inj h)
      simp [oneTaskTrace, TransitionSystem.Trace.ofActions, TransitionSystem.Trace.states, oneTask,
        system, apply, State.addTask, State.notify, State.take, State.setPoint, State.runTask, hne]
  | n + 1 => point_oneTask n

theorem fair_oneTask : Fair oneTaskTrace := by
  intro t n
  refine ⟨n + 7, Nat.le_add_right n 7, .inr ?_⟩
  cases t with
  | worker =>
    simp [Ready, (point_oneTask n).1]
  | caller c =>
    simp [Ready, (point_oneTask n).2 c]

theorem executed_oneTask :
    (oneTaskTrace.state 1).accepted ≠ [] ∧
      ∀ task ∈ (oneTaskTrace.state 1).accepted, ∃ m, task ∈ (oneTaskTrace.state m).executed :=
  ⟨nofun, (executed_exactly_once oneTaskTrace).2.2.2 fair_oneTask 1⟩

end OTServBR.DatabaseTasks
