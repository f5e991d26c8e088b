import Mathlib.Data.List.Nodup
import Mathlib.Data.List.Range
import OTServBR.Database.Tasks

/-! # Every task is executed once

The list and its log account for every task, and a task that was taken is held
by one thread until it is executed. As long as a task waits, some thread is on
its way to the list: the worker, a caller with a signal for it, or a thread that
shuts the tasks down.
-/

namespace OTServBR.DatabaseTasks

variable {s s' : State} {t : Thread} {a : Action} {task : DatabaseTask}

namespace State

variable {p : Point}

@[simp] theorem setPoint_self : (s.setPoint t p).point t = p := Function.update_self ..

theorem setPoint_of_ne {t' : Thread} (h : t' ≠ t) : (s.setPoint t p).point t' = s.point t' :=
  Function.update_of_ne h ..

end State

/-- A thread holds a task that it took and has not executed yet. -/
def Holds (s : State) (t : Thread) (task : DatabaseTask) : Prop :=
  ∃ loop, s.point t = .executing task loop

theorem holds_setPoint_iff {p : Point} {t' : Thread} :
    Holds (s.setPoint t p) t' task ↔
      (t' = t ∧ ∃ loop, p = .executing task loop) ∨ (t' ≠ t ∧ Holds s t' task) := by
  rw [Holds]
  by_cases heq : t' = t
  · subst heq
    rw [State.setPoint_self]
    simp
  · rw [State.setPoint_of_ne heq]
    simp [heq, Holds]

/-- Every accepted task is in the list, held by one thread or executed. -/
structure Accounts (s : State) : Prop where
  accepted : s.accepted = s.taken ++ s.tasks
  serials : s.accepted.map (·.serial) = List.range s.accepted.length
  nodup : s.executed.Nodup
  executed : ∀ task ∈ s.executed, task ∈ s.taken
  held : ∀ t task, Holds s t task → task ∈ s.taken ∧ task ∉ s.executed
  one : ∀ t t' task, Holds s t task → Holds s t' task → t = t'
  taken : ∀ task ∈ s.taken, task ∈ s.executed ∨ ∃ t, Holds s t task

theorem accounts_init : Accounts {} where
  accepted := rfl
  serials := rfl
  nodup := List.nodup_nil
  executed _ hmem := by cases hmem
  held t _ hold := by
    obtain ⟨loop, hloop⟩ := hold
    cases t <;> cases hloop
  one t _ _ hold := by
    obtain ⟨loop, hloop⟩ := hold
    cases t <;> cases hloop
  taken _ hmem := by cases hmem

namespace Accounts

variable (h : Accounts s)

include h

theorem nodup_accepted : s.accepted.Nodup := by
  refine List.Nodup.of_map (·.serial) ?_
  rw [h.serials]
  exact List.nodup_range

/-- A step that neither takes nor executes a task. -/
theorem move (haccepted : s'.accepted = s.accepted) (htasks : s'.tasks = s.tasks)
    (htaken : s'.taken = s.taken) (hexecuted : s'.executed = s.executed)
    (hholds : ∀ t task, Holds s' t task ↔ Holds s t task) : Accounts s' where
  accepted := by rw [haccepted, htasks, htaken, h.accepted]
  serials := by rw [haccepted, h.serials]
  nodup := by rw [hexecuted]; exact h.nodup
  executed := by rw [hexecuted, htaken]; exact h.executed
  held := by simpa only [hholds, htaken, hexecuted] using h.held
  one := by simpa only [hholds] using h.one
  taken := by simpa only [hholds, htaken, hexecuted] using h.taken

theorem setPoint {p : Point} (hp : ∀ task loop, p ≠ .executing task loop)
    (ht : ∀ task, ¬ Holds s t task) : Accounts (s.setPoint t p) := by
  refine h.move rfl rfl rfl rfl fun t' task => ?_
  rw [holds_setPoint_iff]
  constructor
  · rintro (⟨-, loop, hloop⟩ | ⟨-, hold⟩)
    · exact absurd hloop (hp task loop)
    · exact hold
  · intro hold
    exact .inr ⟨fun heq => ht task (heq ▸ hold), hold⟩

theorem withState (state : ThreadState) : Accounts { s with threadState := state } :=
  h.move rfl rfl rfl rfl fun _ _ => Iff.rfl

theorem addTask (c : ℕ) (query : String) (callback : Option ℕ) (store : Bool)
    (hc : s.point (.caller c) = .idle) : Accounts (s.addTask c query callback store) := by
  have hidle : ∀ task, ¬ Holds s (.caller c) task := by
    rintro task ⟨loop, hloop⟩
    rw [hc] at hloop
    cases hloop
  rw [State.addTask]
  split
  · refine Accounts.setPoint ?_ (by intro task loop; split <;> simp) hidle
    exact
      { h with
        accepted := by simp only [h.accepted, List.append_assoc]
        serials := by
          simp only [List.map_append, h.serials, List.length_append, List.length_singleton,
            List.range_succ]
          rfl }
  · exact h

/-- The first task passes from the list to a thread. -/
theorem take {loop : Loop} {whenEmpty : Point} (hp : ∀ task loop, whenEmpty ≠ .executing task loop)
    (ht : ∀ task, ¬ Holds s t task) : Accounts (s.take t loop whenEmpty) := by
  have hnodup := h.nodup_accepted
  rw [State.take]
  split
  · exact h.setPoint hp ht
  · next task tasks htasks =>
    rw [h.accepted, htasks] at hnodup
    have hnew : task ∉ s.taken :=
      fun hmem => List.disjoint_of_nodup_append hnodup hmem List.mem_cons_self
    constructor
    · change s.accepted = s.taken ++ [task] ++ tasks
      rw [h.accepted, htasks, List.append_assoc, List.singleton_append]
    · exact h.serials
    · exact h.nodup
    · exact fun other hmem => List.mem_append_left _ (h.executed other hmem)
    · intro t' other hold
      rcases holds_setPoint_iff.mp hold with ⟨-, _, hloop⟩ | ⟨-, hold⟩
      · cases hloop
        exact ⟨List.mem_append_right _ List.mem_cons_self, fun hmem => hnew (h.executed _ hmem)⟩
      · obtain ⟨htaken, hnot⟩ := h.held t' other hold
        exact ⟨List.mem_append_left _ htaken, hnot⟩
    · intro t₁ t₂ other h₁ h₂
      rcases holds_setPoint_iff.mp h₁ with ⟨heq₁, _, hloop⟩ | ⟨-, hold₁⟩
      · cases hloop
        rcases holds_setPoint_iff.mp h₂ with ⟨heq₂, -⟩ | ⟨-, hold₂⟩
        · rw [heq₁, heq₂]
        · exact absurd (h.held t₂ _ hold₂).1 hnew
      · rcases holds_setPoint_iff.mp h₂ with ⟨-, _, hloop⟩ | ⟨-, hold₂⟩
        · cases hloop
          exact absurd (h.held t₁ _ hold₁).1 hnew
        · exact h.one t₁ t₂ other hold₁ hold₂
    · intro other hmem
      rcases List.mem_append.mp hmem with hmem | hmem
      · refine (h.taken other hmem).imp_right ?_
        rintro ⟨t', hold⟩
        exact ⟨t', holds_setPoint_iff.mpr (.inr ⟨fun heq => ht other (heq ▸ hold), hold⟩)⟩
      · obtain rfl := List.mem_singleton.mp hmem
        exact .inr ⟨t, holds_setPoint_iff.mpr (.inl ⟨rfl, loop, rfl⟩)⟩

/-- A held task is executed and given up. -/
theorem execute {loop : Loop} (hpoint : s.point t = .executing task loop) :
    Accounts ((s.runTask task).setPoint t loop.resume) := by
  have hheld : Holds s t task := ⟨loop, hpoint⟩
  obtain ⟨htaken, hnot⟩ := h.held t task hheld
  have hresume : ∀ other loop', loop.resume ≠ .executing other loop' := by
    intro other loop'
    cases loop <;> simp [Loop.resume]
  have hholds : ∀ t' other, Holds ((s.runTask task).setPoint t loop.resume) t' other ↔
      t' ≠ t ∧ Holds s t' other := by
    intro t' other
    rw [holds_setPoint_iff]
    constructor
    · rintro (⟨-, loop', hloop⟩ | hold)
      · exact absurd hloop (hresume other loop')
      · exact hold
    · exact .inr
  constructor
  · exact h.accepted
  · exact h.serials
  · exact h.nodup.append (List.nodup_singleton task) (by simpa using hnot)
  · intro other hmem
    rcases List.mem_append.mp hmem with hmem | hmem
    · exact h.executed other hmem
    · exact List.mem_singleton.mp hmem ▸ htaken
  · intro t' other hold
    obtain ⟨hne, hbefore⟩ := (hholds t' other).mp hold
    obtain ⟨hother, hnot'⟩ := h.held t' other hbefore
    refine ⟨hother, fun hmem => ?_⟩
    rcases List.mem_append.mp hmem with hmem | hmem
    · exact hnot' hmem
    · obtain rfl := List.mem_singleton.mp hmem
      exact hne (h.one t' t other hbefore hheld)
  · intro t₁ t₂ other h₁ h₂
    exact h.one t₁ t₂ other ((hholds t₁ other).mp h₁).2 ((hholds t₂ other).mp h₂).2
  · intro other hmem
    rcases h.taken other hmem with hdone | ⟨t', hold⟩
    · exact .inl (List.mem_append_left _ hdone)
    · by_cases heq : t' = t
      · subst heq
        obtain ⟨loop', hloop'⟩ := hold
        rw [hpoint] at hloop'
        cases hloop'
        exact .inl (List.mem_append_right _ List.mem_cons_self)
      · exact .inr ⟨t', (hholds t' other).mpr ⟨heq, hold⟩⟩

theorem notify {c : ℕ} (hc : ∀ task, ¬ Holds s (.caller c) task) : Accounts (s.notify c) := by
  have hidle := h.setPoint (p := .idle) (by simp) hc
  rw [State.notify]
  split
  · next hwaiting =>
    refine hidle.setPoint (by simp) ?_
    rintro other ⟨loop, hloop⟩
    rw [hwaiting] at hloop
    cases hloop
  · exact hidle

/-- What keeps the accounts: a thread that moves holds no task unless it executes it. -/
theorem apply (ha : Enabled s a) : Accounts (apply s a) := by
  have hfree : ∀ t p, s.point t = p → (∀ task loop, p ≠ .executing task loop) →
      ∀ task, ¬ Holds s t task := by
    rintro t p rfl hp task ⟨loop, hloop⟩
    exact hp task loop hloop
  cases a with
  | addTask c query callback store => exact h.addTask c query callback store ha
  | stop => exact h.withState _
  | flush c => exact h.setPoint (by simp) (hfree _ _ ha (by simp))
  | shutdown c => exact (h.withState .terminated).setPoint (by simp) (hfree _ _ ha (by simp))
  | flushLock c =>
    obtain ⟨shutdown, hpoint⟩ := ha
    rw [DatabaseTasks.apply, hpoint]
    exact h.take (by intro task loop; split <;> simp) (hfree _ _ hpoint (by simp))
  | notify c =>
    rcases ha with hpoint | hpoint <;> exact h.notify (hfree _ _ hpoint (by simp))
  | check => exact h.setPoint (by intro task loop; split <;> simp) (hfree _ _ ha (by simp))
  | lock => exact h.take (by simp) (hfree _ _ ha (by simp))
  | wake =>
    obtain ⟨notified, hpoint⟩ := ha
    exact h.take (by simp) (hfree _ _ hpoint (by simp))
  | execute t =>
    obtain ⟨task, loop, hpoint⟩ := ha
    rw [DatabaseTasks.apply, hpoint]
    exact h.execute hpoint

end Accounts

end OTServBR.DatabaseTasks
