import Mathlib.Tactic.Common

/-! # Transactions over a connection that may be lost

A session holds what is stored and, while a transaction is open, what would be
stored by a commit. A statement succeeds or fails. The connection may have been
lost and made again before that, which drops an open transaction; statements are
stored at once from there on.
-/

/-- How a statement is answered. -/
structure Answer where
  lost : Bool := false
  ok : Bool := true
  deriving DecidableEq, Repr

structure Session (σ : Type*) where
  stored : σ
  pending : Option σ

namespace Session

variable {σ : Type*} (s : Session σ)

/-- What a query of the session sees. -/
def current : σ := s.pending.getD s.stored

def rollback : Session σ := { s with pending := none }

def reconnect (a : Answer) : Session σ := if a.lost then s.rollback else s

def begin (a : Answer) : Session σ :=
  if a.ok then ⟨(s.reconnect a).current, some (s.reconnect a).current⟩ else s.reconnect a

def update (f : σ → σ) (a : Answer) : Session σ :=
  let s := s.reconnect a
  if a.ok then
    match s.pending with
    | some t => { s with pending := some (f t) }
    | none => { s with stored := f s.stored }
  else s

/-- A commit that fails drops the transaction. -/
def commit (a : Answer) : Session σ :=
  let s := s.reconnect a
  if a.ok then ⟨s.current, none⟩ else s.rollback

variable {s} {f g : σ → σ} {a b c d : Answer}

@[simp] theorem pending_rollback : s.rollback.pending = none := rfl
@[simp] theorem stored_rollback : s.rollback.stored = s.stored := rfl

theorem pending_commit : (s.commit a).pending = none := by
  unfold commit
  split_ifs <;> rfl

theorem current_of_pending (h : s.pending = none) : s.current = s.stored := by
  rw [current, h, Option.getD_none]

theorem rollback_of_pending (h : s.pending = none) : s.rollback = s := by
  obtain ⟨stored, pending⟩ := s
  cases h
  rfl

theorem reconnect_of_pending (h : s.pending = none) : s.reconnect a = s := by
  rw [reconnect, rollback_of_pending h, ite_self]

theorem update_of_pending (h : s.pending = none) :
    s.update f a = { s with stored := if a.ok then f s.stored else s.stored } := by
  obtain ⟨stored, pending⟩ := s
  cases h
  rw [update, reconnect_of_pending rfl]
  split_ifs <;> rfl

/-- The first of two statements of a transaction is stored: with the commit, or at once. -/
def storesFirst (a b c : Answer) : Bool := a.ok && (a.lost || !b.lost && !c.lost && c.ok)

/-- The second one is stored. -/
def storesSecond (a b c : Answer) : Bool := b.ok && (a.lost || b.lost || !c.lost && c.ok)

/-- What a transaction of two statements leaves behind. -/
theorem stored_transaction (hs : s.pending = none) (hbegin : d.ok = true) :
    ((((s.begin d).update f a).update g b).commit c).stored =
      (if storesSecond a b c then g else id) ((if storesFirst a b c then f else id) s.stored) := by
  have hopen : s.begin d = ⟨s.stored, some s.stored⟩ := by
    rw [begin, if_pos hbegin, reconnect_of_pending hs, current_of_pending hs]
  rw [hopen]
  obtain ⟨lostFirst, okFirst⟩ := a
  obtain ⟨lostSecond, okSecond⟩ := b
  obtain ⟨lostCommit, okCommit⟩ := c
  cases lostFirst <;> cases okFirst <;> cases lostSecond <;> cases okSecond <;>
    cases lostCommit <;> cases okCommit <;> rfl

end Session
