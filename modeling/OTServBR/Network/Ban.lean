import Mathlib.Algebra.Order.Group.Nat
import Mathlib.Data.List.Chain
import Mathlib.Tactic.Linarith
import OTServBR.Lib.Gate

/-! # Connection attempts

The server refuses clients that connect too often. An attempt soon after a few
other ones starts a block, and every attempt during the block makes it longer.
-/

namespace OTServBR.Ban

/-- What is known of a client. Times are in milliseconds. -/
structure ConnectBlock where
  lastAttempt : ℕ
  blockTime : ℕ
  count : ℕ
  deriving DecidableEq, Repr

/-- Whether a client may connect. There is no block before the first attempt. -/
def acceptConnection (connectBlock : Option ConnectBlock) (currentTime : ℕ) :
    Bool × Option ConnectBlock :=
  match connectBlock with
  | none => (true, some ⟨currentTime, 0, 1⟩)
  | some b =>
    if b.blockTime > currentTime then (false, some { b with blockTime := b.blockTime + 250 })
    else
      let timeDiff : ℤ := currentTime - b.lastAttempt
      let b := { b with lastAttempt := currentTime }
      if timeDiff ≤ 5000 then
        let b := { b with count := b.count + 1 }
        if b.count > 5 then
          let b := { b with count := 0 }
          if timeDiff ≤ 500 then (false, some { b with blockTime := currentTime + 3000 })
          else (true, some b)
        else (true, some b)
      else (true, some { b with count := 1 })

/-- What the server does with the attempts of all clients, each of which has an entry of its own in
the map. -/
abbrev accept : (UInt32 → Option ConnectBlock) → UInt32 × ℕ →
    Bool × (UInt32 → Option ConnectBlock) :=
  Gate.keyed acceptConnection

/-- The attempts that are accepted. -/
def accepted (attempts : List (UInt32 × ℕ)) : List (UInt32 × ℕ) :=
  Gate.passed accept (fun _ => none) attempts

variable {b : ConnectBlock} {now : ℕ}

/-- What can come of an attempt that does not come before the last one. -/
theorem acceptConnection_cases (hlast : b.lastAttempt ≤ now) :
    (now < b.blockTime ∧
      acceptConnection (some b) now = (false, some { b with blockTime := b.blockTime + 250 })) ∨
    (b.blockTime ≤ now ∧ now ≤ b.lastAttempt + 500 ∧ 5 ≤ b.count ∧
      acceptConnection (some b) now = (false, some ⟨now, now + 3000, 0⟩)) ∨
    (b.blockTime ≤ now ∧ now ≤ b.lastAttempt + 5000 ∧ b.count < 5 ∧
      acceptConnection (some b) now = (true, some ⟨now, b.blockTime, b.count + 1⟩)) ∨
    (b.blockTime ≤ now ∧ b.lastAttempt + 500 < now ∧ ∃ count ≤ 1,
      acceptConnection (some b) now = (true, some ⟨now, b.blockTime, count⟩)) := by
  unfold acceptConnection
  dsimp only
  split_ifs with hblock hrecent hmany hfast
  · exact .inl ⟨hblock, rfl⟩
  · exact .inr (.inl ⟨by omega, by omega, by omega, rfl⟩)
  · exact .inr (.inr (.inr ⟨by omega, by omega, 0, by omega, rfl⟩))
  · exact .inr (.inr (.inl ⟨by omega, by omega, by omega, rfl⟩))
  · exact .inr (.inr (.inr ⟨by omega, by omega, 1, le_rfl, rfl⟩))

/-! ## Bursts -/

/-- How many of the latest times follow each other by at most half a second. -/
def burst : List ℕ → ℕ
  | [] => 0
  | [_] => 1
  | t :: u :: l => if t ≤ u + 500 then burst (u :: l) + 1 else 1

@[simp] theorem burst_singleton (t : ℕ) : burst [t] = 1 := rfl

theorem burst_cons_cons (t u : ℕ) (l : List ℕ) :
    burst (t :: u :: l) = if t ≤ u + 500 then burst (u :: l) + 1 else 1 := rfl

/-- What holds of a client and of the times when it was accepted, latest first. -/
structure Limited (connectBlock : Option ConnectBlock) (times : List ℕ) : Prop where
  none : connectBlock = none → times = []
  burst_le : burst times ≤ 6
  entry : ∀ b, connectBlock = some b → b.count ≤ 5 ∧ ∃ t l, times = t :: l ∧ t ≤ b.lastAttempt ∧
    (t = b.lastAttempt ∧ burst times ≤ b.count + 1 ∨
      b.count = 0 ∧ b.lastAttempt + 3000 ≤ b.blockTime)

theorem limited_accepted {times : List ℕ} (hcount : b.count ≤ 5)
    (hburst : burst (b.lastAttempt :: times) ≤ b.count + 1) :
    Limited (some b) (b.lastAttempt :: times) where
  none h := by cases h
  burst_le := by omega
  entry := by
    rintro b ⟨⟩
    exact ⟨hcount, b.lastAttempt, times, rfl, le_rfl, .inl ⟨rfl, hburst⟩⟩

theorem Limited.acceptConnection {connectBlock : Option ConnectBlock} {times : List ℕ}
    (h : Limited connectBlock times) (hlast : ∀ b ∈ connectBlock, b.lastAttempt ≤ now) :
    Limited (acceptConnection connectBlock now).2
      (if (acceptConnection connectBlock now).1 then now :: times else times) := by
  cases connectBlock with
  | none =>
    rw [h.none rfl]
    exact limited_accepted (b := ⟨now, 0, 1⟩) (by simp) (by simp)
  | some b =>
    obtain ⟨hcount, t, l, rfl, ht, hcase⟩ := h.entry b rfl
    -- a gap of more than half a second starts a new burst
    have hnew : b.lastAttempt + 500 < now → burst (now :: t :: l) = 1 := by
      intro hgap
      rw [burst_cons_cons, if_neg (by omega)]
    have hgrow : burst (now :: t :: l) ≤ burst (t :: l) + 1 := by
      rw [burst_cons_cons]
      split <;> omega
    rcases acceptConnection_cases (hlast b rfl) with ⟨-, heq⟩ | ⟨-, -, -, heq⟩ |
      ⟨hblock, -, hfew, heq⟩ | ⟨-, hgap, count, hone, heq⟩ <;> rw [heq]
    · refine ⟨nofun, h.burst_le, ?_⟩
      rintro b' ⟨⟩
      refine ⟨hcount, t, l, rfl, ht, ?_⟩
      rcases hcase with hsame | ⟨hzero, hlong⟩
      · exact .inl hsame
      · exact .inr ⟨hzero, hlong.trans (Nat.le_add_right ..)⟩
    · refine ⟨nofun, h.burst_le, ?_⟩
      rintro b' ⟨⟩
      exact ⟨Nat.zero_le _, t, l, rfl, ht.trans (hlast b rfl), .inr ⟨rfl, le_rfl⟩⟩
    · refine limited_accepted (b := ⟨now, b.blockTime, b.count + 1⟩) hfew ?_
      change burst (now :: t :: l) ≤ b.count + 1 + 1
      rcases hcase with ⟨-, hle⟩ | ⟨hzero, hlong⟩
      · omega
      · rw [hnew (by omega)]
        omega
    · refine limited_accepted (b := ⟨now, b.blockTime, count⟩) (hone.trans (by decide)) ?_
      change burst (now :: t :: l) ≤ count + 1
      rw [hnew hgap]
      exact Nat.le_add_left ..

/-- The entry of a client has a time of the past. -/
theorem lastAttempt_acceptConnection {connectBlock : Option ConnectBlock}
    (hlast : ∀ b ∈ connectBlock, b.lastAttempt ≤ now) :
    ∀ b ∈ (acceptConnection connectBlock now).2, b.lastAttempt ≤ now := by
  cases connectBlock with
  | none =>
    rintro b ⟨⟩
    exact le_rfl
  | some b =>
    have hb := hlast b rfl
    rcases acceptConnection_cases hb with ⟨-, heq⟩ | ⟨-, -, -, heq⟩ | ⟨-, -, -, heq⟩ |
      ⟨-, -, count, -, heq⟩ <;> rw [heq] <;> rintro b' ⟨⟩
    · exact hb
    · exact le_rfl
    · exact le_rfl
    · exact le_rfl

theorem Limited.run {connectBlock : Option ConnectBlock} {times q : List ℕ}
    (h : Limited connectBlock q) (hsorted : times.Pairwise (· ≤ ·))
    (hlast : ∀ t ∈ times, ∀ b ∈ connectBlock, b.lastAttempt ≤ t) :
    Limited (Gate.after Ban.acceptConnection connectBlock times)
      ((Gate.passed Ban.acceptConnection connectBlock times).reverse ++ q) := by
  induction times generalizing connectBlock q with
  | nil => exact h
  | cons now times ih =>
    obtain ⟨hnow, hsorted⟩ := List.pairwise_cons.1 hsorted
    have hfirst := hlast now List.mem_cons_self
    have hrun := ih (h.acceptConnection hfirst) hsorted fun t ht b hb =>
      (lastAttempt_acceptConnection hfirst b hb).trans (hnow t ht)
    rw [Gate.after_cons, Gate.passed_cons]
    split_ifs at hrun ⊢
    · simpa using hrun
    · exact hrun

/-- Times that lie together are one burst. -/
theorem lt_burst {l : List ℕ} {t u n : ℕ} (hsorted : l.Pairwise (· ≥ ·)) (hhead : l[0]? = some t)
    (hn : l[n]? = some u) (hgap : t ≤ u + 500) : n < burst l := by
  induction l generalizing t n with
  | nil => cases hhead
  | cons t' l ih =>
    obtain rfl : t' = t := Option.some.inj hhead
    cases l with
    | nil =>
      cases n with
      | zero => exact Nat.one_pos
      | succ n => cases hn
    | cons v l =>
      obtain ⟨hle, hsorted⟩ := List.pairwise_cons.1 hsorted
      cases n with
      | zero =>
        rw [burst_cons_cons]
        split <;> omega
      | succ n =>
        have hu : u ≤ v := by
          cases n with
          | zero =>
            cases hn
            exact le_rfl
          | succ n => exact (List.pairwise_cons.1 hsorted).1 u (List.mem_of_getElem? hn)
        have hv : v ≤ t' := hle v List.mem_cons_self
        rw [burst_cons_cons, if_pos (by omega)]
        exact Nat.succ_lt_succ (ih hsorted rfl hn (by omega))

/-- A client cannot connect seven times within half a second, whatever the other clients do. -/
theorem lt_of_accepted {attempts : List (UInt32 × ℕ)} (hsorted : attempts.Pairwise (·.2 ≤ ·.2))
    (clientIP : UInt32) {n t u : ℕ} (ht : (Gate.ofKey clientIP (accepted attempts))[n]? = some t)
    (hu : (Gate.ofKey clientIP (accepted attempts))[n + 6]? = some u) : t + 500 < u := by
  rw [accepted, Gate.ofKey_passed_keyed] at ht hu
  set times := Gate.ofKey clientIP attempts
  have htimes : times.Pairwise (· ≤ ·) :=
    List.pairwise_map.2 (hsorted.sublist List.filter_sublist)
  obtain ⟨l, hprefix, htake⟩ : ∃ l, l <+: times ∧ Gate.passed acceptConnection none l =
      (Gate.passed acceptConnection none times).take (n + 7) := Gate.exists_passed_eq_take ..
  have hfresh : Limited none [] := ⟨fun _ => rfl, Nat.zero_le _, by simp⟩
  have hlimited := (hfresh.run (htimes.sublist hprefix.sublist) (by simp)).burst_le
  rw [List.append_nil, htake] at hlimited
  have hlen : n + 6 < (Gate.passed acceptConnection none times).length :=
    (List.getElem?_eq_some_iff.1 hu).1
  have hreverse : ((Gate.passed acceptConnection none times).take (n + 7)).reverse.Pairwise
      (· ≥ ·) := by
    rw [List.pairwise_reverse]
    exact htimes.sublist ((List.take_sublist ..).trans Gate.passed_sublist)
  by_contra hgap
  have hburst := lt_burst (t := u) (u := t) (n := 6) hreverse ?_ ?_ (by omega)
  · omega
  · rw [List.getElem?_reverse (by rw [List.length_take]; omega), List.length_take,
      List.getElem?_take_of_lt (by omega), ← hu]
    congr 1
    omega
  · rw [List.getElem?_reverse (by rw [List.length_take]; omega), List.length_take,
      List.getElem?_take_of_lt (by omega), ← ht]
    congr 1
    omega

/-- Two clients, of which the first keeps its distance. -/
def patient : List (UInt32 × ℕ) :=
  [(1, 0), (2, 0), (1, 600), (1, 1200), (2, 1300), (1, 1800), (1, 2400), (1, 3000), (1, 3600)]

theorem lt_of_accepted_patient : 0 + 500 < 3600 := by
  have hsorted : patient.Pairwise (·.2 ≤ ·.2) := by decide
  exact lt_of_accepted hsorted 1 (n := 0) (by decide) (by decide)

/-! ## Patience and its opposite -/

/-- A client that waits for more than half a second is not refused. -/
theorem passed_of_patient {times : List ℕ} (hpatient : times.IsChain (· + 500 < ·))
    (hblock : ∀ t ∈ times.head?, b.lastAttempt + 500 < t) (hfree : b.blockTime = 0) :
    Gate.passed acceptConnection (some b) times = times := by
  induction times generalizing b with
  | nil => rfl
  | cons now times ih =>
    have hgap := hblock now rfl
    have hlast : b.lastAttempt ≤ now := by omega
    rcases acceptConnection_cases hlast with ⟨h, -⟩ | ⟨-, h, -⟩ |
      ⟨-, -, -, heq⟩ | ⟨-, -, count, -, heq⟩
    · omega
    · omega
    all_goals
      rw [Gate.passed_cons, heq, if_pos rfl]
      exact congrArg (now :: ·) (ih hpatient.tail (List.isChain_cons.1 hpatient).1 hfree)

/-- Whoever waits for more than half a second between the attempts always connects. -/
theorem ofKey_accepted_of_patient {attempts : List (UInt32 × ℕ)} {clientIP : UInt32}
    (hpatient : (Gate.ofKey clientIP attempts).IsChain (· + 500 < ·)) :
    Gate.ofKey clientIP (accepted attempts) = Gate.ofKey clientIP attempts := by
  rw [accepted, Gate.ofKey_passed_keyed]
  cases htimes : Gate.ofKey clientIP attempts with
  | nil => rfl
  | cons t times =>
    rw [htimes] at hpatient
    have hrest := passed_of_patient (b := ⟨t, 0, 1⟩) hpatient.tail
      (fun u hu => (List.isChain_cons.1 hpatient).1 u hu) rfl
    exact congrArg (t :: ·) hrest

/-- The next attempt comes within a quarter of a second. -/
def Hammering (t u : ℕ) : Prop := t ≤ u ∧ u ≤ t + 250

instance : DecidableRel Hammering := fun _ _ => inferInstanceAs (Decidable (_ ∧ _))

/-- A refused attempt makes the block last long enough for the next one to be refused. -/
theorem passed_of_blocked {times : List ℕ} {t : ℕ} (hgaps : (t :: times).IsChain Hammering)
    (hblock : t + 250 < b.blockTime) : Gate.passed acceptConnection (some b) times = [] := by
  induction times generalizing t b with
  | nil => rfl
  | cons now times ih =>
    obtain ⟨⟨hle, hgap⟩, hgaps⟩ := List.isChain_cons_cons.1 hgaps
    have hrefused : acceptConnection (some b) now =
        (false, some { b with blockTime := b.blockTime + 250 }) := if_pos (by omega)
    rw [Gate.passed_cons, hrefused]
    exact ih hgaps (by dsimp only; omega)

/-- A client that hammers is let in until it has made five attempts. -/
theorem passed_of_hammering {times : List ℕ}
    (hgaps : (b.lastAttempt :: times).IsChain Hammering) (hfree : b.blockTime = 0)
    (hcount : b.count ≤ 5) :
    Gate.passed acceptConnection (some b) times = times.take (5 - b.count) := by
  induction times generalizing b with
  | nil => simp
  | cons now times ih =>
    obtain ⟨⟨hle, hgap⟩, hgaps⟩ := List.isChain_cons_cons.1 hgaps
    rcases acceptConnection_cases hle with
      ⟨h, -⟩ | ⟨-, -, hmany, heq⟩ | ⟨-, -, hfew, heq⟩ | ⟨-, h, -⟩
    · omega
    · rw [Gate.passed_cons, heq, show 5 - b.count = 0 by omega, List.take_zero]
      exact passed_of_blocked hgaps (by dsimp only; omega)
    · have hrest := ih (b := ⟨now, b.blockTime, b.count + 1⟩) hgaps hfree hfew
      rw [Gate.passed_cons, heq, if_pos rfl, hrest,
        show 5 - b.count = 5 - (b.count + 1) + 1 by omega, List.take_succ_cons]
    · omega

/-- Whoever never waits for more than a quarter of a second connects five times and never again. -/
theorem ofKey_accepted_of_hammering {attempts : List (UInt32 × ℕ)} {clientIP : UInt32}
    (hgaps : (Gate.ofKey clientIP attempts).IsChain Hammering) :
    Gate.ofKey clientIP (accepted attempts) = (Gate.ofKey clientIP attempts).take 5 := by
  rw [accepted, Gate.ofKey_passed_keyed]
  cases htimes : Gate.ofKey clientIP attempts with
  | nil => rfl
  | cons t times =>
    rw [htimes] at hgaps
    exact congrArg (t :: ·) (passed_of_hammering (b := ⟨t, 0, 1⟩) hgaps rfl (by simp))

/-- Two clients, of which the first does not wait. -/
def hasty : List (UInt32 × ℕ) :=
  [(1, 0), (2, 0), (1, 250), (1, 500), (2, 600), (1, 700), (1, 900), (1, 1000), (1, 1250)]

theorem ofKey_accepted_of_hammering_hasty :
    Gate.ofKey 1 (accepted hasty) = [0, 250, 500, 700, 900] := by
  have hgaps : (Gate.ofKey 1 hasty).IsChain Hammering := by decide
  rw [ofKey_accepted_of_hammering hgaps]
  decide

end OTServBR.Ban
