import OTServBR.Lib.Climb
import OTServBR.Player.Magic

/-! # Training

Tries climb the levels of a skill, and mana those of magic, in the same way
whether they come at once or in parts, online or offline. At its last level
`addManaSpent` returns before it sets the percent, which the others do.
-/

namespace OTServBR.Player

open Climb

variable {r : ℕ → ℕ} {T n n' t b : ℕ} {p p' percent percent' : UInt8} {tries tries' : UInt64}

/-- What an amount leaves after `n` levels; `p` is the percent that is shown at the last level. -/
def Trained (r : ℕ → ℕ) (T : ℕ) (p : UInt8) (n : ℕ) (tries : UInt64) (percent : UInt8) : Prop :=
  (∃ t, Below r T n t ∧ tries = .ofNat t ∧
    percent = getPercentLevel (.ofNat t) (.ofNat (r (n + 1)))) ∨
  (Tops r T n ∧ tries = 0 ∧ percent = p)

theorem Trained.unique (h : Trained r T p n tries percent)
    (h' : Trained r T p n' tries' percent') : n = n' ∧ tries = tries' ∧ percent = percent' := by
  obtain ⟨t, hbelow, rfl, rfl⟩ | ⟨htops, rfl, rfl⟩ := h <;>
    obtain ⟨t', hbelow', rfl, rfl⟩ | ⟨htops', rfl, rfl⟩ := h'
  · obtain ⟨rfl, rfl⟩ := hbelow.unique hbelow'
    exact ⟨rfl, rfl, rfl⟩
  · exact absurd hbelow htops'.not_below
  · exact absurd hbelow' htops.not_below
  · exact ⟨htops.unique htops', rfl, rfl⟩

theorem Trained.succ (hgrows : r 0 < r 1) (hle : r 1 ≤ T)
    (h : Trained (shift r 1) (T - r 1) p n tries percent) :
    Trained r T p (n + 1) tries percent := by
  obtain ⟨t, hbelow, htries, hpercent⟩ | ⟨htops, hrest⟩ := h
  · refine .inl ⟨t, hbelow.succ hgrows hle, htries, ?_⟩
    rw [hpercent, shift, Nat.add_comm 1]
  · exact .inr ⟨htops.succ hgrows hle, hrest⟩

/-- A second amount goes on where the first one ended. -/
theorem Trained.add (h : Below r T n t) (h' : Trained (shift r n) (t + b) p n' tries percent) :
    Trained r (T + b) p (n + n') tries percent := by
  obtain ⟨t', hbelow, htries, hpercent⟩ | ⟨htops, hrest⟩ := h'
  · exact .inl ⟨t', h.add hbelow, htries, hpercent⟩
  · exact .inr ⟨h.add_tops htops, hrest⟩

theorem toNat_le_add_iff {next tries count : UInt64}
    (hsum : tries.toNat + count.toNat < 2 ^ 64) :
    next ≤ tries + count ↔ next.toNat ≤ tries.toNat + count.toNat := by
  rw [UInt64.le_iff_toNat_le, UInt64.toNat_add, Nat.mod_eq_of_lt hsum]

/-- The rest of an amount for the level above. -/
theorem toNat_rest {next tries count : UInt64} (hsum : tries.toNat + count.toNat < 2 ^ 64)
    (hle : next.toNat ≤ tries.toNat + count.toNat) :
    (count - (next - tries)).toNat = tries.toNat + count.toNat - next.toNat := by
  have hnext := next.toNat_lt
  have htries := tries.toNat_lt
  rw [UInt64.toNat_sub, UInt64.toNat_sub]
  omega

namespace Skill

variable {req : UInt16 → UInt64} {s : Skill}

/-- The requirements from a level on. -/
def ladder (req : UInt16 → UInt64) (level : UInt16) (i : ℕ) : ℕ := (req (level + .ofNat i)).toNat

theorem ladder_add {level : UInt16} :
    ladder req (level + .ofNat n) = shift (ladder req level) n := by
  funext i
  rw [ladder, shift, ladder, UInt16.ofNat_add, UInt16.add_assoc]

theorem ladder_zero {level : UInt16} : ladder req level 0 = (req level).toNat := by
  rw [ladder]
  exact congrArg (fun l => (req l).toNat) (UInt16.add_zero level)

theorem ladder_one {level : UInt16} : ladder req level 1 = (req (level + 1)).toNat := rfl

theorem ladder_lt {level : UInt16} (h : req level < req (level + 1)) :
    ladder req level 0 < ladder req level 1 := by
  rw [ladder_zero, ladder_one]
  exact UInt64.lt_iff_toNat_lt.mp h

theorem level_add_succ {level : UInt16} : level + 1 + .ofNat n = level + .ofNat (n + 1) := by
  rw [UInt16.add_assoc, Nat.add_comm n 1, UInt16.ofNat_add]
  rfl

/-- The loop of `addSkillAdvance` climbs. -/
theorem advance_climbs {count curr next : UInt64} (hcurr : curr = req s.level)
    (hnext : next = req (s.level + 1)) (hlt : curr < next)
    (hsum : s.tries.toNat + count.toNat < 2 ^ 64) :
    ∃ n q count' curr' next', s.advance req count curr next = (q, count', curr', next') ∧
      q.level = s.level + .ofNat n ∧
      Trained (ladder req s.level) (s.tries.toNat + count.toNat) 0 n (q.tries + count')
        (if curr' < next' then getPercentLevel (q.tries + count') next' else 0) := by
  fun_induction advance req s count curr next with
  | case1 s count curr next hle hlast =>
    subst hcurr hnext
    rw [toNat_le_add_iff hsum] at hle
    refine ⟨1, s.levelUp, 0, _, req (s.levelUp.level + 1), rfl, rfl, .inr ⟨.one (ladder_lt hlt) ?_
      hle, rfl, if_neg (UInt64.not_lt.mpr hlast)⟩⟩
    have htwo : s.level + .ofNat 2 = s.levelUp.level + 1 := level_add_succ.symm
    rw [ladder_one, ladder, htwo]
    exact UInt64.le_iff_toNat_le.mp hlast
  | case2 s count curr next hle hlast ih =>
    subst hcurr hnext
    rw [toNat_le_add_iff hsum] at hle
    have hrest := toNat_rest hsum hle
    have hlevel : s.levelUp.level = s.level + .ofNat 1 := rfl
    have hsum' : s.levelUp.tries.toNat + (count - (req (s.level + 1) - s.tries)).toNat =
        s.tries.toNat + count.toNat - ladder req s.level 1 := by
      rw [hrest, ladder_one]
      exact Nat.zero_add _
    obtain ⟨n, q, count', curr', next', hadvance, hq, htrained⟩ :=
      ih rfl rfl (UInt64.not_le.mp hlast) (by omega)
    rw [hsum', hlevel, ladder_add] at htrained
    exact ⟨n + 1, q, count', curr', next', hadvance, hq.trans level_add_succ,
      htrained.succ (ladder_lt hlt) hle⟩
  | case3 s count curr next hle =>
    subst hcurr hnext
    rw [toNat_le_add_iff hsum, Nat.not_le] at hle
    have htries : s.tries + count = .ofNat (s.tries.toNat + count.toNat) := by
      rw [UInt64.ofNat_add, UInt64.ofNat_toNat, UInt64.ofNat_toNat]
    refine ⟨0, s, count, _, _, rfl, (UInt16.add_zero _).symm, .inl ⟨_, .zero (ladder_lt hlt) hle,
      htries, ?_⟩⟩
    rw [if_pos hlt, htries, ladder_one, UInt64.ofNat_toNat]

theorem advanceOffline_eq {count curr next : UInt64} :
    s.advanceOffline req count curr next = s.advance req count curr next := by
  fun_induction advanceOffline req s count curr next with
  | case1 s count curr next hle hlast => rw [advance, if_pos hle, if_pos hlast]
  | case2 s count curr next hle hlast ih => rw [advance, if_pos hle, if_neg hlast, ih]
  | case3 s count curr next hle => rw [advance, if_neg hle]

/-- Where there is a next level, tries climb from the own level. -/
theorem addSkillAdvance_climbs {count : UInt64} (hlt : req s.level < req (s.level + 1))
    (hcount : count ≠ 0) (hsum : s.tries.toNat + count.toNat < 2 ^ 64) :
    ∃ n, (s.addSkillAdvance req count id).level = s.level + .ofNat n ∧
      Trained (ladder req s.level) (s.tries.toNat + count.toNat) 0 n
        (s.addSkillAdvance req count id).tries (s.addSkillAdvance req count id).percent := by
  obtain ⟨n, q, count', curr', next', hadvance, hlevel, htrained⟩ :=
    advance_climbs rfl rfl hlt hsum
  refine ⟨n, ?_⟩
  rw [addSkillAdvance]
  dsimp only [id_eq]
  rw [if_neg (UInt64.not_le.mpr hlt), if_neg hcount, hadvance]
  exact ⟨hlevel, htrained⟩

theorem addSkillAdvance_last {count : UInt64} (hlast : req (s.level + 1) ≤ req s.level) :
    s.addSkillAdvance req count id = s := by
  rw [addSkillAdvance]
  exact if_pos hlast

theorem addSkillAdvance_zero : s.addSkillAdvance req 0 id = s := by
  rw [addSkillAdvance]
  dsimp only [id_eq]
  split
  · rfl
  · exact if_pos rfl

/-- Offline training is online training. -/
theorem addOfflineTrainingTries_eq {count : UInt64} :
    s.addOfflineTrainingTries req count id = s.addSkillAdvance req count id := by
  rw [addOfflineTrainingTries]
  dsimp only [id_eq]
  split
  · next hzero =>
    rw [hzero, addSkillAdvance_zero]
  · next hzero =>
    rw [addSkillAdvance]
    dsimp only [id_eq]
    rw [if_neg hzero, advanceOffline_eq]

theorem eq_of_fields {q q' : Skill} (hlevel : q.level = q'.level) (htries : q.tries = q'.tries)
    (hpercent : q.percent = q'.percent) : q = q' := by
  cases q
  cases q'
  dsimp only at hlevel htries hpercent
  rw [hlevel, htries, hpercent]

/-- A ladder ends at a level that has no next one. -/
theorem last_of_tops {level : UInt16} (h : Tops (ladder req level) T n) :
    req (level + .ofNat n + 1) ≤ req (level + .ofNat n) := by
  have hlast := h.last
  rw [ladder, ladder, UInt16.ofNat_add, ← UInt16.add_assoc] at hlast
  exact UInt64.le_iff_toNat_le.mpr hlast

theorem lt_of_below {level : UInt16} (h : Below (ladder req level) T n t) :
    req (level + .ofNat n) < req (level + .ofNat n + 1) := by
  have hgrows := h.grows n le_rfl
  rw [ladder, ladder, UInt16.ofNat_add, ← UInt16.add_assoc] at hgrows
  exact UInt64.lt_iff_toNat_lt.mpr hgrows

/-- Tries may be added at once or in parts. -/
theorem addSkillAdvance_add {a b : UInt64}
    (hsum : s.tries.toNat + a.toNat + b.toNat < 2 ^ 64) :
    (s.addSkillAdvance req a id).addSkillAdvance req b id = s.addSkillAdvance req (a + b) id := by
  by_cases ha : a = 0
  · rw [ha, addSkillAdvance_zero, UInt64.zero_add]
  by_cases hb : b = 0
  · rw [hb, addSkillAdvance_zero, UInt64.add_zero]
  rcases UInt64.lt_or_le (req s.level) (req (s.level + 1)) with hlt | hlast
  swap
  · rw [addSkillAdvance_last hlast, addSkillAdvance_last hlast, addSkillAdvance_last hlast]
  have hab : (a + b).toNat = a.toNat + b.toNat := by
    rw [UInt64.toNat_add, Nat.mod_eq_of_lt (by omega)]
  have hab0 : a + b ≠ 0 := by
    intro hzero
    rw [hzero] at hab
    exact ha (UInt64.toNat_inj.mp (Nat.eq_zero_of_add_eq_zero_right hab.symm))
  obtain ⟨n, hlevel, htrained⟩ := addSkillAdvance_climbs hlt ha (by omega)
  obtain ⟨n', hlevel', htrained'⟩ := addSkillAdvance_climbs hlt hab0 (by omega)
  rw [hab, ← Nat.add_assoc] at htrained'
  generalize s.addSkillAdvance req a id = q at *
  obtain ⟨t, hbelow, htries, hpercent⟩ | ⟨htops, htries, hpercent⟩ := htrained
  · have hlt' : req q.level < req (q.level + 1) := hlevel ▸ lt_of_below hbelow
    have ht : q.tries.toNat = t := by
      have hsum' := hbelow.sum
      rw [htries]
      exact UInt64.toNat_ofNat_of_lt' (by simp only [UInt64.size]; omega)
    have hle : t ≤ s.tries.toNat + a.toNat := by
      rw [← hbelow.sum]
      exact Nat.le_add_right ..
    obtain ⟨k, hk, htrained''⟩ := addSkillAdvance_climbs hlt' hb (by omega)
    rw [ht, hlevel, ladder_add] at htrained''
    obtain ⟨rfl, htries', hpercent'⟩ := (Trained.add hbelow htrained'').unique htrained'
    refine eq_of_fields ?_ htries' hpercent'
    rw [hk, hlevel, hlevel', UInt16.ofNat_add, UInt16.add_assoc]
  · have hlast : req (q.level + 1) ≤ req q.level := hlevel ▸ last_of_tops htops
    have hq : Trained (ladder req s.level) (s.tries.toNat + a.toNat + b.toNat) 0 n q.tries
        q.percent := .inr ⟨htops.mono, htries, hpercent⟩
    obtain ⟨rfl, htries', hpercent'⟩ := hq.unique htrained'
    rw [addSkillAdvance_last hlast]
    exact eq_of_fields (hlevel.trans hlevel'.symm) htries' hpercent'

end Skill

namespace Magic

variable {req : UInt32 → UInt64} {m : Magic}

/-- The requirements from a magic level on. -/
def ladder (req : UInt32 → UInt64) (magLevel : UInt32) (i : ℕ) : ℕ :=
  (req (magLevel + .ofNat i)).toNat

theorem ladder_add {magLevel : UInt32} :
    ladder req (magLevel + .ofNat n) = shift (ladder req magLevel) n := by
  funext i
  rw [ladder, shift, ladder, UInt32.ofNat_add, UInt32.add_assoc]

theorem ladder_one {magLevel : UInt32} : ladder req magLevel 1 = (req (magLevel + 1)).toNat := rfl

theorem ladder_lt {magLevel : UInt32} (h : req magLevel < req (magLevel + 1)) :
    ladder req magLevel 0 < ladder req magLevel 1 := by
  have hzero : magLevel + .ofNat 0 = magLevel := UInt32.add_zero _
  rw [ladder, hzero, ladder_one]
  exact UInt64.lt_iff_toNat_lt.mp h

theorem level_add_succ {magLevel : UInt32} :
    magLevel + 1 + .ofNat n = magLevel + .ofNat (n + 1) := by
  rw [UInt32.add_assoc, Nat.add_comm n 1, UInt32.ofNat_add]
  rfl

theorem last_of_tops {magLevel : UInt32} (h : Tops (ladder req magLevel) T n) :
    req (magLevel + .ofNat n + 1) ≤ req (magLevel + .ofNat n) := by
  have hlast := h.last
  rw [ladder, ladder, UInt32.ofNat_add, ← UInt32.add_assoc] at hlast
  exact UInt64.le_iff_toNat_le.mpr hlast

theorem lt_of_below {magLevel : UInt32} (h : Below (ladder req magLevel) T n t) :
    req (magLevel + .ofNat n) < req (magLevel + .ofNat n + 1) := by
  have hgrows := h.grows n le_rfl
  rw [ladder, ladder, UInt32.ofNat_add, ← UInt32.add_assoc] at hgrows
  exact UInt64.lt_iff_toNat_lt.mpr hgrows

/-- The two loops climb alike; the online one returns at the last level. -/
theorem advance_climbs {amount curr next : UInt64} (hcurr : curr = req m.magLevel)
    (hnext : next = req (m.magLevel + 1)) (hlt : curr < next)
    (hsum : m.manaSpent.toNat + amount.toNat < 2 ^ 64) :
    ∃ n q amount' curr' next', q.magLevel = m.magLevel + .ofNat n ∧
      q.magLevelPercent = m.magLevelPercent ∧
      m.advanceOffline req amount curr next = (q, amount', curr', next') ∧
      (Tops (ladder req m.magLevel) (m.manaSpent.toNat + amount.toNat) n ∧
        m.advance req amount curr next = (q, none) ∧ q.manaSpent = 0 ∧ amount' = 0 ∧
        next' ≤ curr' ∨
      ∃ t, Below (ladder req m.magLevel) (m.manaSpent.toNat + amount.toNat) n t ∧
        m.advance req amount curr next = (q, some (amount', curr', next')) ∧
        q.manaSpent + amount' = .ofNat t ∧ curr' < next' ∧
        next' = .ofNat (ladder req m.magLevel (n + 1))) := by
  fun_induction advanceOffline req m amount curr next with
  | case1 m amount curr next hle hlast =>
    subst hcurr hnext
    rw [advance, if_pos hle, if_pos hlast]
    rw [toNat_le_add_iff hsum] at hle
    refine ⟨1, m.levelUp, 0, _, req (m.levelUp.magLevel + 1), rfl, rfl, rfl,
      .inl ⟨.one (ladder_lt hlt) ?_ hle, rfl, rfl, rfl, hlast⟩⟩
    have htwo : m.magLevel + .ofNat 2 = m.levelUp.magLevel + 1 := level_add_succ.symm
    rw [ladder_one, ladder, htwo]
    exact UInt64.le_iff_toNat_le.mp hlast
  | case2 m amount curr next hle hlast ih =>
    subst hcurr hnext
    rw [advance, if_pos hle, if_neg hlast]
    rw [toNat_le_add_iff hsum] at hle
    have hrest := toNat_rest hsum hle
    have hlevel : m.levelUp.magLevel = m.magLevel + .ofNat 1 := rfl
    have hsum' : m.levelUp.manaSpent.toNat + (amount - (req (m.magLevel + 1) - m.manaSpent)).toNat =
        m.manaSpent.toNat + amount.toNat - ladder req m.magLevel 1 := by
      rw [hrest, ladder_one]
      exact Nat.zero_add _
    obtain ⟨n, q, amount', curr', next', hq, hpercent, hoffline, hends⟩ :=
      ih rfl rfl (UInt64.not_le.mp hlast) (by omega)
    rw [hsum', hlevel, ladder_add] at hends
    refine ⟨n + 1, q, amount', curr', next', hq.trans level_add_succ, hpercent, hoffline, ?_⟩
    rcases hends with ⟨htops, hrest'⟩ | ⟨t, hbelow, honline, hspent, hlt', hnext'⟩
    · exact .inl ⟨htops.succ (ladder_lt hlt) hle, hrest'⟩
    · refine .inr ⟨t, hbelow.succ (ladder_lt hlt) hle, honline, hspent, hlt', ?_⟩
      rw [hnext', shift, Nat.add_comm 1]
  | case3 m amount curr next hle =>
    subst hcurr hnext
    rw [advance, if_neg hle]
    rw [toNat_le_add_iff hsum, Nat.not_le] at hle
    refine ⟨0, m, amount, _, _, (UInt32.add_zero _).symm, rfl, rfl,
      .inr ⟨_, .zero (ladder_lt hlt) hle, rfl, ?_, hlt, ?_⟩⟩
    · rw [UInt64.ofNat_add, UInt64.ofNat_toNat, UInt64.ofNat_toNat]
    · rw [ladder_one, UInt64.ofNat_toNat]

/-- Online, mana climbs and leaves the percent as it is at the last level. -/
theorem addManaSpent_climbs {amount : UInt64} (hlt : req m.magLevel < req (m.magLevel + 1))
    (hamount : amount ≠ 0) (hsum : m.manaSpent.toNat + amount.toNat < 2 ^ 64) :
    ∃ n, (m.addManaSpent req false amount id).magLevel = m.magLevel + .ofNat n ∧
      Trained (ladder req m.magLevel) (m.manaSpent.toNat + amount.toNat) m.magLevelPercent n
        (m.addManaSpent req false amount id).manaSpent
        (m.addManaSpent req false amount id).magLevelPercent := by
  obtain ⟨n, q, amount', curr', next', hlevel, hpercent, -, hends⟩ :=
    advance_climbs rfl rfl hlt hsum
  refine ⟨n, ?_⟩
  rw [addManaSpent]
  dsimp only [id_eq]
  rw [if_neg Bool.false_ne_true, if_neg (UInt64.not_le.mpr hlt), if_neg hamount]
  rcases hends with ⟨htops, honline, hspent, -⟩ | ⟨t, hbelow, honline, hspent, hlt', hnext'⟩
  · rw [honline]
    exact ⟨hlevel, .inr ⟨htops, hspent, hpercent⟩⟩
  · rw [honline]
    dsimp only
    refine ⟨hlevel, .inl ⟨t, hbelow, hspent, ?_⟩⟩
    rw [if_pos hlt', hspent, hnext']

/-- Offline, mana climbs and the percent is zero at the last level. -/
theorem addOfflineTrainingTries_climbs {tries : UInt64}
    (hlt : req m.magLevel < req (m.magLevel + 1)) (htries : tries ≠ 0)
    (hsum : m.manaSpent.toNat + tries.toNat < 2 ^ 64) :
    ∃ n, (m.addOfflineTrainingTries req tries id).magLevel = m.magLevel + .ofNat n ∧
      Trained (ladder req m.magLevel) (m.manaSpent.toNat + tries.toNat) 0 n
        (m.addOfflineTrainingTries req tries id).manaSpent
        (m.addOfflineTrainingTries req tries id).magLevelPercent := by
  obtain ⟨n, q, tries', curr', next', hlevel, -, hoffline, hends⟩ :=
    advance_climbs rfl rfl hlt hsum
  refine ⟨n, ?_⟩
  rw [addOfflineTrainingTries]
  dsimp only [id_eq]
  rw [if_neg htries, if_neg (UInt64.not_le.mpr hlt), hoffline]
  dsimp only
  rcases hends with ⟨htops, -, hspent, hzero, hlast⟩ | ⟨t, hbelow, -, hspent, hlt', hnext'⟩
  · refine ⟨hlevel, .inr ⟨htops, ?_, if_neg (UInt64.not_lt.mpr hlast)⟩⟩
    rw [hspent, hzero]
    rfl
  · refine ⟨hlevel, .inl ⟨t, hbelow, hspent, ?_⟩⟩
    rw [if_pos hlt', hspent, hnext']

theorem addManaSpent_last {flag : Bool} {amount : UInt64}
    (hlast : req (m.magLevel + 1) ≤ req m.magLevel) : m.addManaSpent req flag amount id = m := by
  rw [addManaSpent]
  split
  · rfl
  · exact if_pos hlast

theorem addManaSpent_zero {flag : Bool} : m.addManaSpent req flag 0 id = m := by
  rw [addManaSpent]
  dsimp only [id_eq]
  split
  · rfl
  split
  · rfl
  · exact if_pos rfl

theorem addOfflineTrainingTries_last {tries : UInt64}
    (hlast : req (m.magLevel + 1) ≤ req m.magLevel) :
    m.addOfflineTrainingTries req tries id = m := by
  rw [addOfflineTrainingTries]
  split
  · rfl
  · exact if_pos hlast

theorem addOfflineTrainingTries_zero : m.addOfflineTrainingTries req 0 id = m := if_pos rfl

theorem eq_of_fields {q q' : Magic} (hlevel : q.magLevel = q'.magLevel)
    (hspent : q.manaSpent = q'.manaSpent) (hpercent : q.magLevelPercent = q'.magLevelPercent) :
    q = q' := by
  cases q
  cases q'
  dsimp only at hlevel hspent hpercent
  rw [hlevel, hspent, hpercent]

/-- Mana may be added at once or in parts, online or offline. -/
structure Alike (req : UInt32 → UInt64) (m : Magic) (notGainMana : Bool) (a b : UInt64) : Prop where
  add : (m.addManaSpent req notGainMana a id).addManaSpent req notGainMana b id =
    m.addManaSpent req notGainMana (a + b) id
  offline : m.addOfflineTrainingTries req a id = m.addManaSpent req notGainMana a id

/-- There is nothing to gain, or the mana counts online and the percent is already the one that
is left behind when the first amount or the second one reaches the last level. -/
def PercentKept (req : UInt32 → UInt64) (m : Magic) (notGainMana : Bool) (a b : UInt64) : Prop :=
  req (m.magLevel + 1) ≤ req m.magLevel ∨ a = 0 ∨ notGainMana = false ∧
    (∀ n, Tops (ladder req m.magLevel) (m.manaSpent.toNat + a.toNat) n →
      m.magLevelPercent = 0) ∧
    ∀ n t k, Below (ladder req m.magLevel) (m.manaSpent.toNat + a.toNat) n t →
      Tops (ladder req m.magLevel) (m.manaSpent.toNat + a.toNat + b.toNat) k →
      getPercentLevel (.ofNat t) (.ofNat (ladder req m.magLevel (n + 1))) = m.magLevelPercent

theorem offline_iff {a : UInt64} (hlt : req m.magLevel < req (m.magLevel + 1)) (ha : a ≠ 0)
    (hsum : m.manaSpent.toNat + a.toNat < 2 ^ 64) :
    m.addOfflineTrainingTries req a id = m.addManaSpent req false a id ↔
      ∀ n, Tops (ladder req m.magLevel) (m.manaSpent.toNat + a.toNat) n →
        m.magLevelPercent = 0 := by
  obtain ⟨n, hlevel, htrained⟩ := addManaSpent_climbs hlt ha hsum
  obtain ⟨n', hlevel', htrained'⟩ := addOfflineTrainingTries_climbs hlt ha hsum
  constructor
  · intro heq k htops
    rw [heq] at htrained'
    obtain ⟨t, hbelow, -⟩ | ⟨-, -, hpercent⟩ := htrained
    · exact absurd hbelow htops.not_below
    obtain ⟨t, hbelow, -⟩ | ⟨-, -, hpercent'⟩ := htrained'
    · exact absurd hbelow htops.not_below
    exact hpercent.symm.trans hpercent'
  · intro hkept
    have htrained'' : Trained (ladder req m.magLevel) (m.manaSpent.toNat + a.toNat) 0 n
        (m.addManaSpent req false a id).manaSpent
        (m.addManaSpent req false a id).magLevelPercent := by
      obtain hbelow | ⟨htops, hspent, hpercent⟩ := htrained
      · exact .inl hbelow
      · exact .inr ⟨htops, hspent, hpercent.trans (hkept n htops)⟩
    obtain ⟨rfl, hspent, hpercent⟩ := htrained'.unique htrained''
    exact eq_of_fields (hlevel'.trans hlevel.symm) hspent hpercent

theorem add_iff {a b : UInt64} (hlt : req m.magLevel < req (m.magLevel + 1)) (ha : a ≠ 0)
    (hsum : m.manaSpent.toNat + a.toNat + b.toNat < 2 ^ 64) :
    (m.addManaSpent req false a id).addManaSpent req false b id =
      m.addManaSpent req false (a + b) id ↔
    ∀ n t k, Below (ladder req m.magLevel) (m.manaSpent.toNat + a.toNat) n t →
      Tops (ladder req m.magLevel) (m.manaSpent.toNat + a.toNat + b.toNat) k →
      getPercentLevel (.ofNat t) (.ofNat (ladder req m.magLevel (n + 1))) =
        m.magLevelPercent := by
  by_cases hb : b = 0
  · subst hb
    rw [addManaSpent_zero, UInt64.add_zero, UInt64.toNat_zero, Nat.add_zero]
    exact iff_of_true rfl fun _ _ _ hbelow htops => absurd hbelow htops.not_below
  have hab : (a + b).toNat = a.toNat + b.toNat := by
    rw [UInt64.toNat_add, Nat.mod_eq_of_lt (by omega)]
  have hab0 : a + b ≠ 0 := by
    intro hzero
    rw [hzero] at hab
    exact ha (UInt64.toNat_inj.mp (Nat.eq_zero_of_add_eq_zero_right hab.symm))
  obtain ⟨n, hlevel, htrained⟩ := addManaSpent_climbs hlt ha (by omega)
  obtain ⟨n', hlevel', htrained'⟩ := addManaSpent_climbs hlt hab0 (by omega)
  rw [hab, ← Nat.add_assoc] at htrained'
  generalize m.addManaSpent req false a id = q at *
  generalize m.addManaSpent req false (a + b) id = q' at *
  obtain ⟨t, hbelow, hspent, hpercent⟩ | ⟨htops, hspent, hpercent⟩ := htrained
  · have hlt' : req q.magLevel < req (q.magLevel + 1) := hlevel ▸ lt_of_below hbelow
    have hsum' := hbelow.sum
    have ht : q.manaSpent.toNat = t := by
      rw [hspent]
      exact UInt64.toNat_ofNat_of_lt' (by simp only [UInt64.size]; omega)
    obtain ⟨k, hk, hsecond⟩ := addManaSpent_climbs hlt' hb (by omega)
    rw [ht, hlevel, ladder_add] at hsecond
    generalize q.addManaSpent req false b id = q'' at *
    have htwice := Trained.add hbelow hsecond
    have hlevel'' : q''.magLevel = m.magLevel + .ofNat (n + k) := by
      rw [hk, hlevel, UInt32.ofNat_add, UInt32.add_assoc]
    constructor
    · rintro rfl n₂ t₂ k₂ hbelow₂ htops₂
      obtain ⟨rfl, rfl⟩ := hbelow.unique hbelow₂
      obtain ⟨_, hbelow', -⟩ | ⟨-, -, hsame⟩ := htwice
      · exact absurd hbelow' htops₂.not_below
      obtain ⟨_, hbelow', -⟩ | ⟨-, -, hold⟩ := htrained'
      · exact absurd hbelow' htops₂.not_below
      rw [← hpercent, ← hsame, hold]
    · intro hkept
      have honce : Trained (ladder req m.magLevel) (m.manaSpent.toNat + a.toNat + b.toNat)
          m.magLevelPercent (n + k) q''.manaSpent q''.magLevelPercent := by
        obtain hbelow' | ⟨htops, hspent', hpercent'⟩ := htwice
        · exact .inl hbelow'
        · refine .inr ⟨htops, hspent', ?_⟩
          rw [hpercent', hpercent, hkept n t (n + k) hbelow htops]
      obtain ⟨rfl, hspent', hpercent'⟩ := honce.unique htrained'
      exact eq_of_fields (hlevel''.trans hlevel'.symm) hspent' hpercent'
  · -- The first amount reaches the last level, and the second one changes nothing.
    have hlast : req (q.magLevel + 1) ≤ req q.magLevel := hlevel ▸ last_of_tops htops
    have hq : Trained (ladder req m.magLevel) (m.manaSpent.toNat + a.toNat + b.toNat)
        m.magLevelPercent n q.manaSpent q.magLevelPercent := .inr ⟨htops.mono, hspent, hpercent⟩
    obtain ⟨rfl, hspent', hpercent'⟩ := hq.unique htrained'
    rw [addManaSpent_last hlast]
    exact iff_of_true (eq_of_fields (hlevel.trans hlevel'.symm) hspent' hpercent')
      fun _ _ _ hbelow => absurd hbelow htops.not_below

/-- Offline, mana is always gained where there is a next level. -/
theorem addOfflineTrainingTries_ne {a : UInt64} (hlt : req m.magLevel < req (m.magLevel + 1))
    (ha : a ≠ 0) (hsum : m.manaSpent.toNat + a.toNat < 2 ^ 64) :
    m.addOfflineTrainingTries req a id ≠ m := by
  intro heq
  obtain ⟨n, hlevel, htrained⟩ := addOfflineTrainingTries_climbs hlt ha hsum
  rw [heq] at hlevel htrained
  have hsame : ladder req m.magLevel n = ladder req m.magLevel 0 := by
    have hzero : m.magLevel + .ofNat 0 = m.magLevel := UInt32.add_zero _
    rw [ladder, ladder, ← hlevel, hzero]
  obtain ⟨t, hbelow, hspent, -⟩ | ⟨htops, -⟩ := htrained
  · rcases Nat.eq_zero_or_pos n with rfl | hpos
    · have hsum' := hbelow.sum
      rw [Finset.sum_range_zero, Nat.add_zero] at hsum'
      have ht : m.manaSpent.toNat = t := by
        rw [hspent]
        exact UInt64.toNat_ofNat_of_lt' (by simp only [UInt64.size]; omega)
      exact ha (UInt64.toNat_inj.mp (by rw [UInt64.toNat_zero]; omega))
    · exact absurd hsame (lt_of_grows hpos fun i hi => hbelow.grows i hi.le).ne'
  · exact absurd hsame (lt_of_grows htops.pos htops.grows).ne'

theorem alike_iff {flag : Bool} {a b : UInt64}
    (hsum : m.manaSpent.toNat + a.toNat + b.toNat < 2 ^ 64) :
    m.Alike req flag a b ↔ m.PercentKept req flag a b := by
  rw [PercentKept]
  rcases UInt64.lt_or_le (req m.magLevel) (req (m.magLevel + 1)) with hlt | hlast
  swap
  · refine iff_of_true ⟨?_, ?_⟩ (.inl hlast)
    · rw [addManaSpent_last hlast, addManaSpent_last hlast, addManaSpent_last hlast]
    · rw [addOfflineTrainingTries_last hlast, addManaSpent_last hlast]
  rw [or_iff_right (UInt64.not_le.mpr hlt)]
  by_cases ha : a = 0
  · refine iff_of_true ⟨?_, ?_⟩ (.inl ha)
    · rw [ha, addManaSpent_zero, UInt64.zero_add]
    · rw [ha, addOfflineTrainingTries_zero, addManaSpent_zero]
  rw [or_iff_right ha]
  cases flag with
  | true =>
    refine iff_of_false (fun h => ?_) fun h => Bool.false_ne_true h.1.symm
    exact addOfflineTrainingTries_ne hlt ha (by omega) h.offline
  | false =>
    rw [and_iff_right rfl, ← offline_iff hlt ha (by omega), ← add_iff hlt ha hsum]
    exact ⟨fun h => ⟨h.offline, h.add⟩, fun h => ⟨h.2, h.1⟩⟩

end Magic

/-- Training is additive and the same online and offline, for a skill and for magic. -/
structure TrainsAlike (req : UInt16 → UInt64) (s : Skill) (reqMana : UInt32 → UInt64) (m : Magic)
    (notGainMana : Bool) (a b : UInt64) : Prop where
  add : (s.addSkillAdvance req a id).addSkillAdvance req b id = s.addSkillAdvance req (a + b) id
  offline : s.addOfflineTrainingTries req a id = s.addSkillAdvance req a id
  magic : m.Alike reqMana notGainMana a b

theorem trainsAlike_iff {req : UInt16 → UInt64} {s : Skill} {reqMana : UInt32 → UInt64} {m : Magic}
    {notGainMana : Bool} {a b : UInt64} (hsum : s.tries.toNat + a.toNat + b.toNat < 2 ^ 64)
    (hsumMana : m.manaSpent.toNat + a.toNat + b.toNat < 2 ^ 64) :
    TrainsAlike req s reqMana m notGainMana a b ↔ m.PercentKept reqMana notGainMana a b :=
  ⟨fun h => (Magic.alike_iff hsumMana).mp h.magic, fun h =>
    ⟨Skill.addSkillAdvance_add hsum, Skill.addOfflineTrainingTries_eq,
      (Magic.alike_iff hsumMana).mpr h⟩⟩

/-- The requirements of a vocation with the magic levels 0 and 1. -/
def twoLevels (magLevel : UInt32) : UInt64 :=
  if magLevel = 0 then 1600 else if magLevel = 1 then 3200 else 0

theorem trainsAlike_novice : TrainsAlike (fun level => 50 * level.toUInt64) {} twoLevels {} false
    100 200 := by
  refine (trainsAlike_iff (by decide) (by decide)).mpr
    (.inr (.inr ⟨rfl, fun _ _ => rfl, fun n t k _ htops => ?_⟩))
  have hmono := (sum_range_mono htops.pos).trans htops.sum
  exact absurd hmono (by decide)

/-- A player halfway to the last magic level, who gets there with 1600 mana. -/
theorem not_trainsAlike_lastLevel : ¬ TrainsAlike (fun level => 50 * level.toUInt64) {} twoLevels
    { manaSpent := 1600, magLevelPercent := 50 } false 1600 0 := by
  intro h
  have hkept := (Magic.offline_iff (by decide) (by decide) (by decide)).mp h.magic.offline 1
    (.one (by decide) (by decide) (by decide))
  revert hkept
  decide

end OTServBR.Player
