import Mathlib.Tactic.Tauto
import OTServBR.Player.Skull

/-! # The time of a skull

A kill sets the time that is left in thousandths of a second, and a think tick, a
save and a login count it in seconds. A skull for `d` days is kept for
`1000 * d`, online and offline, with two seconds more for each login.
-/

namespace OTServBR.Skull

/-- When a skull was set, for how many days, and how many logins it has outlasted. -/
structure Mark where
  since : ℕ
  days : ℕ
  logins : ℕ := 0
  deriving DecidableEq

namespace Mark

variable (m : Mark)

/-- The time at which the configured days are over. -/
def due : ℕ := m.since + m.days * 24 * 60 * 60

/-- The time at which the counter is down to zero. -/
def kept : ℕ := m.since + m.days * 24 * 60 * 60 * 1000 + 2 * m.logins

/-- A few seconds for each session. -/
def rounding : ℕ := 5 * (m.logins + 1)

def login (now : ℕ) : Mark := if now < m.kept then { m with logins := m.logins + 1 } else m

theorem since_le_due : m.since ≤ m.due := by
  unfold due
  omega

theorem due_le_kept : m.due ≤ m.kept := by
  unfold due kept
  omega

end Mark

/-- A red or a black skull. -/
def Skulls.Lasting (s : Skulls) : Prop := s = .red ∨ s = .black

instance (s : Skulls) : Decidable s.Lasting := inferInstanceAs (Decidable (_ ∨ _))

/-- The days for which a kill sets a skull. -/
def Player.sentence (cfg : Config) (now : ℤ) (p : Player) (attacked : ℕ) : Option ℕ :=
  if p.notGainInFight ∨ attacked = p.guid ∨ cfg.worldType = .pvpEnforced ∨ p.skull = .black then
    none
  else
    let p : Player := { p with unjustifiedKills := p.unjustifiedKills ++ [⟨attacked, now, true⟩] }
    if p.Reaches cfg now 2 then some cfg.blackSkullDuration
    else if p.Reaches cfg now 1 then some cfg.redSkullDuration
    else none

/-- A world, with the skull that was set last. -/
structure Watch where
  world : World
  mark : Option Mark := none

namespace Watch

variable (cfg : Config) (s : Watch) (a : Action)

def nextMark : Option Mark :=
  match a with
  | .kill attacked =>
    match s.world.player.bind (·.sentence cfg s.world.now attacked) with
    | some days => some { since := s.world.now, days := days }
    | none => s.mark
  | .login gap =>
    match s.world.player with
    | none => s.mark.map (·.login (s.world.now + gap))
    | some _ => s.mark
  | _ => s.mark

def step : Watch := ⟨s.world.step cfg a, s.nextMark cfg a⟩

/-- A fight keeps the skull of a player whose time is up. -/
def Extends : Prop := a = .think true ∧ ∃ p ∈ s.world.player, p.skullTicks ≤ 1

/-- A player that is online has the last skull that was set until its days are over, and no
longer. -/
def Timely : Prop := ∀ p ∈ s.world.player, ∀ m ∈ s.mark,
  (p.skull.Lasting → s.world.now ≤ m.due + m.rounding) ∧
    (¬ p.skull.Lasting → m.due ≤ s.world.now + m.rounding)

/-- A player that is online is not between the time at which the days of his skull are over and
the time at which its counter is. -/
def Served : Prop := s.world.player ≠ none → ∀ m ∈ s.mark,
  s.world.now ≤ m.due + m.rounding ∨ m.kept ≤ s.world.now

end Watch

/-- The counter of a player holds the seconds until the skull is let go. -/
structure Counts (now : ℕ) (mark : Option Mark) (p : Player) : Prop where
  lasting : p.skull.Lasting →
    ∃ m ∈ mark, p.skullTicks = m.kept - now ∧ (0 < p.skullTicks ∨ m.since = now ∧ m.kept = now)
  ended : ¬ p.skull.Lasting → p.skullTicks = 0 ∧ ∀ m ∈ mark, m.kept ≤ now

/-- The column of a row holds the time at which the skull is let go. -/
structure Keeps (now : ℕ) (mark : Option Mark) (row : Row) : Prop where
  lasting : 0 < row.skulltime → row.skull.Lasting ∧ ∃ m ∈ mark, row.skulltime = m.kept
  ended : row.skulltime ≤ 0 → ∀ m ∈ mark, m.kept ≤ now

structure Watch.Law (s : Watch) : Prop where
  online : ∀ p ∈ s.world.player, Counts s.world.now s.mark p
  offline : s.world.player = none → Keeps s.world.now s.mark s.world.row

variable {cfg : Config} {now : ℕ} {mark : Option Mark} {p : Player} {row : Row}

theorem addUnjustifiedDead_of_none {attacked : ℕ} (h : p.sentence cfg now attacked = none) :
    (p.addUnjustifiedDead cfg now attacked).skull = p.skull ∧
      (p.addUnjustifiedDead cfg now attacked).skullTicks = p.skullTicks := by
  unfold Player.addUnjustifiedDead
  unfold Player.sentence at h
  dsimp only at h ⊢
  split
  · exact ⟨rfl, rfl⟩
  · next hguard =>
    split
    · exact ⟨rfl, rfl⟩
    · next hblack =>
      rw [if_neg (by tauto)] at h
      split at h
      · cases h
      · next htwo =>
        rw [if_neg htwo]
        split at h
        · cases h
        · next hone =>
          rw [if_neg hone]
          exact ⟨rfl, rfl⟩

theorem addUnjustifiedDead_of_some {attacked days : ℕ}
    (h : p.sentence cfg now attacked = some days) :
    (p.addUnjustifiedDead cfg now attacked).skull.Lasting ∧
      (p.addUnjustifiedDead cfg now attacked).skullTicks = days * 24 * 60 * 60 * 1000 := by
  unfold Player.addUnjustifiedDead
  unfold Player.sentence at h
  dsimp only at h ⊢
  split at h
  · cases h
  · next hguard =>
    rw [if_neg (by tauto), if_neg (by tauto)]
    split at h
    · next htwo =>
      cases h
      rw [if_pos htwo]
      exact ⟨Or.inr rfl, rfl⟩
    · next htwo =>
      rw [if_neg htwo]
      split at h
      · next hone =>
        cases h
        rw [if_pos hone]
        exact ⟨Or.inl rfl, rfl⟩
      · cases h

namespace Counts

theorem congr (h : Counts now mark p) {p' : Player} (hskull : p'.skull = p.skull)
    (hticks : p'.skullTicks = p.skullTicks) : Counts now mark p' := by
  constructor
  · rw [hskull, hticks]
    exact h.lasting
  · rw [hskull, hticks]
    exact h.ended

/-- A kill that sets a skull starts its counter. -/
theorem start {days : ℕ} (hskull : p.skull.Lasting)
    (hticks : p.skullTicks = days * 24 * 60 * 60 * 1000) :
    Counts now (some { since := now, days := days }) p := by
  constructor
  · intro _
    refine ⟨_, rfl, ?_⟩
    rw [hticks]
    unfold Mark.kept
    dsimp only
    omega
  · intro hover
    exact absurd hskull hover

theorem think (h : Counts now mark p) {infight : Bool}
    (hext : infight = true → 1 < p.skullTicks) :
    Counts (now + 1) mark (p.checkSkullTicks infight 1) := by
  by_cases hp : p.skull.Lasting
  · obtain ⟨m, hm, hticks, hleft⟩ := h.lasting hp
    by_cases htime : 1 < p.skullTicks
    · have heq : p.checkSkullTicks infight 1 = { p with skullTicks := p.skullTicks - 1 } := by
        unfold Player.checkSkullTicks
        dsimp only
        rw [if_neg (by omega : ¬ p.skullTicks - 1 < 0), if_neg (by omega)]
      rw [heq]
      constructor
      · intro _
        refine ⟨m, hm, ?_⟩
        dsimp only
        omega
      · intro hover
        exact absurd hp hover
    · have hfight : infight = false := by
        rw [← Bool.not_eq_true]
        exact fun hin => htime (hext hin)
      have heq : p.checkSkullTicks infight 1 = { p with skullTicks := 0, skull := .none } := by
        unfold Player.checkSkullTicks
        have hzero : (if p.skullTicks - 1 < 0 then 0 else p.skullTicks - 1) = 0 := by
          split <;> omega
        dsimp only
        rw [hzero, if_pos ⟨hp, by omega, hfight⟩]
      rw [heq]
      constructor
      · rintro (h | h) <;> cases h
      · intro _
        refine ⟨rfl, ?_⟩
        rintro m' hm'
        obtain rfl := Option.mem_unique hm hm'
        omega
  · obtain ⟨hticks, hkept⟩ := h.ended hp
    have heq : p.checkSkullTicks infight 1 = p := by
      unfold Player.checkSkullTicks
      dsimp only
      rw [hticks, if_neg (fun hlast => hp hlast.1)]
      rw [if_pos (by omega), ← hticks]
    rw [heq]
    exact ⟨fun hlast => absurd hlast hp, fun _ => ⟨hticks, fun m hm => by
      have := hkept m hm
      omega⟩⟩

theorem save (hworld : cfg.worldType ≠ .pvpEnforced) (h : Counts now mark p) :
    Keeps now mark (p.save cfg now row) := by
  unfold Player.save
  rw [if_neg hworld]
  by_cases hp : p.skull.Lasting
  · obtain ⟨m, hm, hticks, hleft⟩ := h.lasting hp
    constructor
    · dsimp only
      intro htime
      refine ⟨?_, m, hm, ?_⟩
      · rcases hp with hp | hp
        · simp [hp, Skulls.Lasting]
        · simp [hp, Skulls.Lasting]
      · split at htime
        · next hpos =>
          rw [if_pos hpos]
          omega
        · omega
    · dsimp only
      intro htime m' hm'
      obtain rfl := Option.mem_unique hm hm'
      split at htime <;> omega
  · obtain ⟨hticks, hkept⟩ := h.ended hp
    constructor
    · dsimp only
      rw [hticks]
      intro htime
      simp at htime
    · intro _
      exact hkept

end Counts

/-- A login counts on from the time in the row, two seconds later. -/
theorem Keeps.load (hworld : cfg.worldType ≠ .pvpEnforced) (h : Keeps now mark row) (gap : ℕ) :
    Counts (now + gap) (mark.map (·.login (now + gap)))
      (loadPlayer cfg (now + gap : ℕ) row) := by
  unfold loadPlayer
  rw [if_neg hworld]
  dsimp only
  by_cases htime : 0 < row.skulltime - (now + gap : ℕ)
  · rw [if_pos htime]
    obtain ⟨hlast, m, hm, hkept⟩ := h.lasting (by omega)
    obtain rfl := Option.mem_def.mp hm
    have hlogin : m.login (now + gap) = { m with logins := m.logins + 1 } :=
      if_pos (by omega)
    have hskull : (if row.skull = .red then .red
        else if row.skull = .black then .black else Skulls.none).Lasting := by
      rcases hlast with hlast | hlast
      · simp [hlast, Skulls.Lasting]
      · simp [hlast, Skulls.Lasting]
    constructor
    · intro _
      refine ⟨_, rfl, ?_⟩
      dsimp only
      rw [hlogin]
      unfold Mark.kept at hkept ⊢
      dsimp only
      omega
    · intro hover
      exact absurd hskull hover
  · rw [if_neg htime]
    constructor
    · rintro (h | h) <;> cases h
    · intro _
      refine ⟨rfl, fun m' hm' => ?_⟩
      obtain ⟨m, hm, rfl⟩ := Option.map_eq_some_iff.mp hm'
      have hkept : m.kept ≤ now + gap := by
        by_cases hrow : 0 < row.skulltime
        · obtain ⟨_, m', hm', heq⟩ := h.lasting hrow
          obtain rfl := Option.mem_unique hm hm'
          omega
        · have := h.ended (by omega) m hm
          omega
      have hlogin : m.login (now + gap) = m := if_neg (by omega)
      rw [hlogin]
      exact hkept

namespace Watch

variable {s : Watch} {a : Action}

theorem Law.step (hworld : cfg.worldType ≠ .pvpEnforced) (h : s.Law) (hext : ¬ s.Extends a) :
    (s.step cfg a).Law := by
  obtain ⟨⟨now, player, row⟩, mark⟩ := s
  cases player with
  | none =>
    have hrow := h.offline rfl
    cases a with
    | kill | save | logout => exact ⟨nofun, fun _ => hrow⟩
    | think infight =>
      refine ⟨nofun, fun _ => ⟨hrow.lasting, fun htime m hm => ?_⟩⟩
      exact Nat.le_succ_of_le (hrow.ended htime m hm)
    | login gap =>
      refine ⟨?_, nofun⟩
      rintro p ⟨⟩
      exact hrow.load hworld gap
  | some p =>
    have hp := h.online p rfl
    cases a with
    | kill attacked =>
      refine ⟨?_, nofun⟩
      rintro p ⟨⟩
      unfold Watch.step nextMark
      dsimp only [World.step, Option.bind_some]
      split
      · next days heq =>
        obtain ⟨hskull, hticks⟩ := addUnjustifiedDead_of_some heq
        exact Counts.start hskull hticks
      · next heq =>
        obtain ⟨hskull, hticks⟩ := addUnjustifiedDead_of_none heq
        exact hp.congr hskull hticks
    | think infight =>
      refine ⟨?_, nofun⟩
      rintro p ⟨⟩
      have heq : p.onThink cfg infight 1000 = p.checkSkullTicks infight 1 := if_neg hworld
      show Counts (now + 1) mark (p.onThink cfg infight 1000)
      rw [heq]
      refine hp.think ?_
      rintro rfl
      by_contra htime
      exact hext ⟨rfl, p, rfl, by omega⟩
    | save =>
      refine ⟨?_, nofun⟩
      rintro p ⟨⟩
      exact hp
    | logout => exact ⟨nofun, fun _ => hp.save hworld⟩
    | login gap =>
      refine ⟨?_, nofun⟩
      rintro p ⟨⟩
      exact hp

theorem Law.timely_iff (h : s.Law) : s.Timely ↔ s.Served := by
  constructor
  · intro htimely hon m hm
    obtain ⟨p, hp⟩ := Option.ne_none_iff_exists'.mp hon
    by_cases hlast : p.skull.Lasting
    · exact Or.inl ((htimely p hp m hm).1 hlast)
    · exact Or.inr (((h.online p hp).ended hlast).2 m hm)
  · intro hserved p hp m hm
    have hsince := m.since_le_due
    have hdue := m.due_le_kept
    refine ⟨fun hlast => ?_, fun hlast => ?_⟩
    · obtain ⟨m', hm', hticks, hleft⟩ := (h.online p hp).lasting hlast
      obtain rfl := Option.mem_unique hm hm'
      rcases hserved (by rw [hp]; nofun) m hm with hserved | hserved
      · exact hserved
      · omega
    · have := ((h.online p hp).ended hlast).2 m hm
      omega

theorem law_new (id : ℕ) : Law ⟨.new now id, none⟩ :=
  ⟨nofun, fun _ => ⟨fun h => absurd h (Int.lt_irrefl _), nofun⟩⟩

/-- In a run without extensions the skulls end when their days are over exactly if no player is
online between the end of the days and the end of the counter. -/
theorem timely_iff_served (hworld : cfg.worldType ≠ .pvpEnforced) (now id : ℕ) (run : List Action)
    (hext : Run.Steps (step cfg) (fun s a => ¬ s.Extends a) ⟨.new now id, none⟩ run) :
    (∀ n, ((run.take n).foldl (step cfg) ⟨.new now id, none⟩).Timely) ↔
      ∀ n, ((run.take n).foldl (step cfg) ⟨.new now id, none⟩).Served := by
  refine forall_congr' fun n => Law.timely_iff ?_
  have htake :
      Run.Steps (step cfg) (fun s a => ¬ s.Extends a) ⟨.new now id, none⟩ (run.take n) := by
    rw [← List.take_append_drop n run, Run.steps_append] at hext
    exact hext.1
  exact Run.invariant (fun s a hs => Law.step hworld hs) (law_new id) htake

/-- Three kills, and a login after a time offline. -/
def threeKills (gap : ℕ) : List Action :=
  [.login 0, .kill 2, .kill 3, .kill 4, .logout, .login gap]

theorem timely_iff_served_threeKills :
    (∀ n, (((threeKills 60).take n).foldl (step {}) ⟨.new 0 1, none⟩).Timely) ↔
      ∀ n, (((threeKills 60).take n).foldl (step {}) ⟨.new 0 1, none⟩).Served :=
  timely_iff_served (by decide) 0 1 (threeKills 60) (by simp [threeKills, Extends])

/-- The red skull for 30 days is still there after a year. -/
theorem not_timely_threeKills :
    Run.Steps (step {}) (fun s a => ¬ s.Extends a) ⟨.new 0 1, none⟩
        (threeKills (365 * 24 * 60 * 60)) ∧
      ¬ ((threeKills (365 * 24 * 60 * 60)).foldl (step {}) ⟨.new 0 1, none⟩).Timely := by
  refine ⟨by simp [threeKills, Extends], fun h => ?_⟩
  have hred := (h _ rfl ⟨0, 30, 1⟩ (by decide)).1 (by decide)
  exact absurd hred (by decide)

end Watch

end OTServBR.Skull
