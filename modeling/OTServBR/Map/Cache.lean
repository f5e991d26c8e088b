import Mathlib.Data.Finset.Lattice.Lemmas
import OTServBR.Map.Spectators

/-! # The spectator caches

The full view of a position is kept, for all creatures and for players alone.
A call that fills a cache keeps the whole set it was given, so an entry is right
as long as that set held nothing but what the call finds.
-/

namespace OTServBR.Map

def maxViewportX : Int32 := 11
def maxViewportY : Int32 := 11

structure SpectatorCaches where
  spectatorCache : Position → Option (Finset ℕ) := fun _ => none
  playersSpectatorCache : Position → Option (Finset ℕ) := fun _ => none

/-- The arguments of `getSpectators`, with the set it inserts into. -/
structure Query where
  spectators : Finset ℕ := ∅
  centerPos : Position
  multifloor : Bool := false
  onlyPlayers : Bool := false
  minRangeX : Int32 := 0
  maxRangeX : Int32 := 0
  minRangeY : Int32 := 0
  maxRangeY : Int32 := 0

namespace Query

variable (q : Query)

/-- The floors of a view: all upper ones from the surface, two up and down from below. -/
def zRange : ℤ × ℤ :=
  let z : ℤ := q.centerPos.z.toNat
  if q.multifloor then
    if z > 7 then (max (z - 2) 0, min (z + 2) (MAP_MAX_LAYERS - 1))
    else if z = 6 then (0, 8)
    else if z = 7 then (0, 9)
    else (0, 7)
  else (z, z)

/-- The ranges of the scan. -/
def ranges : Ranges where
  minRangeX := if q.minRangeX = 0 then -maxViewportX else -q.minRangeX
  maxRangeX := if q.maxRangeX = 0 then maxViewportX else q.maxRangeX
  minRangeY := if q.minRangeY = 0 then -maxViewportY else -q.minRangeY
  maxRangeY := if q.maxRangeY = 0 then maxViewportY else q.maxRangeY
  minRangeZ := Int32.ofInt q.zRange.1
  maxRangeZ := Int32.ofInt q.zRange.2

/-- A query that the caches serve. -/
def isView : Bool :=
  q.ranges.minRangeX = -maxViewportX ∧ q.ranges.maxRangeX = maxViewportX ∧
    q.ranges.minRangeY = -maxViewportY ∧ q.ranges.maxRangeY = maxViewportY ∧ q.multifloor

end Query

variable (m : Map) (isPlayer : ℕ → Bool) (caches : SpectatorCaches) (q : Query)

/-- The set with the creatures of a cache entry. -/
def insertCached (spectators cached : Finset ℕ) : Finset ℕ :=
  if spectators ≠ ∅ then spectators ∪ cached else cached

/-- What a cache has for a query. -/
def foundCache : Option (Finset ℕ) :=
  if q.isView then
    match if q.onlyPlayers then caches.playersSpectatorCache q.centerPos else none with
    | some cached => some (insertCached q.spectators cached)
    | none =>
      match caches.spectatorCache q.centerPos with
      | some cached =>
        if q.onlyPlayers then some (q.spectators ∪ cached.filter fun c => isPlayer c)
        else some (insertCached q.spectators cached)
      | none => none
  else none

def getSpectators : Finset ℕ × SpectatorCaches :=
  if MAP_MAX_LAYERS ≤ q.centerPos.z.toNat then (q.spectators, caches)
  else
    match foundCache isPlayer caches q with
    | some spectators => (spectators, caches)
    | none =>
      let spectators :=
        m.getSpectatorsInternal q.ranges q.centerPos q.onlyPlayers q.spectators
      if q.isView then
        if q.onlyPlayers then
          (spectators, { caches with
            playersSpectatorCache :=
              Function.update caches.playersSpectatorCache q.centerPos (some spectators) })
        else
          (spectators, { caches with
            spectatorCache := Function.update caches.spectatorCache q.centerPos (some spectators) })
      else (spectators, caches)

inductive Call
  | getSpectators (q : Query)
  | clearSpectatorCache

def call (caches : SpectatorCaches) : Call → SpectatorCaches
  | .getSpectators q => (m.getSpectators isPlayer caches q).2
  | .clearSpectatorCache => {}

/-- The caches after a sequence of calls while the creatures stay. -/
def run (calls : List Call) : SpectatorCaches := calls.foldl (m.call isPlayer) {}

/-! ## Views -/

variable {m : Map} {isPlayer : ℕ → Bool} {caches : SpectatorCaches} {q : Query}

namespace Query

/-- The view of a position. -/
def view (centerPos : Position) (onlyPlayers : Bool) : Query where
  centerPos := centerPos
  multifloor := true
  onlyPlayers := onlyPlayers

theorem ranges_eq_of_isView (h : q.isView) :
    q.ranges = (view q.centerPos q.onlyPlayers).ranges := by
  unfold isView at h
  obtain ⟨hminX, hmaxX, hminY, hmaxY, hmultifloor⟩ := of_decide_eq_true h
  have hz : q.zRange = (view q.centerPos q.onlyPlayers).zRange := by
    unfold zRange
    rw [hmultifloor]
    rfl
  unfold ranges at hminX hmaxX hminY hmaxY ⊢
  simp only [Ranges.mk.injEq]
  exact ⟨hminX, hmaxX, hminY, hmaxY, by rw [hz], by rw [hz]⟩

theorem zRange_mem (h : q.centerPos.z.toNat < MAP_MAX_LAYERS) :
    (0 ≤ q.zRange.1 ∧ q.zRange.1 < 16) ∧ 0 ≤ q.zRange.2 ∧ q.zRange.2 < 16 := by
  have hlayers : MAP_MAX_LAYERS = 16 := rfl
  unfold zRange
  dsimp only
  split_ifs <;> omega

theorem fits_of_isView (h : q.isView) (hz : q.centerPos.z.toNat < MAP_MAX_LAYERS) :
    q.ranges.Fits q.centerPos := by
  unfold isView at h
  obtain ⟨hminX, hmaxX, hminY, hmaxY, -⟩ := of_decide_eq_true h
  obtain ⟨hz₁, hz₂⟩ := zRange_mem hz
  have hlayers : MAP_MAX_LAYERS = 16 := rfl
  have hx := q.centerPos.x.toNat_lt
  have hy := q.centerPos.y.toNat_lt
  have hminZ : q.ranges.minRangeZ.toInt = q.zRange.1 :=
    Int32.toInt_ofInt_of_le (by omega) (by omega)
  have hmaxZ : q.ranges.maxRangeZ.toInt = q.zRange.2 :=
    Int32.toInt_ofInt_of_le (by omega) (by omega)
  have hminoffset : q.ranges.minoffset q.centerPos = q.centerPos.z.toNat - q.zRange.2 := by
    rw [Ranges.minoffset, hmaxZ]
    exact Int32.toInt_ofInt_of_le (by omega) (by omega)
  have hmaxoffset : q.ranges.maxoffset q.centerPos = q.centerPos.z.toNat - q.zRange.1 := by
    rw [Ranges.maxoffset, hminZ]
    exact Int32.toInt_ofInt_of_le (by omega) (by omega)
  have hX : (-maxViewportX).toInt = -11 ∧ maxViewportX.toInt = 11 := by decide
  have hY : (-maxViewportY).toInt = -11 ∧ maxViewportY.toInt = 11 := by decide
  intro v hv
  unfold Ranges.sums Ranges.min_x Ranges.max_x Ranges.min_y Ranges.max_y at hv
  rw [hminoffset, hmaxoffset, hminX, hmaxX, hminY, hmaxY, hminZ, hmaxZ, hX.1, hX.2, hY.1,
    hY.2] at hv
  simp only [List.mem_cons, List.not_mem_nil, or_false] at hv
  omega

end Query

/-- What the scan of a query finds; a centre off the map has no scan. -/
def scan (m : Map) (q : Query) : Finset ℕ :=
  if MAP_MAX_LAYERS ≤ q.centerPos.z.toNat then ∅
  else m.getSpectatorsInternal q.ranges q.centerPos q.onlyPlayers ∅

theorem Linked.getSpectatorsInternal_union (h : Linked m) {r : Ranges} {centerPos : Position}
    {onlyPlayers : Bool} {spectators : Finset ℕ} :
    m.getSpectatorsInternal r centerPos onlyPlayers spectators =
      spectators ∪ m.getSpectatorsInternal r centerPos onlyPlayers ∅ := by
  ext c
  rw [Finset.mem_union]
  unfold getSpectatorsInternal
  refine (mem_scanRows h rfl).trans (or_congr_right ?_)
  refine Iff.trans ?_ (mem_scanRows h rfl).symm
  rw [or_iff_right (Finset.notMem_empty c)]

/-- The scan of a view is the filter over all creatures. -/
theorem Settled.scan_eq (h : Settled isPlayer m) (hview : q.isView)
    (hz : q.centerPos.z.toNat < MAP_MAX_LAYERS) :
    m.scan q = m.inRange isPlayer q.ranges q.centerPos q.onlyPlayers := by
  rw [scan, if_neg (Nat.not_le.mpr hz), h.getSpectatorsInternal_eq (Query.fits_of_isView hview hz),
    Finset.empty_union]

/-! ## Entries -/

/-- Every entry of the caches is what the scan finds. -/
structure Fresh (m : Map) (caches : SpectatorCaches) : Prop where
  spectatorCache : ∀ {pos cached}, caches.spectatorCache pos = some cached →
    cached = m.scan (Query.view pos false)
  playersSpectatorCache : ∀ {pos cached}, caches.playersSpectatorCache pos = some cached →
    cached = m.scan (Query.view pos true)

theorem fresh_empty : Fresh m {} := by
  constructor
  · intro pos cached h
    cases h
  · intro pos cached h
    cases h

theorem insertCached_eq (spectators cached : Finset ℕ) :
    insertCached spectators cached = spectators ∪ cached := by
  unfold insertCached
  split
  · rfl
  · next h =>
    rw [not_not.mp h, Finset.empty_union]

theorem scan_eq_view (hview : q.isView) :
    m.scan q = m.scan (Query.view q.centerPos q.onlyPlayers) := by
  unfold scan
  rw [Query.ranges_eq_of_isView hview]
  rfl

/-- The players of a view are the players among its creatures. -/
theorem Settled.scan_players (h : Settled isPlayer m) {pos : Position}
    (hz : pos.z.toNat < MAP_MAX_LAYERS) :
    (m.scan (Query.view pos false)).filter (fun c => isPlayer c) =
      m.scan (Query.view pos true) := by
  rw [h.scan_eq (q := Query.view pos false) rfl hz, h.scan_eq (q := Query.view pos true) rfl hz]
  unfold inRange
  rw [Finset.filter_filter]
  refine Finset.filter_congr fun c _ => ?_
  constructor
  · exact fun hc => ⟨fun _ => hc.2, hc.1.2⟩
  · exact fun hc => ⟨⟨nofun, hc.2⟩, hc.1 rfl⟩

theorem Settled.foundCache_eq (h : Settled isPlayer m) (hfresh : Fresh m caches)
    (hz : q.centerPos.z.toNat < MAP_MAX_LAYERS) {spectators : Finset ℕ}
    (hfound : foundCache isPlayer caches q = some spectators) :
    spectators = q.spectators ∪ m.scan q := by
  unfold foundCache at hfound
  split at hfound
  · next hview =>
    rw [scan_eq_view hview]
    split at hfound
    · next cached hcached =>
      rw [← Option.some.inj hfound, insertCached_eq]
      split at hcached
      · next hplayers =>
        rw [hfresh.playersSpectatorCache hcached, hplayers]
      · cases hcached
    · split at hfound
      · next cached hcached =>
        rw [hfresh.spectatorCache hcached] at hfound
        split at hfound
        · next hplayers =>
          rw [← Option.some.inj hfound, h.scan_players hz, hplayers]
        · next hplayers =>
          rw [Bool.not_eq_true] at hplayers
          rw [← Option.some.inj hfound, insertCached_eq, hplayers]
      · cases hfound
  · cases hfound

/-- A call whose result is put into a cache. -/
def fills (isPlayer : ℕ → Bool) (caches : SpectatorCaches) (q : Query) : Bool :=
  decide (q.centerPos.z.toNat < MAP_MAX_LAYERS) && q.isView &&
    (foundCache isPlayer caches q).isNone

theorem fills_iff : fills isPlayer caches q ↔
    q.centerPos.z.toNat < MAP_MAX_LAYERS ∧ q.isView ∧ foundCache isPlayer caches q = none := by
  rw [fills, Bool.and_eq_true, Bool.and_eq_true, decide_eq_true_iff, and_assoc,
    Option.isNone_iff_eq_none]

/-- Fresh caches make no difference to the result. -/
theorem Settled.getSpectators_eq (h : Settled isPlayer m) (hfresh : Fresh m caches) (q : Query) :
    (m.getSpectators isPlayer caches q).1 = q.spectators ∪ m.scan q := by
  unfold getSpectators
  split
  · next hz => rw [scan, if_pos hz, Finset.union_empty]
  · next hz =>
    split
    · next spectators hfound => exact h.foundCache_eq hfresh (Nat.lt_of_not_le hz) hfound
    · dsimp only
      rw [scan, if_neg hz, ← h.linked.getSpectatorsInternal_union]
      split_ifs <;> rfl

/-- The entry that a call puts into a cache. -/
theorem Linked.call_of_fills (h : Linked m) (hfills : fills isPlayer caches q) :
    m.call isPlayer caches (.getSpectators q) =
      if q.onlyPlayers then { caches with
        playersSpectatorCache := Function.update caches.playersSpectatorCache q.centerPos
          (some (q.spectators ∪ m.scan q)) }
      else { caches with
        spectatorCache := Function.update caches.spectatorCache q.centerPos
          (some (q.spectators ∪ m.scan q)) } := by
  obtain ⟨hz, hview, hnone⟩ := fills_iff.mp hfills
  have hz' := Nat.not_le.mpr hz
  rw [call, getSpectators, if_neg hz', hnone, scan, if_neg hz', ← h.getSpectatorsInternal_union]
  dsimp only
  rw [if_pos hview]
  split <;> rfl

theorem call_of_not_fills (hfills : ¬fills isPlayer caches q) :
    m.call isPlayer caches (.getSpectators q) = caches := by
  rw [fills_iff] at hfills
  rw [call, getSpectators]
  split
  · rfl
  · next hz =>
    split
    · rfl
    · next hnone =>
      have hview : ¬q.isView := fun hview => hfills ⟨Nat.lt_of_not_le hz, hview, hnone⟩
      dsimp only
      rw [if_neg hview]

theorem fresh_update {cache : Position → Option (Finset ℕ)} {players : Bool} {p : Position}
    (h : ∀ {pos cached}, cache pos = some cached → cached = m.scan (Query.view pos players)) :
    ∀ {pos cached}, Function.update cache p (some (m.scan (Query.view p players))) pos =
      some cached → cached = m.scan (Query.view pos players) := by
  intro pos cached hcached
  rw [Function.update_apply] at hcached
  split at hcached
  · next hpos => rw [hpos, Option.some.inj hcached]
  · exact h hcached

/-- A call leaves the caches fresh when its set holds nothing but what it finds. -/
theorem Fresh.getSpectators (hfresh : Fresh m caches) (h : Settled isPlayer m)
    (hsub : fills isPlayer caches q → q.spectators ⊆ m.scan q) :
    Fresh m (m.call isPlayer caches (.getSpectators q)) := by
  by_cases hfills : fills isPlayer caches q
  · have hview := (fills_iff.mp hfills).2.1
    rw [h.linked.call_of_fills hfills, Finset.union_eq_right.mpr (hsub hfills), scan_eq_view hview]
    split
    · next hplayers =>
      rw [hplayers]
      exact ⟨hfresh.spectatorCache, fresh_update hfresh.playersSpectatorCache⟩
    · next hplayers =>
      rw [Bool.not_eq_true] at hplayers
      rw [hplayers]
      exact ⟨fresh_update hfresh.spectatorCache, hfresh.playersSpectatorCache⟩
  · rw [call_of_not_fills hfills]
    exact hfresh

/-! ## Runs -/

theorem run_concat (calls : List Call) (c : Call) :
    m.run isPlayer (calls ++ [c]) = m.call isPlayer (m.run isPlayer calls) c := by
  rw [run, run, List.foldl_append]
  rfl

/-- The next query for the same view returns what was put into the cache. -/
theorem Linked.getSpectators_again (h : Linked m) (hfills : fills isPlayer caches q) :
    (m.getSpectators isPlayer (m.call isPlayer caches (.getSpectators q))
      { q with spectators := ∅ }).1 = q.spectators ∪ m.scan q := by
  obtain ⟨hz, hview, -⟩ := fills_iff.mp hfills
  have hview' : ({ q with spectators := ∅ } : Query).isView := hview
  rw [Map.getSpectators, if_neg (Nat.not_le.mpr hz), foundCache, if_pos hview',
    h.call_of_fills hfills]
  dsimp only
  by_cases hplayers : q.onlyPlayers
  · rw [if_pos hplayers, if_pos hplayers]
    dsimp only
    rw [Function.update_self]
    dsimp only
    rw [insertCached_eq, Finset.empty_union]
  · rw [if_neg hplayers, if_neg hplayers]
    dsimp only
    rw [Function.update_self]
    dsimp only
    rw [if_neg hplayers]
    dsimp only
    rw [insertCached_eq, Finset.empty_union]

/-- Along a run every query returns its set with what the scan finds exactly if every call
that fills a cache is given creatures of its own view only. -/
theorem getSpectators_run_iff (isPlayer : ℕ → Bool) (ops : List Op) (calls : List Call) :
    let m := build isPlayer ops
    (∀ pre, pre <+: calls → ∀ q : Query,
        (m.getSpectators isPlayer (m.run isPlayer pre) q).1 = q.spectators ∪ m.scan q) ↔
      ∀ pre q, pre ++ [.getSpectators q] <+: calls → fills isPlayer (m.run isPlayer pre) q →
        q.spectators ⊆ m.inRange isPlayer q.ranges q.centerPos q.onlyPlayers := by
  intro m
  have hsettled : Settled isPlayer m := settled_build isPlayer ops
  constructor
  · intro h pre q hpre hfills
    obtain ⟨hz, hview, -⟩ := fills_iff.mp hfills
    have hagain := h _ hpre { q with spectators := ∅ }
    rw [run_concat, hsettled.linked.getSpectators_again hfills, Finset.empty_union] at hagain
    rw [← hsettled.scan_eq hview hz]
    exact Finset.union_eq_right.mp hagain
  · intro h pre
    have hfresh : pre <+: calls → Fresh m (m.run isPlayer pre) := by
      induction pre using List.reverseRecOn with
      | nil => exact fun _ => fresh_empty
      | append_singleton pre c ih =>
        intro hpre
        have hfresh := ih ((List.prefix_append pre [c]).trans hpre)
        rw [run_concat]
        cases c with
        | getSpectators q =>
          apply hfresh.getSpectators hsettled
          intro hfills
          obtain ⟨hz, hview, -⟩ := fills_iff.mp hfills
          rw [hsettled.scan_eq hview hz]
          exact h pre q hpre hfills
        | clearSpectatorCache => exact fresh_empty
    exact fun hpre => hsettled.getSpectators_eq (hfresh hpre)

/-- Two creatures far apart. -/
def twoCreatures : List Op :=
  [.setTile 100 100 7, .placeCreature 1 { x := 100, y := 100, z := 7 },
    .setTile 200 200 7, .placeCreature 2 { x := 200, y := 200, z := 7 }]

/-- A creature leaves the one place for the other: both views are read into one set. -/
def teleportCalls : List Call :=
  [.getSpectators { centerPos := { x := 100, y := 100, z := 7 }, multifloor := true },
    .getSpectators
      { spectators := {1}, centerPos := { x := 200, y := 200, z := 7 }, multifloor := true }]

theorem polluted_view :
    ¬∀ (isPlayer : ℕ → Bool) (ops : List Op) (calls : List Call) (q : Query),
      ((build isPlayer ops).getSpectators isPlayer ((build isPlayer ops).run isPlayer calls) q).1 =
        q.spectators ∪ (build isPlayer ops).scan q := by
  intro h
  have hview := h (fun _ => false) twoCreatures teleportCalls
    { centerPos := { x := 200, y := 200, z := 7 }, multifloor := true }
  revert hview
  decide

end OTServBR.Map
