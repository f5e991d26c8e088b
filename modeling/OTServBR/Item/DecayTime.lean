import OTServBR.Item.Decay

/-! # The time of decay

Durations are whole seconds or nothing. After a visit that takes time from an
item, the item is in none of the buckets of the next three ticks, and so a second
of ticks takes a second at most.
-/

namespace OTServBR.Decay

variable {types : UInt16 → ItemType}

/-- No time of a type leaves the numbers of a signed word. -/
def WellTimed (types : UInt16 → ItemType) : Prop := ∀ id, (types id).decayTime ≤ 2147483

def Item.time (item : Item) : ℤ := item.getDuration.toInt

/-- Nothing is left, or a second at least. -/
def Item.Full (item : Item) : Prop := item.time = 0 ∨ 1000 ≤ item.time

namespace Item

variable {item item' : Item} {newId : UInt16}

theorem newDuration_time (h : WellTimed types) (hpos : 0 < (types newId).newDuration) :
    1000 ≤ (types newId).newDuration.toInt32.toInt := by
  have hle : (types newId).decayTime.toNat ≤ 2147483 := UInt32.le_iff_toNat_le.mp (h newId)
  have hnat : (types newId).newDuration.toNat = (types newId).decayTime.toNat * 1000 := by
    rw [ItemType.newDuration, UInt32.toNat_mul]
    refine Nat.mod_eq_of_lt ?_
    change _ * 1000 < _
    omega
  have hint : (types newId).newDuration.toInt32.toInt = (types newId).newDuration.toNat := by
    have hbits : (types newId).newDuration.toInt32.toInt =
        (types newId).newDuration.toBitVec.toInt := rfl
    rw [hbits, BitVec.toInt_eq_toNat_of_lt]
    · rfl
    · rw [UInt32.toNat_toBitVec]
      omega
  have hpos' := UInt32.lt_iff_toNat_lt.mp hpos
  change 0 < _ at hpos'
  omega

theorem Renamed.time (h : item.Renamed types newId item') (htypes : WellTimed types) :
    item'.time = item.time ∨ item'.time = 0 ∨ item.renews types newId ∧ 1000 ≤ item'.time := by
  rcases h.duration with hduration | ⟨-, hduration⟩
  · unfold Item.time
    rw [hduration]
    unfold setID
    dsimp only
    split
    · rename_i hrenews
      right; right
      refine ⟨hrenews, newDuration_time htypes ?_⟩
      rw [renews, Bool.and_eq_true] at hrenews
      exact of_decide_eq_true hrenews.1
    · split
      · exact Or.inr (Or.inl rfl)
      · exact Or.inl rfl
  · left
    unfold Item.time
    rw [hduration]

end Item

namespace Game

variable {g g' : Game} {i x n m : ℕ} {newId : UInt16} {newCount : Option ℕ} {rest : List ℕ}
  {depth : ℕ}

/-! ## The time of one item -/

/-- The buckets of an item and the turn are the same in both games. -/
structure SamePlace (g g' : Game) (x : ℕ) : Prop where
  bucket : ∀ b, x ∈ g'.wheel.buckets b ↔ x ∈ g.wheel.buckets b
  last : g'.wheel.last = g.wheel.last

theorem SamePlace.refl (g : Game) (x : ℕ) : SamePlace g g x := ⟨fun _ => Iff.rfl, rfl⟩

theorem SamePlace.trans {g'' : Game} (h : SamePlace g g' x) (h' : SamePlace g' g'' x) :
    SamePlace g g'' x :=
  ⟨fun b => (h'.bucket b).trans (h.bucket b), h'.last.trans h.last⟩

theorem Keeps.samePlace (h : Keeps g g' x) : SamePlace g g' x := by
  refine ⟨fun b => ?_, h.last⟩
  rw [← List.count_pos_iff, ← List.count_pos_iff, h.bucket b]

theorem Transformed.samePlace {r : Game × Option ℕ}
    (h : Transformed types g i newId newCount r) : SamePlace g r.1 x := by
  cases h with
  | unchanged r hstays hr => exact .refl g x
  | inPlace item hchanges hitem => exact ⟨fun _ => Iff.rfl, rfl⟩
  | removed => exact ⟨fun _ => Iff.rfl, rfl⟩
  | replaced id count => exact ⟨fun _ => Iff.rfl, rfl⟩
  | queued id count => exact ⟨fun _ => Iff.rfl, rfl⟩

theorem Transformed.entries {r : Game × Option ℕ} (h : Transformed types g i newId newCount r)
    (hi : i < g.next) : r.1.wheel.entries i = g.wheel.entries i := by
  cases h with
  | queued id count => exact (queue_keeps (g := g.replaceThing types i id count) hi.ne).entries
  | _ => rfl

theorem Transformed.time {r : Game × Option ℕ} (h : Transformed types g i newId newCount r)
    (hi : i < g.next) (htypes : WellTimed types) :
    (r.1.items i).time = (g.items i).time ∨ (r.1.items i).time = 0 ∨
      (g.items i).changesId types newId newCount ∧ (g.items i).renews types newId ∧
        1000 ≤ (r.1.items i).time := by
  have haway (id : UInt16) (count : ℕ) :
      ((g.replaceThing types i id count).items i).time = (g.items i).time := by
    simp [replaceThing, takeAway, modifyItem, setItem, hi.ne, Item.time, Item.getDuration]
  cases h with
  | unchanged r hstays hr => exact Or.inl rfl
  | inPlace item hchanges hitem =>
    have hnew : (g.setItem i item).items i = item := Function.update_self _ _ _
    rw [hnew]
    rcases hitem.time htypes with h | h | ⟨hrenews, h⟩
    · exact Or.inl h
    · exact Or.inr (Or.inl h)
    · exact Or.inr (Or.inr ⟨hchanges, hrenews, h⟩)
  | removed => exact Or.inl (by simp [takeAway, modifyItem, setItem, Item.time, Item.getDuration])
  | replaced id count => exact Or.inl (haway id count)
  | queued id count =>
    left
    rw [(queue_keeps (g := g.replaceThing types i id count) hi.ne).item]
    exact haway id count

theorem Transformed.full {r : Game × Option ℕ} (h : Transformed types g i newId newCount r)
    (hi : i < g.next) (htypes : WellTimed types) (hfull : (g.items i).Full) :
    (r.1.items i).Full := by
  unfold Item.Full at hfull ⊢
  rcases h.time hi htypes with h | h | ⟨-, -, h⟩ <;> omega

theorem Transformed.next_le {r : Game × Option ℕ}
    (h : Transformed types g i newId newCount r) : g.next ≤ r.1.next := by
  cases h with
  | replaced id count => exact Nat.le_succ _
  | queued id count => exact Nat.le_succ _
  | _ => exact le_rfl

theorem decayWith_next_le {f : Game → ℕ → Game} (hf : ∀ g j, g.next ≤ (f g j).next) :
    g.next ≤ (g.decayWith types f i).next := by
  unfold decayWith
  dsimp only
  split
  · have hnext := (@transformItem_spec types g i
      (types (g.items i).id).decayTo.toUInt32.toUInt16 none).next_le
    split
    · rename_i g' hr
      rw [hr] at hnext
      exact hnext
    · rename_i g' j hr
      rw [hr] at hnext
      exact hnext.trans (hf g' j)
  · unfold internalRemoveItem
    split
    · exact le_rfl
    split <;> exact le_rfl

theorem startDecay_next_le (depth : ℕ) (g : Game) (i : ℕ) :
    g.next ≤ (g.startDecay types depth i).next := by
  induction depth generalizing g i with
  | zero => exact le_rfl
  | succ depth ih =>
    unfold startDecay
    split
    · exact le_rfl
    split
    · exact le_rfl
    split
    · exact le_rfl
    · exact decayWith_next_le ih

theorem visit_next_le (bucket : Fin 4) : g.next ≤ (g.visit types depth bucket i).next := by
  have hset (item : Item) : g.next ≤ ((g.setItem i item).internalDecayItem types depth i).next :=
    decayWith_next_le (g := g.setItem i item) (startDecay_next_le depth)
  unfold visit
  dsimp only
  split
  · exact le_rfl
  split
  · exact hset _
  split
  · split
    · exact hset _
    · exact le_rfl
  · exact le_rfl

theorem decayWith_full (htypes : WellTimed types)
    (hstart : ∀ g' : Game, i < g'.next → (g'.items i).Full →
      ((g'.startDecay types depth i).items i).Full ∧ SamePlace g' (g'.startDecay types depth i) i)
    (hi : i < g.next) (hfull : (g.items i).Full) :
    ((g.decayWith types (startDecay types depth) i).items i).Full ∧
      SamePlace g (g.decayWith types (startDecay types depth) i) i := by
  unfold decayWith
  dsimp only
  split
  · have hspec := @transformItem_spec types g i
      (types (g.items i).id).decayTo.toUInt32.toUInt16 none
    have hfull' := hspec.full hi htypes hfull
    have hplace := hspec.samePlace (x := i)
    split
    · rename_i g' hr
      rw [hr] at hfull' hplace
      exact ⟨hfull', hplace⟩
    · rename_i g' j hr
      have hnext := hspec.next_le
      have hresult := hspec.result (j := j) (by rw [hr])
      rw [hr] at hfull' hplace hnext
      have hi' : i < g'.next := hi.trans_le hnext
      rcases hresult with rfl | rfl
      · obtain ⟨hend, hsame⟩ := hstart g' hi' hfull'
        exact ⟨hend, hplace.trans hsame⟩
      · have hkeeps := @startDecay_keeps types _ depth g' g.next hi.ne hi'
        rw [hkeeps.item]
        exact ⟨hfull', hplace.trans hkeeps.samePlace⟩
  · unfold internalRemoveItem
    split
    · exact ⟨hfull, .refl g i⟩
    split
    · exact ⟨hfull, .refl g i⟩
    · refine ⟨?_, fun _ => Iff.rfl, rfl⟩
      simpa [takeAway, modifyItem, setItem, Item.Full, Item.time, Item.getDuration] using hfull

/-- The start of a decay leaves an item a second or nothing, and in its bucket. -/
theorem startDecay_full (htypes : WellTimed types) (depth : ℕ) (g : Game) (hi : i < g.next)
    (hfull : (g.items i).Full) :
    ((g.startDecay types depth i).items i).Full ∧ SamePlace g (g.startDecay types depth i) i := by
  induction depth generalizing g with
  | zero => exact ⟨hfull, .refl g i⟩
  | succ depth ih =>
    unfold startDecay
    split
    · exact ⟨hfull, .refl g i⟩
    split
    · exact ⟨hfull, .refl g i⟩
    split
    · refine ⟨?_, fun _ => Iff.rfl, rfl⟩
      have hitem : (g.queue i).items i = { g.items i with decayState := .decaying } :=
        Function.update_self _ _ _
      rw [hitem]
      exact hfull
    · exact decayWith_full htypes ih hi hfull

/-- Where an item has something left when its decay starts, its time is untouched. -/
theorem startDecay_time (depth : ℕ) (g : Game) (hleft : (g.items i).getDuration ≠ 0) :
    ((g.startDecay types depth i).items i).time = (g.items i).time ∧
      SamePlace g (g.startDecay types depth i) i := by
  cases depth with
  | zero => exact ⟨rfl, .refl g i⟩
  | succ depth =>
    unfold startDecay
    split
    · exact ⟨rfl, .refl g i⟩
    split
    · exact ⟨rfl, .refl g i⟩
    refine ⟨?_, fun _ => Iff.rfl, rfl⟩
    have hitem : (g.queue i).items i = { g.items i with decayState := .decaying } :=
      Function.update_self _ _ _
    rw [hitem]
    rfl

/-- For the next `m` ticks nothing is taken from the item. -/
def Calm (g : Game) (m x : ℕ) : Prop :=
  (g.items x).time = 0 ∨ 1000 ≤ (g.items x).time ∧
    ∀ k, 1 ≤ k → k ≤ m → x ∉ g.wheel.buckets (Wheel.turn g.wheel.last k)

theorem Calm.mono {m' : ℕ} (h : Calm g m x) (hm : m' ≤ m) : Calm g m' x :=
  h.imp_right fun ⟨htime, hbuckets⟩ => ⟨htime, fun k hk hkm => hbuckets k hk (hkm.trans hm)⟩

theorem Calm.full (h : Calm g m x) : (g.items x).Full := h.imp_right And.left

theorem Calm.of_samePlace (h : Calm g m x) (hplace : SamePlace g g' x)
    (htime : (g'.items x).time = (g.items x).time) : Calm g' m x := by
  unfold Calm
  rw [htime, hplace.last]
  refine h.imp_right fun ⟨hlow, hbuckets⟩ => ⟨hlow, fun k hk hkm => ?_⟩
  rw [hplace.bucket]
  exact hbuckets k hk hkm

/-- An item that stands nowhere is calm. -/
theorem calm_of_nowhere (hfull : (g.items x).Full) (hnowhere : ∀ b, x ∉ g.wheel.buckets b) :
    Calm g m x :=
  hfull.imp_right fun htime => ⟨htime, fun _ _ _ => hnowhere _⟩

theorem Keeps.calm (h : Keeps g g' x) (hcalm : Calm g m x) : Calm g' m x :=
  hcalm.of_samePlace h.samePlace (by rw [h.item])

/-! ## Calm between the ticks -/

theorem transformItem_calm (htypes : WellTimed types) (hx : x < g.next) (hcalm : Calm g m x)
    (hsafe : g.Safe types (.transformItem i newId newCount)) :
    Calm (g.transformItem types i newId newCount).1 m x := by
  have hspec := @transformItem_spec types g i newId newCount
  by_cases hxi : x = i
  · subst hxi
    rcases hspec.time hx htypes with htime | htime | ⟨hchanges, hrenews, htime⟩
    · exact hcalm.of_samePlace hspec.samePlace htime
    · exact Or.inl htime
    · have hsafe := hsafe hchanges
      split at hsafe
      · rename_i hnone
        refine calm_of_nowhere (Or.inr htime) fun b => ?_
        rw [hspec.samePlace.bucket b]
        exact (Wheel.entries_eq_zero.mp hnone).2 b
      · exact absurd hrenews hsafe
  · exact (hspec.keeps hxi hx).calm hcalm

theorem time_eq_zero {item : Item} : item.time = 0 ↔ item.getDuration = 0 := by
  rw [Item.time, ← Int32.toInt_inj]
  rfl

theorem startDecay_calm (htypes : WellTimed types) (hx : x < g.next) (hcalm : Calm g m x)
    (hsafe : g.Safe types (.startDecay i)) : Calm (g.startDecay types depth i) m x := by
  by_cases hxi : x = i
  · subst hxi
    by_cases hleft : (g.items x).getDuration = 0
    · obtain ⟨hfull, hplace⟩ := startDecay_full htypes depth g hx hcalm.full
      by_cases hstarts : (g.items x).canDecay types ∧ (g.items x).decayState ≠ .decaying
      · refine calm_of_nowhere hfull fun b => ?_
        rw [hplace.bucket b]
        exact (Wheel.entries_eq_zero.mp (hsafe hstarts.1 hstarts.2)).2 b
      · have hsame : g.startDecay types depth x = g := by
          cases depth with
          | zero => rfl
          | succ depth =>
            unfold startDecay
            split
            · rfl
            rename_i hdecay
            rw [if_pos]
            by_contra hstate
            exact hstarts ⟨by simpa using hdecay, hstate⟩
        rw [hsame]
        exact hcalm
    · obtain ⟨htime, hplace⟩ := @startDecay_time types _ depth g hleft
      exact hcalm.of_samePlace hplace htime
  · exact (startDecay_keeps depth g i hxi hx).calm hcalm

theorem place_of_full (h : 1000 ≤ (g.items x).time) : g.place x = g.wheel.last := by
  unfold place
  refine if_pos ?_
  rw [UInt32.le_iff_toNat_le]
  have hbits : (g.items x).time = (g.items x).getDuration.toBitVec.toInt := rfl
  have hnat : (g.items x).getDuration.toUInt32.toNat = (g.items x).getDuration.toBitVec.toNat := rfl
  rw [hbits, BitVec.toInt_eq_toNat_cond] at h
  rw [hnat]
  change 1000 ≤ _
  split at h <;> omega

theorem mem_cleanup_buckets {b : Fin 4} : x ∈ g.cleanup.wheel.buckets b ↔
    x ∈ g.wheel.buckets b ∨ x ∈ g.wheel.pending ∧ g.place x = b := by
  simp [cleanup, Wheel.flush_buckets]

theorem cleanup_calm (hm : m ≤ 3) (hcalm : Calm g m x) : Calm g.cleanup m x := by
  refine hcalm.imp_right fun ⟨htime, hbuckets⟩ => ⟨htime, fun k hk hkm => ?_⟩
  have hlast : g.cleanup.wheel.last = g.wheel.last := Wheel.flush_last _
  rw [hlast, mem_cleanup_buckets]
  rintro (hmem | ⟨-, hplace⟩)
  · exact hbuckets k hk hkm hmem
  · rw [place_of_full htime] at hplace
    have hne := @Wheel.turn_ne _ _ g.wheel.last 0 k (by omega) (by omega)
    rw [Wheel.turn_zero] at hne
    exact hne hplace

/-! ## What a tick takes -/

theorem visitAll_keeps (bucket : Fin 4) (l : List ℕ) (g : Game) (hx : x ∉ l)
    (hnext : x < g.next) : Keeps g (l.foldl (visit types depth bucket) g) x := by
  induction l generalizing g with
  | nil => exact .refl g x
  | cons i l ih =>
    obtain ⟨hi, hl⟩ := not_or.mp (List.mem_cons.not.mp hx)
    have hvisit := @visit_keeps types _ _ _ depth bucket hi hnext
    exact hvisit.trans (ih _ hl (hnext.trans_le hvisit.next))

/-- What a visit does to an item that stands nowhere else. -/
theorem visit_time (htypes : WellTimed types) (bucket : Fin 4) (hi : i < g.next)
    (hnone : g.wheel.entries i = 0) (hwell : visitsWell types (g.items i)) :
    (((g.visit types depth bucket i).items i).time = (g.items i).time ∧
        (g.visit types depth bucket i).wheel.entries i = 0) ∨
      ((g.items i).time ≤ 1000 ∧ ((g.visit types depth bucket i).items i).Full ∧
        ∀ b, i ∉ (g.visit types depth bucket i).wheel.buckets b) ∨
      (2000 ≤ (g.items i).time ∧
        ((g.visit types depth bucket i).items i).time = (g.items i).time - 1000 ∧
        i ∉ (g.visit types depth bucket i).wheel.pending ∧
        ∀ b, i ∈ (g.visit types depth bucket i).wheel.buckets b → b = bucket) := by
  obtain ⟨hpending, hbuckets⟩ := Wheel.entries_eq_zero.mp hnone
  have hset (item : Item) : (g.setItem i item).items i = item := Function.update_self _ _ _
  rcases @visit_cases _ _ _ depth bucket hwell with
    ⟨-, hvisit⟩ | ⟨-, hle, -, hvisit⟩ | ⟨-, htwo, hvisit⟩
  · left
    rw [hvisit, hset]
    exact ⟨rfl, hnone⟩
  · right; left
    obtain ⟨hfull, hplace⟩ := @decayWith_full types
      (g.setItem i { g.items i with duration := some 0 }) i depth htypes
      (fun g' hi' => startDecay_full htypes depth g' hi') hi (by rw [hset]; exact Or.inl rfl)
    rw [hvisit]
    refine ⟨Int32.le_iff_toInt_le.mp hle, hfull, fun b hb => ?_⟩
    exact hbuckets b ((hplace.bucket b).mp hb)
  · right; right
    rw [hvisit]
    refine ⟨Int32.le_iff_toInt_le.mp htwo, ?_, hpending, fun b hb => ?_⟩
    · change ((g.setItem i _).items i).time = _
      rw [hset]
      exact toInt_sub_cycleTime htwo
    · by_contra hne
      change i ∈ (g.wheel.push bucket i).buckets b at hb
      rw [Wheel.push, Wheel.setBucket_of_ne hne] at hb
      exact hbuckets b hb

/-- An item that the tick does not visit keeps its time. -/
theorem checkDecay_of_notMem (hx : x < g.next)
    (hnot : x ∉ g.wheel.buckets (g.wheel.last + 1)) :
    ((g.checkDecay types depth).items x).time = (g.items x).time ∧
      ∀ m, 1 ≤ m → m ≤ 4 → Calm g m x → Calm (g.checkDecay types depth) (m - 1) x := by
  have hkeeps := @visitAll_keeps types _ depth (g.wheel.last + 1) _
    { g with wheel := g.wheel.setBucket (g.wheel.last + 1) [] } hnot hx
  have htime : ((g.checkDecay types depth).items x).time = (g.items x).time :=
    congrArg Item.time hkeeps.item
  refine ⟨htime, fun m hm hm4 hcalm => ?_⟩
  refine cleanup_calm (by omega) ?_
  unfold Calm
  rw [hkeeps.item]
  refine hcalm.imp_right fun ⟨hlow, hbuckets⟩ => ⟨hlow, fun k hk hkm hmem => ?_⟩
  dsimp only at hmem
  rw [Wheel.turn_add_one, hkeeps.samePlace.bucket] at hmem
  by_cases hb : Wheel.turn g.wheel.last (k + 1) = g.wheel.last + 1
  · rw [hb] at hmem
    simp at hmem
  · change x ∈ (g.wheel.setBucket _ _).buckets _ at hmem
    rw [Wheel.setBucket_of_ne hb] at hmem
    exact hbuckets (k + 1) (by omega) (by omega) hmem

/-- An item that the tick visits loses a second at most, and then stands in no bucket of the next
three ticks. -/
theorem checkDecay_of_mem (htypes : WellTimed types) (hx : x < g.next)
    (honce : g.wheel.entries x ≤ 1) (hmem : x ∈ g.wheel.buckets (g.wheel.last + 1))
    (hwell : visitsWell types (g.items x)) :
    (((g.checkDecay types depth).items x).time = (g.items x).time ∧
        ∀ m, (g.items x).Full → Calm (g.checkDecay types depth) m x) ∨
      ((g.items x).time ≤ 1000 ∧ ((g.checkDecay types depth).items x).Full ∧
        Calm (g.checkDecay types depth) 3 x) ∨
      (2000 ≤ (g.items x).time ∧
        ((g.checkDecay types depth).items x).time = (g.items x).time - 1000 ∧
        Calm (g.checkDecay types depth) 3 x) := by
  obtain ⟨l, l', hl⟩ := List.append_of_mem hmem
  have hcount := (Wheel.bucket_unique honce hmem).2.2
  have hparts : x ∉ l ∧ x ∉ l' := by
    rw [hl, List.count_append, List.count_cons_self] at hcount
    exact ⟨List.count_eq_zero.mp (by omega), List.count_eq_zero.mp (by omega)⟩
  -- the visits before, the visit of the item, and the visits after it
  set bucket := g.wheel.last + 1 with hbucket
  set g₀ : Game := { g with wheel := g.wheel.setBucket bucket [] } with hg₀
  set g₁ := l.foldl (visit types depth bucket) g₀ with hg₁
  set g₂ := g₁.visit types depth bucket x with hg₂
  set g₃ := l'.foldl (visit types depth bucket) g₂ with hg₃
  have hloop : (g.wheel.buckets bucket).foldl (visit types depth bucket) g₀ = g₃ := by
    rw [hl, List.foldl_append, List.foldl_cons]
  have hbefore : Keeps g₀ g₁ x := visitAll_keeps bucket l g₀ hparts.1 hx
  have hx₁ : x < g₁.next := hx.trans_le hbefore.next
  have hnone : g₁.wheel.entries x = 0 := by
    have hentries := Wheel.entries_setBucket (w := g.wheel) (i := bucket) (a := x) []
    rw [List.count_nil] at hentries
    rw [hbefore.entries]
    change (g.wheel.setBucket bucket []).entries x = 0
    omega
  have hitem : g₁.items x = g.items x := hbefore.item
  have hafter : Keeps g₂ g₃ x :=
    visitAll_keeps bucket l' g₂ hparts.2 (hx₁.trans_le (visit_next_le bucket))
  set g₄ : Game := { g₃ with wheel := { g₃.wheel with last := bucket } } with hg₄
  have hend : g.checkDecay types depth = g₄.cleanup := by
    rw [hg₄, ← hloop]
    rfl
  have hitem₄ : (g.checkDecay types depth).items x = g₂.items x := by
    rw [hend]
    exact hafter.item
  have hbuckets₄ (b : Fin 4) : x ∈ g₄.wheel.buckets b ↔ x ∈ g₂.wheel.buckets b :=
    hafter.samePlace.bucket b
  rcases @visit_time _ _ _ depth htypes bucket hx₁ hnone (by rwa [hitem]) with
    ⟨htime, hnowhere⟩ | ⟨htime, hfull, hnowhere⟩ | ⟨htwo, htime, -, hplace⟩
  · left
    rw [hitem₄, htime, hitem]
    refine ⟨rfl, fun m hfull => calm_of_nowhere ?_ fun b hb => ?_⟩
    · unfold Item.Full
      rw [hitem₄, htime, hitem]
      exact hfull
    · have hzero : (g.checkDecay types depth).wheel.entries x = 0 := by
        rw [hend, cleanup, Wheel.entries_flush]
        exact hafter.entries.trans hnowhere
      exact (Wheel.entries_eq_zero.mp hzero).2 b hb
  · right; left
    rw [hitem] at htime
    refine ⟨htime, hitem₄ ▸ hfull, ?_⟩
    rw [hend]
    refine cleanup_calm le_rfl (calm_of_nowhere ?_ fun b hb => hnowhere b ((hbuckets₄ b).mp hb))
    rw [show g₄.items x = g₂.items x from hafter.item]
    exact hfull
  · right; right
    rw [hitem] at htwo htime
    refine ⟨htwo, by rw [hitem₄]; exact htime, ?_⟩
    rw [hend]
    refine cleanup_calm le_rfl (Or.inr ⟨?_, fun k hk hk3 hb => ?_⟩)
    · rw [show g₄.items x = g₂.items x from hafter.item]
      exact htime ▸ (by omega)
    · have heq := hplace _ ((hbuckets₄ _).mp hb)
      have hne := @Wheel.turn_ne _ _ bucket 0 k (by omega) (by omega)
      rw [Wheel.turn_zero] at hne
      exact hne heq.symm

theorem step_next_le (action : Action) : g.next ≤ (g.step types depth action).next := by
  cases action with
  | startDecay i =>
    simp only [step]
    split
    · exact startDecay_next_le depth g i
    · exact le_rfl
  | transformItem i newId newCount =>
    simp only [step]
    split
    · exact (transformItem_spec g i newId newCount).next_le
    · exact le_rfl
  | cleanup => exact le_rfl
  | checkDecay =>
    have hfold (l : List ℕ) (b : Fin 4) (g : Game) :
        g.next ≤ (l.foldl (visit types depth b) g).next := by
      induction l generalizing g with
      | nil => exact le_rfl
      | cons i l ih => exact (visit_next_le b).trans (ih _)
    exact hfold (g.wheel.buckets (g.wheel.last + 1)) (g.wheel.last + 1)
      { g with wheel := g.wheel.setBucket (g.wheel.last + 1) [] }

theorem step_calm (htypes : WellTimed types) {action : Action} (haction : action ≠ .checkDecay)
    (hx : x < g.next) (hm : m ≤ 3) (hcalm : Calm g m x) (hsafe : g.Safe types action) :
    Calm (g.step types depth action) m x := by
  cases action with
  | startDecay i =>
    simp only [step]
    split
    · exact startDecay_calm htypes hx hcalm hsafe
    · exact hcalm
  | transformItem i newId newCount =>
    simp only [step]
    split
    · exact transformItem_calm htypes hx hcalm hsafe
    · exact hcalm
  | cleanup => exact cleanup_calm hm hcalm
  | checkDecay => exact absurd rfl haction

theorem checkDecay_calm (htypes : WellTimed types) (h : Inv types g []) (hx : x < g.next)
    (hm : 1 ≤ m) (hm3 : m ≤ 3) (hcalm : Calm g m x) (hsafe : g.Safe types .checkDecay) :
    (g.items x).time - ((g.checkDecay types depth).items x).time ≤ 0 ∧
      Calm (g.checkDecay types depth) (m - 1) x := by
  by_cases hmem : x ∈ g.wheel.buckets (g.wheel.last + 1)
  · have hzero : (g.items x).time = 0 := by
      refine hcalm.resolve_right fun ⟨_, hbuckets⟩ => hbuckets 1 le_rfl hm ?_
      rw [Wheel.turn_one]
      exact hmem
    rcases @checkDecay_of_mem _ _ _ depth htypes hx (h x).once hmem (hsafe x hmem) with
      ⟨htime, hcalm'⟩ | ⟨-, hfull, hcalm'⟩ | ⟨htwo, -, -⟩
    · exact ⟨by omega, hcalm' _ hcalm.full⟩
    · unfold Item.Full at hfull
      exact ⟨by omega, hcalm'.mono (by omega)⟩
    · omega
  · obtain ⟨htime, hcalm'⟩ := @checkDecay_of_notMem types _ _ depth hx hmem
    exact ⟨by omega, hcalm' m hm (by omega) hcalm⟩

/-- What the ticks of a run take from the time of an item. -/
def taken (types : UInt16 → ItemType) (depth x : ℕ) : Game → List Action → ℤ
  | _, [] => 0
  | g, action :: actions =>
    (if action = .checkDecay then
        max 0 ((g.items x).time - ((g.step types depth action).items x).time)
      else 0) + taken types depth x (g.step types depth action) actions

theorem taken_of_calm (htypes : WellTimed types) (actions : List Action) (m : ℕ)
    (hticks : actions.count .checkDecay ≤ m) (hm : m ≤ 3) (h : Inv types g [])
    (hsafe : Run.Steps (step types depth) (Safe types) g actions) (hx : x < g.next)
    (hcalm : Calm g m x) : taken types depth x g actions = 0 := by
  induction actions generalizing g m with
  | nil => rfl
  | cons action actions ih =>
    have hnext := @step_inv _ _ depth h action hsafe.1
    have hx' := hx.trans_le (@step_next_le types _ depth action)
    rw [taken]
    by_cases haction : action = .checkDecay
    · subst haction
      rw [List.count_cons_self] at hticks
      obtain ⟨htime, hcalm'⟩ := @checkDecay_calm _ _ _ _ depth htypes h hx (by omega) hm hcalm
        hsafe.1
      rw [ih (m - 1) (by omega) (by omega) hnext hsafe.2 hx' hcalm', if_pos rfl, add_zero]
      exact max_eq_left htime
    · rw [List.count_cons_of_ne haction] at hticks
      rw [ih m hticks hm hnext hsafe.2 hx' (step_calm htypes haction hx hm hcalm hsafe.1),
        if_neg haction, add_zero]

/-- The ticks of a second take a second at most. -/
theorem taken_le (htypes : WellTimed types) (actions : List Action)
    (hticks : actions.count .checkDecay ≤ 4) (h : Inv types g [])
    (hsafe : Run.Steps (step types depth) (Safe types) g actions) (hx : x < g.next) :
    taken types depth x g actions ≤ 1000 := by
  induction actions generalizing g with
  | nil => simp [taken]
  | cons action actions ih =>
    have hnext := @step_inv _ _ depth h action hsafe.1
    have hx' := hx.trans_le (@step_next_le types _ depth action)
    rw [taken]
    by_cases haction : action = .checkDecay
    · subst haction
      rw [List.count_cons_self] at hticks
      have hrest := ih (by omega) hnext hsafe.2 hx'
      have hcalm (hcalm : Calm (g.step types depth .checkDecay) 3 x) :=
        taken_of_calm htypes actions 3 (by omega) le_rfl hnext hsafe.2 hx' hcalm
      rw [if_pos rfl]
      by_cases hmem : x ∈ g.wheel.buckets (g.wheel.last + 1)
      · rcases @checkDecay_of_mem _ _ _ depth htypes hx (h x).once hmem (hsafe.1 x hmem) with
          ⟨htime, -⟩ | ⟨htime, hfull, hcalm'⟩ | ⟨-, htime, hcalm'⟩
        · simp only [step, htime, sub_self, max_self, zero_add]
          exact hrest
        · unfold Item.Full at hfull
          rw [hcalm hcalm', add_zero]
          simp only [step]
          omega
        · rw [hcalm hcalm', add_zero]
          simp only [step, htime]
          omega
      · have htime := (@checkDecay_of_notMem types _ _ depth hx hmem).1
        simp only [step, htime, sub_self, max_self, zero_add]
        exact hrest
    · rw [List.count_cons_of_ne haction] at hticks
      rw [if_neg haction, zero_add]
      exact ih hticks hnext hsafe.2 hx'

/-- A game in which no decay has started. -/
structure Start (g : Game) : Prop where
  pending : g.wheel.pending = []
  buckets : ∀ b, g.wheel.buckets b = []
  decayState : ∀ i, (g.items i).decayState ≠ .decaying

theorem Start.inv (h : Start g) : Inv types g [] := by
  intro x
  have hnone : g.listed [] x = 0 := by
    simp [listed, Wheel.entries, h.pending, h.buckets]
  rw [hnone]
  exact ⟨Nat.zero_le _, fun hdecaying => absurd hdecaying (h.decayState x),
    fun _ => ⟨rfl, h.decayState x⟩⟩

/-- After a run every item stands in the lists once at most and a decaying item that can decay
stands in them once, and no four ticks take more than a second from an item. -/
theorem decays_once (htypes : WellTimed types) (hstart : Start g) {before second : List Action}
    (hsafe : Run.Steps (step types depth) (Safe types) g (before ++ second)) :
    (∀ i, (before.foldl (step types depth) g).wheel.entries i ≤ 1 ∧
        (((before.foldl (step types depth) g).items i).decayState = .decaying →
          ((before.foldl (step types depth) g).items i).canDecay types →
          (before.foldl (step types depth) g).wheel.entries i = 1)) ∧
      (second.count .checkDecay ≤ 4 → ∀ i < (before.foldl (step types depth) g).next,
        taken types depth i (before.foldl (step types depth) g) second ≤ 1000) := by
  obtain ⟨hbefore, hsecond⟩ := Run.steps_append.mp hsafe
  have hinv : Inv types (before.foldl (step types depth) g) [] :=
    Run.invariant (P := fun g => Inv types g [])
      (fun g action h hok => step_inv h action hok) hstart.inv hbefore
  refine ⟨fun i => ?_, fun hticks i hi => taken_le htypes second hticks hinv hsecond hi⟩
  have hright := hinv i
  have honce : (before.foldl (step types depth) g).wheel.entries i ≤ 1 := hright.once
  refine ⟨honce, fun hdecaying hdecay => ?_⟩
  have hlisted : (before.foldl (step types depth) g).wheel.entries i ≠ 0 :=
    hright.decaying hdecaying hdecay
  omega

/-- The ids 1 and 2 turn into each other and vanish after ten seconds. -/
def lamp (id : UInt16) : ItemType :=
  if id = 1 || id = 2 then { decayTo := 0, decayTime := 10 } else {}

theorem lamp_wellTimed : WellTimed lamp := by
  intro id
  unfold lamp
  split <;> decide

/-- One item of id 1. -/
def lit : Game :=
  { items := fun _ => Item.create lamp 1 1, next := 1,
    wheel := { pending := [], buckets := fun _ => [], last := 0 } }

theorem lit_start : Start lit := ⟨rfl, fun _ => rfl, fun _ => by simp [lit, Item.create]⟩

def fourTicks : List Action := List.replicate 4 .checkDecay

theorem lit_decays_once :
    (∀ i, ([Action.startDecay 0, .cleanup].foldl (step lamp 2) lit).wheel.entries i ≤ 1 ∧
        ((([Action.startDecay 0, .cleanup].foldl (step lamp 2) lit).items i).decayState =
            .decaying →
          (([Action.startDecay 0, .cleanup].foldl (step lamp 2) lit).items i).canDecay lamp →
          ([Action.startDecay 0, .cleanup].foldl (step lamp 2) lit).wheel.entries i = 1)) ∧
      (fourTicks.count .checkDecay ≤ 4 →
        ∀ i < ([Action.startDecay 0, .cleanup].foldl (step lamp 2) lit).next,
        taken lamp 2 i ([Action.startDecay 0, .cleanup].foldl (step lamp 2) lit) fourTicks ≤
          1000) :=
  decays_once lamp_wellTimed lit_start (by decide)

/-- Changed to an id of the same class while it is in a bucket, an item is added again and loses
two seconds in four ticks. -/
theorem change_adds_again :
    let g := [Action.startDecay 0, .cleanup, .transformItem 0 2 none, .startDecay 0,
      .cleanup].foldl (step lamp 2) lit
    g.wheel.entries 0 = 2 ∧ fourTicks.count .checkDecay ≤ 4 ∧
      taken lamp 2 0 g fourTicks = 2000 := by
  decide

end Game

end OTServBR.Decay
