import Mathlib

/-! # Coins

Money is handed out in crystal, platinum and gold coins. The number of crystal
coins and their worth are computed with 32 bits, so the coins are worth the
money as long as this product does not wrap.
-/

namespace OTServBR.Coins

def ITEM_GOLD_COIN : UInt16 := 2148
def ITEM_PLATINUM_COIN : UInt16 := 2152
def ITEM_CRYSTAL_COIN : UInt16 := 2160

/-- A stack of coins. -/
structure Item where
  id : UInt16
  count : UInt8
  deriving DecidableEq, Repr

namespace Item

/-- `CreateItem` of a stackable type. -/
def CreateItem (type count : UInt16) : Item :=
  { id := type, count := (if count = 0 then 1 else count).toUInt8 }

def getWorth (item : Item) : UInt32 :=
  if item.id = ITEM_GOLD_COIN then item.count.toUInt32
  else if item.id = ITEM_PLATINUM_COIN then item.count.toUInt32 * 100
  else if item.id = ITEM_CRYSTAL_COIN then item.count.toUInt32 * 10000
  else 0

end Item

/-- The cylinder that gets the coins, and the tile under it. -/
inductive Cylinder
  | cylinder | tile
  deriving DecidableEq

section Model

variable {σ : Type*}

/-- A world with the stacks that were created so far. -/
structure Payment (σ : Type*) where
  world : σ
  created : List Item := []

variable (internalAddItem : σ → Cylinder → Item → σ × Bool)

/-- Create a stack and add it to the cylinder, or drop it on the tile. -/
def give (p : Payment σ) (type count : UInt16) : Payment σ :=
  let remaindItem := Item.CreateItem type count
  let r := internalAddItem p.world .cylinder remaindItem
  { world := if r.2 then r.1 else (internalAddItem r.1 .tile remaindItem).1
    created := p.created ++ [remaindItem] }

/-- The coins of the next stack, at most 100. -/
def nextStack (crystalCoins : UInt32) : UInt16 :=
  (if crystalCoins < 100 then crystalCoins else 100).toUInt16

theorem toNat_nextStack {n : UInt32} : (nextStack n).toNat = min n.toNat 100 := by
  rw [nextStack]
  split
  · next hlt =>
    have hlt' : n.toNat < 100 := UInt32.lt_iff_toNat_lt.mp hlt
    rw [UInt32.toNat_toUInt16]
    omega
  · next hge =>
    have hge' : ¬ n.toNat < 100 := fun h => hge (UInt32.lt_iff_toNat_lt.mpr h)
    change 100 = _
    omega

theorem toNat_sub_nextStack {n : UInt32} :
    (n - (nextStack n).toUInt32).toNat = n.toNat - min n.toNat 100 := by
  have hle : (nextStack n).toUInt32 ≤ n := by
    rw [UInt32.le_iff_toNat_le, UInt16.toNat_toUInt32, toNat_nextStack]
    exact Nat.min_le_left ..
  rw [UInt32.toNat_sub_of_le _ _ hle, UInt16.toNat_toUInt32, toNat_nextStack]

def giveCrystalCoins (p : Payment σ) (crystalCoins : UInt32) : Payment σ :=
  if crystalCoins > 0 then
    let count := nextStack crystalCoins
    giveCrystalCoins (give internalAddItem p ITEM_CRYSTAL_COIN count)
      (crystalCoins - count.toUInt32)
  else p
termination_by crystalCoins.toNat
decreasing_by
  have hpos : (0 : UInt32).toNat < crystalCoins.toNat := UInt32.lt_iff_toNat_lt.mp ‹_›
  rw [toNat_sub_nextStack]
  rw [UInt32.toNat_zero] at hpos
  omega

def addMoney (p : Payment σ) (money : UInt64) : Payment σ :=
  if money = 0 then p
  else
    let crystalCoins := (money / 10000).toUInt32
    let money := money - (crystalCoins * 10000).toUInt64
    let p := giveCrystalCoins internalAddItem p crystalCoins
    let platinumCoins := (money / 100).toUInt16
    let (p, money) :=
      if platinumCoins ≠ 0 then
        (give internalAddItem p ITEM_PLATINUM_COIN platinumCoins,
          money - (platinumCoins.toUInt32 * 100).toUInt64)
      else (p, money)
    if money ≠ 0 then give internalAddItem p ITEM_GOLD_COIN money.toUInt16 else p

end Model

/-- The number of coins of a type. -/
def total (id : UInt16) (created : List Item) : ℕ :=
  ((created.filter (·.id = id)).map (·.count.toNat)).sum

/-- The stacks are worth the money, hold between 1 and 100 coins each, and fewer than 100 coins
are of gold and fewer than 100 of platinum. -/
structure Exact (money : UInt64) (created : List Item) : Prop where
  worth : (created.map (·.getWorth.toNat)).sum = money.toNat
  counts : ∀ item ∈ created, 1 ≤ item.count.toNat ∧ item.count.toNat ≤ 100
  gold : total ITEM_GOLD_COIN created < 100
  platinum : total ITEM_PLATINUM_COIN created < 100

/-! ## What is created -/

variable {σ : Type*} {internalAddItem : σ → Cylinder → Item → σ × Bool} {p : Payment σ}

/-- The number of coins in a stack, which has eight bits. -/
def stack (count : ℕ) : ℕ := if count % 2 ^ 16 = 0 then 1 else count % 2 ^ 16 % 2 ^ 8

theorem stack_of_lt {count : ℕ} (hpos : 0 < count) (hlt : count < 256) : stack count = count := by
  have hmod : count % 2 ^ 16 = count := Nat.mod_eq_of_lt (by omega)
  rw [stack, hmod, if_neg (by omega)]
  exact Nat.mod_eq_of_lt hlt

theorem count_CreateItem {type count : UInt16} :
    (Item.CreateItem type count).count.toNat = stack count.toNat := by
  have hlt := count.toNat_lt
  rw [Item.CreateItem, stack, Nat.mod_eq_of_lt hlt]
  dsimp only
  split
  · next h =>
    subst h
    rfl
  · next h =>
    have hne : count.toNat ≠ 0 := fun heq => h (UInt16.toNat_inj.mp heq)
    rw [if_neg hne, UInt16.toNat_toUInt8]

theorem worth_crystal {item : Item} (h : item.id = ITEM_CRYSTAL_COIN) :
    item.getWorth.toNat = item.count.toNat * 10000 := by
  have hlt := item.count.toNat_lt
  rw [Item.getWorth, h, if_neg (by decide), if_neg (by decide), if_pos rfl, UInt32.toNat_mul,
    UInt8.toNat_toUInt32]
  change item.count.toNat * 10000 % 2 ^ 32 = _
  omega

theorem worth_platinum {item : Item} (h : item.id = ITEM_PLATINUM_COIN) :
    item.getWorth.toNat = item.count.toNat * 100 := by
  have hlt := item.count.toNat_lt
  rw [Item.getWorth, h, if_neg (by decide), if_pos rfl, UInt32.toNat_mul, UInt8.toNat_toUInt32]
  change item.count.toNat * 100 % 2 ^ 32 = _
  omega

theorem worth_gold {item : Item} (h : item.id = ITEM_GOLD_COIN) :
    item.getWorth.toNat = item.count.toNat := by
  rw [Item.getWorth, h, if_pos rfl, UInt8.toNat_toUInt32]

/-- Stacks of crystal coins, full but for the last one. -/
theorem created_giveCrystalCoins (n : UInt32) :
    ∃ crystals, (giveCrystalCoins internalAddItem p n).created = p.created ++ crystals ∧
      (∀ item ∈ crystals, item.id = ITEM_CRYSTAL_COIN ∧
        1 ≤ item.count.toNat ∧ item.count.toNat ≤ 100) ∧
      (crystals.map (·.count.toNat)).sum = n.toNat := by
  fun_induction giveCrystalCoins internalAddItem p n with
  | case1 p n hpos count ih =>
    obtain ⟨crystals, hcreated, hcrystals, hsum⟩ := ih
    have hpos' : (0 : UInt32).toNat < n.toNat := UInt32.lt_iff_toNat_lt.mp hpos
    rw [UInt32.toNat_zero] at hpos'
    have hcount : (Item.CreateItem ITEM_CRYSTAL_COIN count).count.toNat = min n.toNat 100 := by
      rw [count_CreateItem, toNat_nextStack, stack_of_lt] <;> omega
    refine ⟨Item.CreateItem ITEM_CRYSTAL_COIN count :: crystals, ?_, ?_, ?_⟩
    · rw [hcreated, give]
      simp
    · rintro item (_ | ⟨_, hmem⟩)
      · refine ⟨rfl, ?_⟩
        omega
      · exact hcrystals item hmem
    · rw [List.map_cons, List.sum_cons, hsum, toNat_sub_nextStack, hcount]
      omega
  | case2 p n hpos =>
    have hzero : ¬ (0 : UInt32).toNat < n.toNat := fun h => hpos (UInt32.lt_iff_toNat_lt.mpr h)
    rw [UInt32.toNat_zero] at hzero
    refine ⟨[], (List.append_nil _).symm, nofun, ?_⟩
    rw [List.map_nil, List.sum_nil]
    omega

/-- What is left when the worth of the crystal coins is taken from the money. -/
def remainder (money : ℕ) : ℕ := money - money / 10000 % 2 ^ 32 * 10000 % 2 ^ 32

def platinumCoins (money : ℕ) : ℕ := remainder money / 100 % 2 ^ 16

def goldCoins (money : ℕ) : ℕ := remainder money - platinumCoins money * 100

/-- The coins in the stack of a type, which is made if there are any. -/
def dealt (n : ℕ) : ℕ := if n = 0 then 0 else stack n

/-- One stack for a number of coins, or none for no coins. -/
structure Dealt (id : UInt16) (n : ℕ) (l : List Item) : Prop where
  ids : ∀ item ∈ l, item.id = id
  sum : (l.map (·.count.toNat)).sum = dealt n
  counts : ∀ k, (∃ item ∈ l, item.count.toNat = k) ↔ n ≠ 0 ∧ stack n = k

theorem dealt_nil {id : UInt16} : Dealt id 0 [] where
  ids := nofun
  sum := rfl
  counts _ := iff_of_false (by rintro ⟨_, ⟨⟩, _⟩) fun h => h.1 rfl

theorem dealt_CreateItem {id count : UInt16} {n : ℕ} (hn : n ≠ 0)
    (hcount : count.toNat = n % 2 ^ 16) : Dealt id n [Item.CreateItem id count] := by
  have hstack : (Item.CreateItem id count).count.toNat = stack n := by
    rw [count_CreateItem, hcount, stack, stack, Nat.mod_mod]
  refine ⟨fun item hitem => ?_, ?_, fun k => ?_⟩
  · rw [List.mem_singleton.mp hitem]
    rfl
  · rw [dealt, if_neg hn]
    exact (Nat.add_zero _).trans hstack
  · simp [hn, hstack]

/-! The numbers of coins as the code computes them. -/

theorem toNat_crystalCoins {money : UInt64} :
    (money / 10000).toUInt32.toNat = money.toNat / 10000 % 2 ^ 32 := by
  rw [UInt64.toNat_toUInt32, UInt64.toNat_div]
  rfl

theorem toNat_remainder {money : UInt64} :
    (money - ((money / 10000).toUInt32 * 10000).toUInt64).toNat = remainder money.toNat := by
  have hworth : ((money / 10000).toUInt32 * 10000).toUInt64.toNat =
      money.toNat / 10000 % 2 ^ 32 * 10000 % 2 ^ 32 := by
    rw [UInt32.toNat_toUInt64, UInt32.toNat_mul, toNat_crystalCoins]
    rfl
  rw [UInt64.toNat_sub_of_le, hworth, remainder]
  rw [UInt64.le_iff_toNat_le, hworth]
  omega

theorem toNat_platinumCoins {rest : UInt64} :
    (rest / 100).toUInt16.toNat = rest.toNat / 100 % 2 ^ 16 := by
  rw [UInt64.toNat_toUInt16, UInt64.toNat_div]
  rfl

theorem toNat_sub_platinumCoins {rest : UInt64} :
    (rest - ((rest / 100).toUInt16.toUInt32 * 100).toUInt64).toNat =
      rest.toNat - rest.toNat / 100 % 2 ^ 16 * 100 := by
  have hworth : ((rest / 100).toUInt16.toUInt32 * 100).toUInt64.toNat =
      rest.toNat / 100 % 2 ^ 16 * 100 := by
    rw [UInt32.toNat_toUInt64, UInt32.toNat_mul, UInt16.toNat_toUInt32, toNat_platinumCoins]
    change _ * 100 % 2 ^ 32 = _
    omega
  rw [UInt64.toNat_sub_of_le, hworth]
  rw [UInt64.le_iff_toNat_le, hworth]
  omega

/-- Money is created as stacks of crystal coins, a stack of platinum coins and one of gold. -/
theorem created_addMoney (internalAddItem : σ → Cylinder → Item → σ × Bool) (world : σ)
    (money : UInt64) : ∃ crystals platinum gold,
      (addMoney internalAddItem { world := world } money).created =
        crystals ++ (platinum ++ gold) ∧
      (∀ item ∈ crystals, item.id = ITEM_CRYSTAL_COIN ∧
        1 ≤ item.count.toNat ∧ item.count.toNat ≤ 100) ∧
      (crystals.map (·.count.toNat)).sum = money.toNat / 10000 % 2 ^ 32 ∧
      Dealt ITEM_PLATINUM_COIN (platinumCoins money.toNat) platinum ∧
      Dealt ITEM_GOLD_COIN (goldCoins money.toNat) gold := by
  -- The last stack is of gold coins.
  have hgold : ∀ (p : Payment σ) (rest : UInt64), ∃ gold,
      (if rest ≠ 0 then give internalAddItem p ITEM_GOLD_COIN rest.toUInt16 else p).created =
        p.created ++ gold ∧ Dealt ITEM_GOLD_COIN rest.toNat gold := by
    intro p rest
    by_cases hrest : rest = 0
    · rw [hrest, if_neg (not_not.mpr rfl)]
      exact ⟨[], (List.append_nil _).symm, dealt_nil⟩
    · have hne : rest.toNat ≠ 0 := fun h => hrest (UInt64.toNat_inj.mp h)
      rw [if_pos hrest]
      exact ⟨_, rfl, dealt_CreateItem hne (UInt64.toNat_toUInt16 _)⟩
  by_cases hmoney : money = 0
  · subst hmoney
    rw [addMoney, if_pos rfl]
    exact ⟨[], [], [], rfl, nofun, rfl, dealt_nil, dealt_nil⟩
  obtain ⟨crystals, hcreated, hcrystals, hsum⟩ :=
    created_giveCrystalCoins (p := ⟨world, []⟩) (money / 10000).toUInt32
  rw [toNat_crystalCoins] at hsum
  have hrest : (money - ((money / 10000).toUInt32 * 10000).toUInt64).toNat =
      remainder money.toNat := toNat_remainder
  rw [addMoney, if_neg hmoney]
  dsimp only
  generalize money - ((money / 10000).toUInt32 * 10000).toUInt64 = rest at hrest
  have hplatinum : (rest / 100).toUInt16.toNat = platinumCoins money.toNat := by
    rw [toNat_platinumCoins, hrest, platinumCoins]
  by_cases hnone : (rest / 100).toUInt16 = 0
  · rw [if_neg (not_not.mpr hnone)]
    dsimp only
    rw [hnone] at hplatinum
    obtain ⟨gold, hcreated', hdealt⟩ := hgold (giveCrystalCoins internalAddItem ⟨world, []⟩
      (money / 10000).toUInt32) rest
    refine ⟨crystals, [], gold, ?_, hcrystals, hsum, ?_, ?_⟩
    · rw [hcreated', hcreated]
      rfl
    · rw [← hplatinum]
      exact dealt_nil
    · rw [goldCoins, ← hplatinum, ← hrest]
      exact hdealt
  · rw [if_pos hnone]
    dsimp only
    have hne : platinumCoins money.toNat ≠ 0 := fun h =>
      hnone (UInt16.toNat_inj.mp (hplatinum.trans h))
    have hgoldCoins : (rest - ((rest / 100).toUInt16.toUInt32 * 100).toUInt64).toNat =
        goldCoins money.toNat := by
      rw [toNat_sub_platinumCoins, hrest, goldCoins, platinumCoins]
    obtain ⟨gold, hcreated', hdealt⟩ := hgold
      (give internalAddItem (giveCrystalCoins internalAddItem ⟨world, []⟩
        (money / 10000).toUInt32) ITEM_PLATINUM_COIN (rest / 100).toUInt16)
      (rest - ((rest / 100).toUInt16.toUInt32 * 100).toUInt64)
    refine ⟨crystals, [Item.CreateItem ITEM_PLATINUM_COIN (rest / 100).toUInt16], gold, ?_,
      hcrystals, hsum, dealt_CreateItem hne ?_, hgoldCoins ▸ hdealt⟩
    · rw [hcreated', give, hcreated]
      simp
    · rw [hplatinum, platinumCoins, Nat.mod_mod]

/-! ## When the coins are worth the money -/

theorem sum_worth {id : UInt16} {w : ℕ} {l : List Item} (hid : ∀ item ∈ l, item.id = id)
    (hw : ∀ item : Item, item.id = id → item.getWorth.toNat = item.count.toNat * w) :
    (l.map (·.getWorth.toNat)).sum = (l.map (·.count.toNat)).sum * w := by
  induction l with
  | nil => rw [List.map_nil, List.map_nil, List.sum_nil, Nat.zero_mul]
  | cons item l ih =>
    rw [List.map_cons, List.map_cons, List.sum_cons, List.sum_cons,
      ih fun item hitem => hid item (List.mem_cons_of_mem _ hitem),
      hw item (hid item List.mem_cons_self), Nat.add_mul]

theorem total_of_ids {id : UInt16} {l : List Item} (hid : ∀ item ∈ l, item.id = id) :
    total id l = (l.map (·.count.toNat)).sum := by
  rw [total, List.filter_eq_self.mpr fun item hitem => decide_eq_true (hid item hitem)]

theorem total_of_ne {id id' : UInt16} {l : List Item} (hid : ∀ item ∈ l, item.id = id')
    (hne : id' ≠ id) : total id l = 0 := by
  have hnone : l.filter (·.id = id) = [] :=
    List.filter_eq_nil_iff.mpr fun item hitem heq =>
      hne ((hid item hitem).symm.trans (of_decide_eq_true heq))
  rw [total, hnone]
  rfl

theorem total_append {id : UInt16} {l l' : List Item} :
    total id (l ++ l') = total id l + total id l' := by
  rw [total, List.filter_append, List.map_append, List.sum_append, ← total, ← total]

/-- A number of coins that one stack holds as it should. -/
def Stackable (n : ℕ) : Prop := n ≠ 0 → 1 ≤ stack n ∧ stack n ≤ 100

theorem Dealt.counts_iff {id : UInt16} {n : ℕ} {l : List Item} (h : Dealt id n l) :
    (∀ item ∈ l, 1 ≤ item.count.toNat ∧ item.count.toNat ≤ 100) ↔ Stackable n := by
  constructor
  · intro hall hn
    obtain ⟨item, hitem, heq⟩ := (h.counts (stack n)).mpr ⟨hn, rfl⟩
    exact heq ▸ hall item hitem
  · intro hn item hitem
    obtain ⟨hne, heq⟩ := (h.counts item.count.toNat).mp ⟨item, hitem, rfl⟩
    exact heq ▸ hn hne

/-- The coins are exact if their numbers are. -/
theorem exact_iff_numbers {money : UInt64} {world : σ} :
    Exact money (addMoney internalAddItem { world := world } money).created ↔
      money.toNat / 10000 % 2 ^ 32 * 10000 + (dealt (platinumCoins money.toNat) * 100 +
        dealt (goldCoins money.toNat)) = money.toNat ∧
      (Stackable (platinumCoins money.toNat) ∧ Stackable (goldCoins money.toNat)) ∧
      dealt (goldCoins money.toNat) < 100 ∧ dealt (platinumCoins money.toNat) < 100 := by
  obtain ⟨crystals, platinum, gold, hcreated, hcrystals, hsum, hplatinum, hgold⟩ :=
    created_addMoney internalAddItem world money
  generalize (addMoney internalAddItem { world := world } money).created = created at hcreated ⊢
  subst hcreated
  have hids : ∀ item ∈ crystals, item.id = ITEM_CRYSTAL_COIN := fun item hitem =>
    (hcrystals item hitem).1
  have hworth : ((crystals ++ (platinum ++ gold)).map (·.getWorth.toNat)).sum =
      money.toNat / 10000 % 2 ^ 32 * 10000 + (dealt (platinumCoins money.toNat) * 100 +
        dealt (goldCoins money.toNat)) := by
    rw [List.map_append, List.sum_append, List.map_append, List.sum_append,
      sum_worth hids fun _ => worth_crystal, hsum,
      sum_worth hplatinum.ids fun _ => worth_platinum, hplatinum.sum,
      sum_worth hgold.ids fun item hitem => (worth_gold hitem).trans (Nat.mul_one _).symm,
      hgold.sum, Nat.mul_one]
  have htotalGold : total ITEM_GOLD_COIN (crystals ++ (platinum ++ gold)) =
      dealt (goldCoins money.toNat) := by
    rw [total_append, total_append, total_of_ne hids (by decide),
      total_of_ne hplatinum.ids (by decide), total_of_ids hgold.ids, hgold.sum, Nat.zero_add,
      Nat.zero_add]
  have htotalPlatinum : total ITEM_PLATINUM_COIN (crystals ++ (platinum ++ gold)) =
      dealt (platinumCoins money.toNat) := by
    rw [total_append, total_append, total_of_ne hids (by decide),
      total_of_ne hgold.ids (by decide), total_of_ids hplatinum.ids, hplatinum.sum, Nat.zero_add,
      Nat.add_zero]
  have hcounts : (∀ item ∈ crystals ++ (platinum ++ gold),
      1 ≤ item.count.toNat ∧ item.count.toNat ≤ 100) ↔
      Stackable (platinumCoins money.toNat) ∧ Stackable (goldCoins money.toNat) := by
    rw [← hplatinum.counts_iff, ← hgold.counts_iff]
    simp only [List.forall_mem_append]
    exact and_iff_right fun item hitem => (hcrystals item hitem).2
  constructor
  · intro h
    exact ⟨hworth ▸ h.worth, hcounts.mp h.counts, htotalGold ▸ h.gold,
      htotalPlatinum ▸ h.platinum⟩
  · rintro ⟨hnumbers, hstackable, hgold', hplatinum'⟩
    exact ⟨hworth.trans hnumbers, hcounts.mpr hstackable, htotalGold.symm ▸ hgold',
      htotalPlatinum.symm ▸ hplatinum'⟩

/-- The worth of the crystal coins does not wrap, or it wraps so often that the rest of the
money looks the same in the bits that the stacks of platinum and gold coins have. -/
def CoinsFit (money : ℕ) : Prop :=
  money / 10000 < 2 ^ 32 ∧
    let wraps := money / 10000 * 10000 / 2 ^ 32
    let hundreds := (money % 100 + wraps * 2 ^ 32) / 100
    wraps = 0 ∨ money % 100 ≠ 0 ∧
      (2 ^ 16 ∣ hundreds ∨ 2 ^ 8 ∣ hundreds ∧ 100 ≤ money % 10000)

instance (money : ℕ) : Decidable (CoinsFit money) :=
  inferInstanceAs (Decidable (_ ∧ (_ = 0 ∨ _ ≠ 0 ∧ (_ ∣ _ ∨ _ ∣ _ ∧ _ ≤ _))))

theorem dealt_of_lt {n : ℕ} (hlt : n < 256) : dealt n = n := by
  rw [dealt]
  split
  · next h => exact h.symm
  · next h => exact stack_of_lt (Nat.pos_of_ne_zero h) hlt

theorem stackable_of_le {n : ℕ} (hle : n ≤ 100) : Stackable n := by
  intro hne
  rw [stack_of_lt (Nat.pos_of_ne_zero hne) (by omega)]
  exact ⟨Nat.pos_of_ne_zero hne, hle⟩

/-- The eight bits of a stack. -/
theorem stack_eq_mod {n : ℕ} (hne : n % 256 ≠ 0) : stack n = n % 256 := by
  rw [stack, if_neg (by omega)]
  omega

/-- What the crystal coins leave, when their number fits. -/
theorem remainder_eq {m : ℕ} (hm : m / 10000 < 2 ^ 32) :
    remainder m = m % 10000 + m / 10000 * 10000 / 2 ^ 32 * 2 ^ 32 := by
  rw [remainder, Nat.mod_eq_of_lt hm]
  omega

theorem platinumCoins_eq {m : ℕ} (hm : m / 10000 < 2 ^ 32) : platinumCoins m =
    (m % 10000 / 100 + (m % 100 + m / 10000 * 10000 / 2 ^ 32 * 2 ^ 32) / 100) % 2 ^ 16 := by
  rw [platinumCoins, remainder_eq hm]
  omega

/-- The low bits of the gold coins follow those of the platinum coins. -/
theorem gold_mod {a b k p g : ℕ} (hb : b < 100) (hk : 0 < k) (hp : p < 2 ^ 16)
    (hmod : p % 256 = a) (hg : g = 100 * a + b + k * 2 ^ 32 - p * 100) : g % 256 = b := by
  obtain ⟨t, ht⟩ : ∃ t, p = 256 * t + a := ⟨p / 256, by omega⟩
  have hsum : g + 256 * (100 * t) = b + 256 * (k * 2 ^ 24) := by omega
  omega

/-- After a product that wraps, the stacks are right if their low bits are. -/
theorem numbers_iff_of_wraps {a b k p g hundreds : ℕ} (ha : a < 100) (hb : b < 100) (hk : 0 < k)
    (hp : p = (a + hundreds) % 2 ^ 16) (hg : g = 100 * a + b + k * 2 ^ 32 - p * 100) :
    (dealt p * 100 + dealt g = 100 * a + b ∧ (Stackable p ∧ Stackable g) ∧
      dealt g < 100 ∧ dealt p < 100) ↔
    b ≠ 0 ∧ (2 ^ 16 ∣ hundreds ∨ 2 ^ 8 ∣ hundreds ∧ a ≠ 0) := by
  have hlt : p < 2 ^ 16 := hp ▸ Nat.mod_lt _ (by omega)
  have hne : g ≠ 0 := by omega
  constructor
  · rintro ⟨hworth, ⟨hstackable, hstackable'⟩, hgold, hplatinum⟩
    have hone := (hstackable' hne).1
    have hdealt : dealt g = stack g := by rw [dealt, if_neg hne]
    have hpa : dealt p = a := by omega
    refine ⟨by omega, ?_⟩
    rw [dealt] at hpa
    split at hpa
    · next hzero => exact .inl (by omega)
    · next hzero =>
      have hone' := (hstackable hzero).1
      have hmod : p % 2 ^ 16 % 2 ^ 8 = a := by
        rw [stack, if_neg (by rwa [Nat.mod_eq_of_lt hlt])] at hpa
        exact hpa
      exact .inr ⟨by omega, by omega⟩
  · rintro ⟨hb0, hdvd⟩
    have hmod : p % 256 = a := by omega
    have hgmod : g % 256 = b := gold_mod hb hk hlt hmod hg
    have hstack : stack g = b := (stack_eq_mod (by omega)).trans hgmod
    have hgold : dealt g = b := by rw [dealt, if_neg hne, hstack]
    have hplatinum : dealt p = a ∧ Stackable p := by
      by_cases ha0 : a = 0
      · have hp0 : p = 0 := by omega
        subst hp0
        exact ⟨ha0.symm, fun h => absurd rfl h⟩
      · have hp0 : p ≠ 0 := by omega
        have hstack' : stack p = a := (stack_eq_mod (by omega)).trans hmod
        refine ⟨by rw [dealt, if_neg hp0, hstack'], fun _ => ?_⟩
        rw [hstack']
        omega
    rw [hgold, hplatinum.1]
    refine ⟨by omega, ⟨hplatinum.2, fun _ => ?_⟩, hb, ha⟩
    rw [hstack]
    omega

theorem numbers_iff_coinsFit {m : ℕ} :
    (m / 10000 % 2 ^ 32 * 10000 + (dealt (platinumCoins m) * 100 + dealt (goldCoins m)) = m ∧
      (Stackable (platinumCoins m) ∧ Stackable (goldCoins m)) ∧
      dealt (goldCoins m) < 100 ∧ dealt (platinumCoins m) < 100) ↔ CoinsFit m := by
  rw [CoinsFit]
  by_cases hm : m / 10000 < 2 ^ 32
  swap
  · refine iff_of_false ?_ fun h => hm h.1
    rintro ⟨hworth, -, hgold, hplatinum⟩
    omega
  rw [and_iff_right hm, Nat.mod_eq_of_lt hm]
  dsimp only
  have hplatinum := platinumCoins_eq hm
  have hgold : goldCoins m = 100 * (m % 10000 / 100) + m % 100 +
      m / 10000 * 10000 / 2 ^ 32 * 2 ^ 32 - platinumCoins m * 100 := by
    rw [goldCoins, remainder_eq hm]
    omega
  have hsplit : ∀ n, m / 10000 * 10000 + n = m ↔ n = 100 * (m % 10000 / 100) + m % 100 := by
    intro n
    omega
  rw [hsplit]
  rcases Nat.eq_zero_or_pos (m / 10000 * 10000 / 2 ^ 32) with hk | hk
  · -- Nothing wraps, and the stacks hold what they are given.
    refine iff_of_true ?_ (.inl hk)
    rw [hk] at hplatinum hgold
    have hp : platinumCoins m = m % 10000 / 100 := by omega
    have hg : goldCoins m = m % 100 := by omega
    rw [hp, hg, dealt_of_lt (by omega : m % 10000 / 100 < 256),
      dealt_of_lt (by omega : m % 100 < 256)]
    exact ⟨by omega, ⟨stackable_of_le (by omega), stackable_of_le (by omega)⟩, by omega, by omega⟩
  · rw [numbers_iff_of_wraps (by omega) (by omega) hk hplatinum hgold]
    have hwraps : m / 10000 * 10000 / 2 ^ 32 ≠ 0 := Nat.ne_of_gt hk
    have hplatinumLeft : m % 10000 / 100 ≠ 0 ↔ 100 ≤ m % 10000 := by omega
    rw [or_iff_right hwraps, hplatinumLeft]

/-- `addMoney` hands out the money exactly if the coins fit. -/
theorem addMoney_exact_iff (internalAddItem : σ → Cylinder → Item → σ × Bool) (world : σ)
    (money : UInt64) :
    Exact money (addMoney internalAddItem { world := world } money).created ↔
      CoinsFit money.toNat :=
  exact_iff_numbers.trans numbers_iff_coinsFit

/-- With 429497 crystal coins the worth of these coins wraps. -/
theorem not_exact_wrapped :
    ¬ Exact 4294970000 (addMoney (fun (w : Unit) _ _ => (w, true)) { world := () }
      4294970000).created := by
  rw [exact_iff_numbers, numbers_iff_coinsFit]
  decide

end OTServBR.Coins
