import Mathlib

/-! # The store

Items that are bought in the store go to an inbox of the player, stack by
stack. The coins are taken before the first stack is created. Where a stack can
not be added the rest of the order is dropped and coins are given back.
-/

namespace OTServBR

namespace GameStore

inductive OfferType
  | ITEM | STACKABLE_ITEM | WRAP_ITEM
  deriving DecidableEq, Repr

inductive GameStoreError
  | PURCHASE | NETWORK
  deriving DecidableEq, Repr

/-- What the client is sent. -/
inductive Reply
  | sendStoreError (error : GameStoreError) (message : String)
  | sendStorePurchaseSuccessful (message : String)
  deriving DecidableEq, Repr

variable {κ : Type}

/-- An item, by what decides whether it stacks on another one, and its count. -/
structure Item (κ : Type) where
  kind : κ
  count : ℕ
  deriving DecidableEq, Repr

/-- What is asked of items and of the inbox. -/
structure Env (κ : Type) where
  isStackable : κ → Bool
  equals : κ → κ → Bool
  /-- `queryAdd` of the inbox has no objection. Without a limit of slots it looks at the numbers
  of items, which go with the size of the inbox, and not at how many are on a stack. -/
  queryAdd : ℕ → κ → Bool

/-- The offers that the file of the store may have. -/
structure ItemOffer (κ : Type) where
  type : OfferType
  name : String
  price : UInt32
  /-- What `CreateItem` makes of the product, for a wrapped one the box that holds it. -/
  product : Option κ
  weight : UInt32
  count : UInt16
  price_ne : price ≠ 0
  count_ne : count ≠ 0

structure Inbox (κ : Type) where
  itemlist : List (Item κ)
  capacity : UInt32
  deriving DecidableEq, Repr

structure Player (κ : Type) where
  coins : ℤ
  /-- The amounts in the history of the store. -/
  history : List Int32
  freeCapacity : UInt32
  /-- The container in the slot of the store inbox. -/
  inbox : Option (Inbox κ)
  deriving DecidableEq, Repr

namespace Player

variable (p : Player κ)

def getCoinBalance : UInt32 := UInt32.ofInt p.coins
def addCoins (amount : Int32) : Player κ := { p with coins := p.coins + amount.toInt }
def removeCoins (amount : Int32) : Player κ := { p with coins := p.coins - amount.toInt }

def registerTransaction (coins : Int32) : Player κ := { p with history := p.history ++ [coins] }

end Player

variable (env : Env κ)

def createItem (kind : κ) (count : ℕ) : Item κ :=
  { kind, count := if env.isStackable kind then count else 1 }

/-- Put an item on the first stack of its kind that is not full: the items then, and the count
that did not fit. -/
def stackOn (item : Item κ) : List (Item κ) → Option (List (Item κ) × ℕ)
  | [] => none
  | listItem :: l =>
    if env.equals listItem.kind item.kind ∧ listItem.count < 100 then
      let n := min (100 - listItem.count) item.count
      some ({ listItem with count := listItem.count + n } :: l, item.count - n)
    else (stackOn item l).map fun r => (listItem :: r.1, r.2)

theorem count_stackOn {env : Env κ} {item : Item κ} {l l' : List (Item κ)} {count : ℕ}
    (h : stackOn env item l = some (l', count)) (hpos : 0 < count) : count < item.count := by
  induction l generalizing l' with
  | nil => cases h
  | cons listItem l ih =>
    rw [stackOn] at h
    split_ifs at h with hfits
    · cases h
      omega
    · obtain ⟨r, hr, heq⟩ := Option.map_eq_some_iff.mp h
      cases heq
      exact ih hr

/-- `internalAddItem` with an inbox, no index and `FLAG_NOLIMIT`; none where it returns an
error. What does not fit on a stack is added as an item of its own, and the answer to that is
ignored. -/
def internalAddItem (inbox : List (Item κ)) (item : Item κ) : Option (List (Item κ)) :=
  if env.queryAdd inbox.length item.kind then
    if env.isStackable item.kind then
      match _hstack : stackOn env item inbox with
      | some (inbox, 0) => some inbox
      | some (inbox, count + 1) =>
        some ((internalAddItem inbox { item with count := count + 1 }).getD inbox)
      | none => some (item :: inbox)
    else some (item :: inbox)
  else none
termination_by item.count
decreasing_by exact count_stackOn _hstack (Nat.succ_pos _)

variable (offer : ItemOffer κ)

/-- The units of the next stack at most. -/
def ItemOffer.packSize : ℕ := if offer.type = .STACKABLE_ITEM then 100 else 1

theorem ItemOffer.packSize_pos : 0 < offer.packSize := by
  unfold ItemOffer.packSize
  split_ifs <;> decide

/-- The loop over the stacks: the inbox, and the units that were pending when a stack was not
added. -/
def deliver (pendingCount : ℕ) (inbox : List (Item κ)) : List (Item κ) × ℕ :=
  if 0 < pendingCount then
    match offer.product.bind fun kind =>
        internalAddItem env inbox (createItem env kind (min offer.packSize pendingCount)) with
    | some inbox => deliver (pendingCount - min pendingCount offer.packSize) inbox
    | none => (inbox, pendingCount)
  else (inbox, 0)
termination_by pendingCount
decreasing_by
  have := offer.packSize_pos
  omega

def ItemOffer.requiredSlots : UInt32 :=
  match offer.type with
  | .ITEM | .WRAP_ITEM => offer.count.toUInt32
  | .STACKABLE_ITEM =>
    if offer.count % 100 ≠ 0 then (offer.count / 100).toUInt32 + 1
    else (offer.count / 100).toUInt32

def ItemOffer.capNeeded : UInt32 :=
  if offer.type = .WRAP_ITEM then 0 else offer.weight * offer.count.toUInt32

/-- `(offer->price * (tmp->count - pendingCount)) / tmp->count`. -/
def ItemOffer.refund (pendingCount : ℕ) : UInt32 :=
  offer.price * UInt32.ofNat (offer.count.toNat - pendingCount) / offer.count.toUInt32

/-- The inbox that an order goes to, or why it is turned down before anything is taken. -/
def checkOrder (player : Player κ) : Except Reply (Inbox κ) :=
  if player.getCoinBalance < offer.price then
    .error (.sendStoreError .PURCHASE "You don't have enough coins")
  else
    match player.inbox with
    | none => .error (.sendStoreError .NETWORK
        ("We cannot locate your store inbox, try again after relog and if this error persists, "
          ++ "contact the system administrator."))
    | some inbox =>
      if inbox.capacity - UInt32.ofNat inbox.itemlist.length < offer.requiredSlots then
        .error (.sendStoreError .PURCHASE "Insuficient free slots in your store inbox.")
      else if player.freeCapacity < offer.capNeeded then
        .error (.sendStoreError .PURCHASE "Not enough cap to carry.")
      else .ok inbox

/-- `Game::playerBuyStoreOffer` for an offer of items. -/
def playerBuyStoreOffer (player : Player κ) : Player κ × Reply :=
  match checkOrder offer player with
  | .error reply => (player, reply)
  | .ok inbox =>
    let player := (player.removeCoins offer.price.toInt32).registerTransaction
      (-offer.price).toInt32
    let delivery := deliver env offer offer.count.toNat inbox.itemlist
    let player := { player with inbox := some { inbox with itemlist := delivery.1 } }
    if 0 < delivery.2 then
      let refund := offer.refund delivery.2
      ((player.addCoins refund.toInt32).registerTransaction (-offer.price + refund).toInt32,
        .sendStoreError .PURCHASE
          ("We couldn't deliver all the items.\nOnly the delivered ones were charged from you "
            ++ "account"))
    else
      (player, .sendStorePurchaseSuccessful ("You have purchased " ++ toString offer.count
        ++ "x " ++ offer.name ++ " for " ++ toString offer.price ++ " coins."))

/-! ## What is charged and what is delivered -/

def units (l : List (Item κ)) : ℕ := (l.map (·.count)).sum

def Player.units (player : Player κ) : ℕ :=
  match player.inbox with
  | none => 0
  | some inbox => GameStore.units inbox.itemlist

/-- The coins have dropped by the price of what was put in the inbox, rounded either way, and
where nothing was put there they have not dropped. -/
def Fair (player player' : Player κ) : Prop :=
  |(player.coins - player'.coins) * offer.count.toNat
    - offer.price.toNat * ((player'.units : ℤ) - player.units)| < offer.count.toNat ∧
  (player'.units = player.units → player'.coins = player.coins)

/-- The units that are pending when the inbox first refuses a stack, or 0 where it takes all. -/
def refusedAt (pendingCount : ℕ) (inbox : List (Item κ)) : ℕ :=
  if 0 < pendingCount then
    match offer.product.bind fun kind =>
        internalAddItem env inbox (createItem env kind (min offer.packSize pendingCount)) with
    | some inbox => refusedAt (pendingCount - min pendingCount offer.packSize) inbox
    | none => pendingCount
  else 0
termination_by pendingCount
decreasing_by
  have := offer.packSize_pos
  omega

/-- The units that the stacks for a part of the order really hold. -/
def ItemOffer.held (n : ℕ) : ℕ :=
  if offer.product.any env.isStackable then n else (n + offer.packSize - 1) / offer.packSize

/-- What the refund is when so many units are pending. -/
def ItemOffer.paidBack (pendingCount : ℕ) : ℕ :=
  if pendingCount = 0 then 0
  else offer.price.toNat * (offer.count.toNat - pendingCount) % 2 ^ 32 / offer.count.toNat

/-- The orders that are charged for what they deliver. -/
def FairlyCharged (player : Player κ) : Prop :=
  match checkOrder offer player with
  | .error _ => True
  | .ok inbox =>
    let pendingCount := refusedAt env offer offer.count.toNat inbox.itemlist
    offer.price < 2 ^ 31 ∧
      |((offer.price.toNat : ℤ) - offer.paidBack pendingCount) * offer.count.toNat -
        offer.price.toNat * ((offer.held env offer.count.toNat : ℤ) - offer.held env pendingCount)|
        < offer.count.toNat

section Proofs

variable {env : Env κ} {offer : ItemOffer κ} {inbox inbox' : List (Item κ)} {item : Item κ}
  {count : ℕ}

theorem units_cons (item : Item κ) (l : List (Item κ)) :
    units (item :: l) = item.count + units l := by
  simp [units]

theorem length_stackOn (h : stackOn env item inbox = some (inbox', count)) :
    inbox'.length = inbox.length := by
  induction inbox generalizing inbox' with
  | nil => cases h
  | cons listItem l ih =>
    rw [stackOn] at h
    split_ifs at h with hfits
    · cases h
      rfl
    · obtain ⟨r, hr, heq⟩ := Option.map_eq_some_iff.mp h
      cases heq
      exact congrArg (· + 1) (ih hr)

theorem units_stackOn (h : stackOn env item inbox = some (inbox', count)) :
    units inbox' + count = units inbox + item.count := by
  induction inbox generalizing inbox' with
  | nil => cases h
  | cons listItem l ih =>
    rw [stackOn] at h
    split_ifs at h with hfits
    · cases h
      simp only [units_cons]
      omega
    · obtain ⟨r, hr, heq⟩ := Option.map_eq_some_iff.mp h
      cases heq
      simp only [units_cons]
      have := ih hr
      omega

/-- An item that the inbox does not object to is put there with all its units: what does not fit
on a stack is not objected to either. -/
theorem internalAddItem_of_queryAdd (h : env.queryAdd inbox.length item.kind = true) :
    ∃ inbox', internalAddItem env inbox item = some inbox' ∧
      units inbox' = units inbox + item.count := by
  induction hn : item.count using Nat.strong_induction_on generalizing inbox item with
  | h n ih =>
    subst hn
    rw [internalAddItem, if_pos h]
    split_ifs with hstackable
    · split
      · next l hstack =>
        exact ⟨l, rfl, units_stackOn hstack⟩
      · next l count hstack =>
        have hlt := count_stackOn hstack (Nat.succ_pos _)
        have hunits := units_stackOn hstack
        have hquery : env.queryAdd l.length item.kind = true := by
          rw [length_stackOn hstack]
          exact h
        obtain ⟨inbox', hadd, hunits'⟩ : ∃ inbox',
            internalAddItem env l { item with count := count + 1 } = some inbox' ∧
              units inbox' = units l + (count + 1) := ih _ hlt hquery rfl
        refine ⟨inbox', by rw [hadd]; rfl, ?_⟩
        omega
      · exact ⟨_, rfl, by rw [units_cons]; omega⟩
    · exact ⟨_, rfl, by rw [units_cons]; omega⟩

theorem units_internalAddItem (h : internalAddItem env inbox item = some inbox') :
    units inbox' = units inbox + item.count := by
  by_cases hquery : env.queryAdd inbox.length item.kind = true
  · obtain ⟨l, hadd, hunits⟩ := internalAddItem_of_queryAdd hquery
    rw [h, Option.some.injEq] at hadd
    rw [hadd, hunits]
  · rw [internalAddItem, if_neg hquery] at h
    cases h

/-- The units in the next stack. -/
theorem held_sub (env : Env κ) {kind : κ} (hkind : offer.product = some kind) {n : ℕ} (hn : 0 < n) :
    offer.held env (n - min n offer.packSize) +
      (createItem env kind (min offer.packSize n)).count = offer.held env n := by
  have hpos := offer.packSize_pos
  simp only [ItemOffer.held, createItem, hkind, Option.any_some]
  split_ifs
  · omega
  · rcases le_total n offer.packSize with hle | hle
    · have hone : (n + offer.packSize - 1) / offer.packSize = 1 :=
        Nat.div_eq_of_lt_le (by omega) (by omega)
      rw [min_eq_left hle, Nat.sub_self, hone, Nat.div_eq_of_lt (by omega)]
    · have hsub : n + offer.packSize - 1 = (n - offer.packSize + offer.packSize - 1)
          + offer.packSize := by omega
      rw [min_eq_right hle, hsub, Nat.add_div_right _ hpos]

/-- The loop stops where a stack is refused, and until then puts in the inbox what the stacks
hold. -/
theorem deliver_spec (env : Env κ) (offer : ItemOffer κ) (n : ℕ) (inbox : List (Item κ)) :
    (deliver env offer n inbox).2 = refusedAt env offer n inbox ∧
    refusedAt env offer n inbox ≤ n ∧
    units (deliver env offer n inbox).1 + offer.held env (refusedAt env offer n inbox) =
      units inbox + offer.held env n := by
  induction n using Nat.strong_induction_on generalizing inbox with
  | h n ih =>
    rw [deliver, refusedAt]
    split_ifs with hn
    · have hlt : n - min n offer.packSize < n := by
        have := offer.packSize_pos
        omega
      cases hadd : offer.product.bind fun kind =>
          internalAddItem env inbox (createItem env kind (min offer.packSize n)) with
      | none => exact ⟨rfl, le_rfl, rfl⟩
      | some l =>
        obtain ⟨kind, hkind, hadd⟩ := Option.bind_eq_some_iff.mp hadd
        obtain ⟨heq, hle, hunits⟩ := ih _ hlt l
        refine ⟨heq, hle.trans (Nat.sub_le ..), ?_⟩
        have hheld := held_sub env hkind hn
        have hinbox := units_internalAddItem hadd
        dsimp only
        omega
    · obtain rfl : n = 0 := by omega
      exact ⟨rfl, le_rfl, rfl⟩

theorem held_le (env : Env κ) (offer : ItemOffer κ) {m n : ℕ} (h : m ≤ n) :
    offer.held env m ≤ offer.held env n := by
  unfold ItemOffer.held
  split_ifs
  · exact h
  · exact Nat.div_le_div_right (by omega)

theorem toInt_toInt32 (u : UInt32) :
    u.toInt32.toInt = if u < 2 ^ 31 then (u.toNat : ℤ) else u.toNat - 2 ^ 32 := by
  have hword : u.toInt32.toInt = if 2 * u.toNat < 2 ^ 32 then (u.toNat : ℤ)
      else (u.toNat : ℤ) - (2 ^ 32 : ℕ) := BitVec.toInt_eq_toNat_cond _
  have hiff : u < 2 ^ 31 ↔ 2 * u.toNat < 2 ^ 32 := by
    rw [UInt32.lt_iff_toNat_lt]
    have : (2 ^ 31 : UInt32).toNat = 2 ^ 31 := by decide
    omega
  rw [hword]
  simp only [hiff, Nat.cast_pow, Nat.cast_ofNat]

theorem toNat_refund {pendingCount : ℕ} (h : 0 < pendingCount) :
    (offer.refund pendingCount).toNat = offer.paidBack pendingCount := by
  have hcount := offer.count.toNat_lt
  have hsold : (UInt32.ofNat (offer.count.toNat - pendingCount)).toNat =
      offer.count.toNat - pendingCount := by
    rw [UInt32.toNat_ofNat']
    exact Nat.mod_eq_of_lt (by omega)
  rw [ItemOffer.refund, ItemOffer.paidBack, if_neg h.ne', UInt32.toNat_div, UInt32.toNat_mul, hsold,
    UInt16.toNat_toUInt32]

theorem count_pos (offer : ItemOffer κ) : 0 < offer.count.toNat := by
  have hne := offer.count_ne
  rw [ne_eq, ← UInt16.toNat_inj] at hne
  exact Nat.pos_of_ne_zero hne

/-- What is paid back fits in the signed amount it is handed over as. -/
theorem toInt_refund {pendingCount : ℕ} (h : 0 < pendingCount) :
    (offer.refund pendingCount).toInt32.toInt = offer.paidBack pendingCount := by
  have hsmall : offer.paidBack pendingCount < 2 ^ 31 := by
    rw [ItemOffer.paidBack, if_neg h.ne']
    have hmod := Nat.mod_lt (offer.price.toNat * (offer.count.toNat - pendingCount))
      (show 2 ^ 32 > 0 by decide)
    rcases Nat.lt_or_ge 1 offer.count.toNat with hcount | hcount
    · exact (Nat.div_le_div_left hcount (by decide)).trans_lt
        (Nat.div_lt_of_lt_mul (by omega))
    · have hsold : offer.count.toNat - pendingCount = 0 := by omega
      simp [hsold]
  have hlt : offer.refund pendingCount < 2 ^ 31 := by
    rw [UInt32.lt_iff_toNat_lt, toNat_refund h]
    exact hsmall
  rw [toInt_toInt32, if_pos hlt, toNat_refund h]

variable {player : Player κ} {target : Inbox κ}

/-- What an order that is not turned down does to the coins and to the inbox. -/
theorem playerBuyStoreOffer_of_ok (env : Env κ) (h : checkOrder offer player = .ok target) :
    (playerBuyStoreOffer env offer player).1.coins = player.coins - offer.price.toInt32.toInt +
      offer.paidBack (refusedAt env offer offer.count.toNat target.itemlist) ∧
    (playerBuyStoreOffer env offer player).1.units =
      units (deliver env offer offer.count.toNat target.itemlist).1 := by
  obtain ⟨heq, -, -⟩ := deliver_spec env offer offer.count.toNat target.itemlist
  simp only [playerBuyStoreOffer, h, heq]
  split_ifs with hpos
  · simp only [Player.addCoins, Player.removeCoins, Player.registerTransaction, toInt_refund hpos]
    exact ⟨trivial, rfl⟩
  · have hzero : refusedAt env offer offer.count.toNat target.itemlist = 0 := by omega
    simp only [Player.removeCoins, Player.registerTransaction, hzero]
    exact ⟨by simp [ItemOffer.paidBack], rfl⟩

theorem inbox_of_ok (h : checkOrder offer player = .ok target) : player.inbox = some target := by
  unfold checkOrder at h
  split at h
  · cases h
  · split at h
    · cases h
    · next inbox hinbox =>
      split at h
      · cases h
      · split at h
        · cases h
        · cases h
          exact hinbox

/-- Rounding of nothing is nothing. -/
theorem eq_zero_of_abs_mul_lt {paid : ℤ} {n : ℕ} (h : |paid * n| < n) : paid = 0 := by
  by_contra hne
  have hone : 1 ≤ |paid| := Int.one_le_abs hne
  have hn : (0 : ℤ) ≤ n := Int.natCast_nonneg n
  rw [abs_mul, abs_of_nonneg hn] at h
  have : (1 : ℤ) * n ≤ |paid| * n := by gcongr
  omega

/-- A purchase is charged for what it delivers exactly if the order is turned down, or the price
without what is paid back happens to be the price of the stacks that were not refused. -/
theorem fair_iff (env : Env κ) (offer : ItemOffer κ) (player : Player κ) :
    Fair offer player (playerBuyStoreOffer env offer player).1 ↔
      FairlyCharged env offer player := by
  unfold FairlyCharged
  split
  · next reply hreply =>
    have hsame : (playerBuyStoreOffer env offer player).1 = player := by
      simp only [playerBuyStoreOffer, hreply]
    rw [hsame, iff_true]
    exact ⟨by simp [count_pos], fun _ => rfl⟩
  · next target htarget =>
    obtain ⟨hcoins, hunits⟩ := playerBuyStoreOffer_of_ok env htarget
    obtain ⟨-, hle, hdeliver⟩ := deliver_spec env offer offer.count.toNat target.itemlist
    have hbefore : player.units = units target.itemlist := by
      rw [Player.units, inbox_of_ok htarget]
    dsimp only
    generalize refusedAt env offer offer.count.toNat target.itemlist = pending at *
    have hheld := held_le env offer hle
    have hdelivered : ((playerBuyStoreOffer env offer player).1.units : ℤ) - player.units =
        (offer.held env offer.count.toNat : ℤ) - offer.held env pending := by
      omega
    have hpaid : player.coins - (playerBuyStoreOffer env offer player).1.coins =
        offer.price.toInt32.toInt - offer.paidBack pending := by
      omega
    have hprice := offer.price.toNat_lt
    have hcount : (0 : ℤ) ≤ offer.count.toNat := Int.natCast_nonneg _
    rw [Fair, hpaid, hdelivered, toInt_toInt32]
    split_ifs with hlt
    · constructor
      · rintro ⟨hclose, -⟩
        exact ⟨hlt, hclose⟩
      · rintro ⟨-, hclose⟩
        refine ⟨hclose, fun hsame => ?_⟩
        rw [hsame, sub_self] at hdelivered
        rw [← hdelivered, mul_zero, sub_zero] at hclose
        have hzero := eq_zero_of_abs_mul_lt hclose
        rw [toInt_toInt32, if_pos hlt, hzero] at hpaid
        omega
    · -- As a signed amount such a price is negative, so taking it gives coins.
      constructor
      · rintro ⟨hclose, -⟩
        have hpaid' : ((offer.price.toNat : ℤ) - 2 ^ 32 - offer.paidBack pending) *
            offer.count.toNat ≤ -1 * offer.count.toNat := by
          gcongr
          omega
        have hcost : 0 ≤ (offer.price.toNat : ℤ) *
            ((offer.held env offer.count.toNat : ℤ) - offer.held env pending) :=
          mul_nonneg (Int.natCast_nonneg _) (by omega)
        rw [abs_lt] at hclose
        omega
      · rintro ⟨hlt', -⟩
        exact absurd hlt' hlt

/-- An order of which nothing is delivered is never charged as it should be. -/
theorem not_fairlyCharged_of_refusedAt (h : checkOrder offer player = .ok target)
    (hrefused : refusedAt env offer offer.count.toNat target.itemlist = offer.count.toNat) :
    ¬FairlyCharged env offer player := by
  unfold FairlyCharged
  rw [h]
  rintro ⟨-, hclose⟩
  have hback : offer.paidBack offer.count.toNat = 0 := by
    simp [ItemOffer.paidBack]
  rw [hrefused, hback, sub_self, mul_zero, sub_zero, Nat.cast_zero, sub_zero] at hclose
  have hzero := eq_zero_of_abs_mul_lt hclose
  refine offer.price_ne (UInt32.toNat_inj.mp ?_)
  exact_mod_cast hzero

/-- For stacks that hold what they are for, and a price that does not wrap in the product, an order
that breaks off is charged as it should be exactly if about half of it was delivered. -/
theorem fairlyCharged_iff_half (h : checkOrder offer player = .ok target)
    (hheld : ∀ n, offer.held env n = n) {sold : ℕ} (hsold : sold < offer.count.toNat)
    (hrefused : refusedAt env offer offer.count.toNat target.itemlist =
      offer.count.toNat - sold)
    (hwrap : offer.price.toNat * sold < 2 ^ 32) :
    FairlyCharged env offer player ↔ offer.price < 2 ^ 31 ∧
      |(offer.price.toNat : ℤ) * (offer.count.toNat - 2 * sold) +
        (offer.price.toNat * sold % offer.count.toNat : ℕ)| < offer.count.toNat := by
  have hsub : offer.count.toNat - (offer.count.toNat - sold) = sold := by omega
  have hback : ((offer.paidBack (offer.count.toNat - sold) : ℕ) : ℤ) * offer.count.toNat =
      offer.price.toNat * sold - (offer.price.toNat * sold % offer.count.toNat : ℕ) := by
    have hdiv := Nat.div_add_mod (offer.price.toNat * sold) offer.count.toNat
    rw [ItemOffer.paidBack, if_neg (by omega), hsub, Nat.mod_eq_of_lt hwrap]
    push_cast
    linarith [(by exact_mod_cast hdiv : (offer.count.toNat : ℤ) *
      (offer.price.toNat * sold / offer.count.toNat : ℕ) +
        (offer.price.toNat * sold % offer.count.toNat : ℕ) = offer.price.toNat * sold)]
  have hcharge : ((offer.price.toNat : ℤ) - offer.paidBack (offer.count.toNat - sold)) *
      offer.count.toNat - offer.price.toNat *
        ((offer.count.toNat : ℤ) - (offer.count.toNat - sold : ℕ)) =
      (offer.price.toNat : ℤ) * (offer.count.toNat - 2 * sold) +
        (offer.price.toNat * sold % offer.count.toNat : ℕ) := by
    rw [sub_mul, hback, Nat.cast_sub hsold.le]
    ring
  unfold FairlyCharged
  rw [h]
  dsimp only
  rw [hrefused, hheld, hheld, hcharge]

end Proofs

/-- One item for ten coins, offered to a player with a hundred. -/
def goldPouch : ItemOffer Unit :=
  { type := .ITEM, name := "gold pouch", price := 10, product := some (), weight := 0, count := 1
    price_ne := by decide, count_ne := by decide }

def buyer : Player Unit :=
  { coins := 100, history := [], freeCapacity := 0
    inbox := some { itemlist := [], capacity := 20 } }

/-- An inbox that may not hold any more items. -/
def fullEnv : Env Unit :=
  { isStackable := fun _ => false, equals := fun _ _ => true, queryAdd := fun _ _ => false }

/-- Where the only item is refused, all of the ten coins are kept. -/
theorem not_fair_goldPouch :
    ¬Fair goldPouch buyer (playerBuyStoreOffer fullEnv goldPouch buyer).1 := by
  have hok : checkOrder goldPouch buyer = .ok { itemlist := [], capacity := 20 } := rfl
  have hadd : internalAddItem fullEnv [] (createItem fullEnv () 1) = none := by
    rw [internalAddItem, if_neg (by decide)]
  have hdeliver : deliver fullEnv goldPouch 1 [] = ([], 1) := by
    rw [deliver, if_pos Nat.one_pos]
    simp only [goldPouch, ItemOffer.packSize, Option.bind_some, reduceCtorEq, if_false, min_self,
      hadd]
  have hrefused : refusedAt fullEnv goldPouch 1 [] = 1 := by
    rw [← (deliver_spec fullEnv goldPouch 1 []).1, hdeliver]
  obtain ⟨hcoins, hunits⟩ := playerBuyStoreOffer_of_ok fullEnv hok
  rintro ⟨-, hfree⟩
  have hsame := hfree (hunits.trans (by
    rw [show goldPouch.count.toNat = 1 from rfl, hdeliver]
    rfl))
  rw [hsame, show goldPouch.count.toNat = 1 from rfl, hrefused] at hcoins
  revert hcoins
  decide

end GameStore

end OTServBR
