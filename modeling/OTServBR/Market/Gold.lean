import OTServBR.Market.Books

/-! # Gold

The gold of the market is what players have in the bank and in coins together
with what open buy offers hold. Debits are exact, so a step changes the gold
by the fee it charges, unless a 32-bit product wraps or an expired offer was
accepted in part between its query and the callback.
-/

namespace OTServBR.Market

def Player.gold (p : Player) : ℕ := p.bankBalance.toNat + p.money

/-- What a number of units of an offer holds in gold. -/
def MarketOffer.worth (o : MarketOffer) (amount : UInt16) : ℕ :=
  match o.type with
  | .buy => o.price.toNat * amount.toNat
  | .sell => 0

theorem MarketOffer.worth_of_buy {o : MarketOffer} (h : o.type = .buy) (amount : UInt16) :
    o.worth amount = o.price.toNat * amount.toNat := by
  rw [worth, h]

theorem MarketOffer.worth_of_sell {o : MarketOffer} (h : o.type = .sell) (amount : UInt16) :
    o.worth amount = 0 := by
  rw [worth, h]

/-- `removeMoney` takes the cost exactly, when there is enough. -/
def Env.ExactDebit (env : Env) : Prop :=
  ∀ bank money cost useBalance, cost.toNat ≤ money + (if useBalance then bank.toNat else 0) →
    (env.removeMoney bank money cost useBalance).1.toNat +
      (env.removeMoney bank money cost useBalance).2 + cost.toNat = bank.toNat + money

namespace State

section Defs

variable (st : State) (P : UInt32 → Bool)

/-- Bank balances and coins of the players that `P` selects. -/
def moneyOf : ℕ := st.players.sum fun p => if P p.guid then p.gold else 0

/-- What the buy offers of these players hold. -/
def escrowOf : ℕ := st.offers.sum fun o => if P o.playerId then o.worth o.amount else 0

def goldOf : ℕ := st.moneyOf P + st.escrowOf P

/-- All the gold. -/
def gold : ℕ := st.goldOf fun _ => true

/-- The fee that a step charges: that of a new offer. -/
def fee (env : Env) : Event → ℕ
  | .create playerId type spriteId amount price anonymous =>
    if (st.step env (.create playerId type spriteId amount price anonymous)).offers.next =
        st.offers.next then 0
    else (env.offerFee price amount).toNat
  | _ => 0

/-- The fees of a run. -/
def fees (env : Env) (st : State) : List Event → ℕ
  | [] => 0
  | e :: events => st.fee env e + fees env (st.step env e) events

end Defs

variable {env : Env} {st st' : State} {P : UInt32 → Bool} {guid : UInt32} {p : Player}

/-! ## Gold of the single updates -/

theorem moneyOf_modifyPlayer {f : Player → Player} (hf : ∀ p, (f p).guid = p.guid)
    (h : st.players.find guid = some p) :
    (st.modifyPlayer guid f hf).moneyOf P + (if P guid then p.gold else 0) =
      st.moneyOf P + if P guid then (f p).gold else 0 := by
  have hsum := Table.sum_modify hf (v := fun p : Player => if P p.guid then p.gold else 0) h
  simp only [hf, Table.key_of_find h] at hsum
  exact hsum

/-- An update of other fields keeps the gold. -/
theorem moneyOf_modifyPlayer_of_eq {f : Player → Player} (hf : ∀ p, (f p).guid = p.guid)
    (hgold : ∀ p, (f p).gold = p.gold) : (st.modifyPlayer guid f hf).moneyOf P = st.moneyOf P :=
  Table.sum_modify_of_eq hf fun p => by rw [hf, hgold]

@[simp] theorem moneyOf_updateMarketExhausted :
    (st.updateMarketExhausted guid).moneyOf P = st.moneyOf P :=
  moneyOf_modifyPlayer_of_eq (f := fun p => { p with lastMarketInteraction := st.now })
    (fun _ => rfl) fun _ => rfl

@[simp] theorem escrowOf_updateMarketExhausted :
    (st.updateMarketExhausted guid).escrowOf P = st.escrowOf P := rfl

theorem moneyOf_eq (h : st'.players = st.players) : st'.moneyOf P = st.moneyOf P := by
  rw [moneyOf, moneyOf, h]

theorem escrowOf_eq (h : st'.offers = st.offers) : st'.escrowOf P = st.escrowOf P := by
  rw [escrowOf, escrowOf, h]

theorem goldOf_eq (h : SameBooks st st') : st'.goldOf P = st.goldOf P := by
  rw [goldOf, goldOf, moneyOf_eq h.players, escrowOf_eq h.offers]

theorem gold_le (h : st.players.find guid = some p) : p.gold ≤ st.gold :=
  (Table.le_sum (v := Player.gold) (Table.mem_of_find h)).trans (Nat.le_add_right _ _)

theorem worth_le {o : MarketOffer} (ho : o ∈ st.offers.rows) :
    o.worth o.amount ≤ st.offers.sum fun o => o.worth o.amount :=
  Table.le_sum (v := fun o : MarketOffer => o.worth o.amount) ho

theorem gold_add_worth_le {o : MarketOffer} (h : st.players.find guid = some p)
    (ho : o ∈ st.offers.rows) : p.gold + o.worth o.amount ≤ st.gold :=
  Nat.add_le_add (Table.le_sum (v := Player.gold) (Table.mem_of_find h)) (worth_le ho)

theorem gold_add_gold_le {q : Player} {guid' : UInt32} (h : st.players.find guid = some p)
    (h' : st.players.find guid' = some q) (hne : guid ≠ guid') : p.gold + q.gold ≤ st.gold := by
  refine (Table.add_le_sum (v := Player.gold) (Table.mem_of_find h) (Table.mem_of_find h')
    ?_).trans (Nat.le_add_right _ _)
  rwa [Table.key_of_find h, Table.key_of_find h']

/-- Below 2^64 the 64-bit sum of bank and coins is exact. -/
theorem toNat_bank_add_getMoney (h : p.gold < 2 ^ 64) :
    (p.bankBalance + p.getMoney).toNat = p.gold := by
  unfold Player.gold at h ⊢
  have hmoney : p.getMoney.toNat = p.money := by
    rw [Player.getMoney, UInt64.toNat_ofNat']
    exact Nat.mod_eq_of_lt (by omega)
  rw [UInt64.toNat_add, hmoney]
  exact Nat.mod_eq_of_lt h

theorem moneyOf_removeMoney (hexact : env.ExactDebit) (h : st.players.find guid = some p)
    {cost : UInt64} (hle : cost.toNat ≤ p.gold) :
    (st.removeMoney env guid cost true).moneyOf P + (if P guid then cost.toNat else 0) =
      st.moneyOf P := by
  have hpaid : (p.removeMoney env cost true).gold + cost.toNat = p.gold :=
    hexact p.bankBalance p.money cost true (by rw [if_pos rfl, add_comm]; exact hle)
  have hsum := moneyOf_modifyPlayer (P := P)
    (f := fun p => p.removeMoney env cost true) (fun _ => rfl) h
  change (st.removeMoney env guid cost true).moneyOf P + _ = _ at hsum
  split_ifs at hsum ⊢ <;> omega

theorem moneyOf_pay (hexact : env.ExactDebit) (h : st.players.find guid = some p)
    {totalPrice : UInt64} (hle : totalPrice.toNat ≤ p.gold) :
    (st.pay env guid totalPrice).moneyOf P + (if P guid then totalPrice.toNat else 0) =
      st.moneyOf P := by
  have hpaid : (p.pay env totalPrice).gold + totalPrice.toNat = p.gold := by
    unfold Player.pay
    split
    · next hbank =>
      have hnat := UInt64.le_iff_toNat_le.mp hbank
      simp only [Player.gold, UInt64.toNat_sub_of_le _ _ hbank]
      omega
    · next hbank =>
      have hlt : p.bankBalance ≤ totalPrice := by
        rw [UInt64.le_iff_toNat_le] at hbank ⊢
        omega
      have hrest := UInt64.toNat_sub_of_le _ _ hlt
      have hnat := UInt64.le_iff_toNat_le.mp hlt
      unfold Player.gold at hle
      have hcoins := hexact 0 p.money (totalPrice - p.bankBalance) false (by
        rw [if_neg Bool.false_ne_true, hrest]
        omega)
      simp only [Player.gold, Player.removeMoney]
      simp only [UInt64.toNat_zero] at hcoins
      omega
  have hsum := moneyOf_modifyPlayer (P := P)
    (f := fun p => p.pay env totalPrice) (fun p => p.guid_pay env totalPrice) h
  change (st.pay env guid totalPrice).moneyOf P + _ = _ at hsum
  split_ifs at hsum ⊢ <;> omega

theorem moneyOf_increaseBankBalance (h : st.players.find guid = some p) {n : UInt64}
    (hlt : p.gold + n.toNat < 2 ^ 64) :
    (st.increaseBankBalance guid n).moneyOf P = st.moneyOf P + if P guid then n.toNat else 0 := by
  have hbank : ({ p with bankBalance := p.bankBalance + n } : Player).gold = p.gold + n.toNat := by
    unfold Player.gold at hlt ⊢
    simp only [UInt64.toNat_add]
    rw [Nat.mod_eq_of_lt (by omega)]
    omega
  have hsum := moneyOf_modifyPlayer (P := P)
    (f := fun p => { p with bankBalance := p.bankBalance + n }) (fun _ => rfl) h
  change (st.increaseBankBalance guid n).moneyOf P + _ = _ at hsum
  rw [hbank] at hsum
  split_ifs at hsum ⊢ <;> omega

theorem moneyOf_createOffer {action : MarketAction} {itemId amount : UInt16} {price : UInt32}
    {anonymous : Bool} :
    (st.createOffer guid action itemId amount price anonymous).moneyOf P = st.moneyOf P := rfl

theorem escrowOf_createBuyOffer {itemId amount : UInt16} {price : UInt32} {anonymous : Bool} :
    (st.createOffer guid .buy itemId amount price anonymous).escrowOf P =
      (if P guid then price.toNat * amount.toNat else 0) + st.escrowOf P :=
  AutoTable.sum_insert

theorem escrowOf_createSellOffer {itemId amount : UInt16} {price : UInt32} {anonymous : Bool} :
    (st.createOffer guid .sell itemId amount price anonymous).escrowOf P = st.escrowOf P := by
  have hsum : (st.createOffer guid .sell itemId amount price anonymous).escrowOf P =
      (if P guid then 0 else 0) + st.escrowOf P := AutoTable.sum_insert
  rw [hsum, ite_self, Nat.zero_add]

theorem escrowOf_deleteOffer {o : MarketOffer} (ho : o ∈ st.offers.rows) :
    (st.deleteOffer o.id).escrowOf P + (if P o.playerId then o.worth o.amount else 0) =
      st.escrowOf P :=
  AutoTable.sum_erase (v := fun o : MarketOffer => if P o.playerId then o.worth o.amount else 0)
    (Table.find_self ho)

theorem escrowOf_acceptOffer {o : MarketOffer} {amount : UInt16} (ho : o ∈ st.offers.rows)
    (hle : amount ≤ o.amount) :
    (st.acceptOffer o.id amount).escrowOf P + (if P o.playerId then o.worth amount else 0) =
      st.escrowOf P := by
  have hsum := AutoTable.sum_modify
    (f := fun o : MarketOffer => { o with amount := o.amount - amount })
    (v := fun o : MarketOffer => if P o.playerId then o.worth o.amount else 0)
    (fun _ => rfl) (Table.find_self ho)
  change (st.acceptOffer o.id amount).escrowOf P + _ = st.escrowOf P + _ at hsum
  have hworth : o.worth (o.amount - amount) + o.worth amount = o.worth o.amount := by
    unfold MarketOffer.worth
    split
    · rw [← Nat.mul_add, UInt16.toNat_sub_of_le _ _ hle,
        Nat.sub_add_cancel (UInt16.le_iff_toNat_le.mp hle)]
    · rfl
  have hrest : ({ o with amount := o.amount - amount } : MarketOffer).worth (o.amount - amount) =
      o.worth (o.amount - amount) := rfl
  simp only [hrest] at hsum
  split_ifs at hsum ⊢ <;> omega

/-! ## Gold of the requests -/

/-- The steps that stay clear of the defects: the 32-bit product of a buy offer does not wrap,
and the buy offers an expiry still finds open have the amount that the query read. -/
def GoldSafe (env : Env) (st : State) : Event → Prop
  | .create _ type _ amount price _ =>
    MarketAction.ofUInt8 type = some .buy → price.toNat * amount.toNat < 2 ^ 32
  | .accept _ timestamp counter amount =>
    ∀ o, st.getOfferByCounter env timestamp counter = some o → o.type = .buy →
      o.price.toNat * amount.toNat < 2 ^ 32
  | .processExpired =>
    ∀ rows ∈ st.expiredOffers.head?, ∀ row ∈ rows, row.type = .buy →
      ∀ o ∈ st.offers.rows, o.id = row.id → o.amount = row.amount
  | _ => True

variable (env) in
theorem toNat_offerFee_le (price : UInt32) (amount : UInt16) :
    (env.offerFee price amount).toNat ≤ 1000 := by
  unfold Env.offerFee
  dsimp only
  split
  · decide
  · split
    · decide
    · next h => exact UInt64.le_iff_toNat_le.mp (UInt64.not_lt.mp h)

/-- The 32-bit product of price and amount. -/
theorem toNat_product {price : UInt32} {amount : UInt16}
    (h : price.toNat * amount.toNat < 2 ^ 32) :
    (price * amount.toUInt32).toUInt64.toNat = price.toNat * amount.toNat := by
  rw [UInt32.toNat_toUInt64, UInt32.toNat_mul, UInt16.toNat_toUInt32, Nat.mod_eq_of_lt h]

/-- The 64-bit product of price and amount. -/
theorem toNat_fullProduct (price : UInt32) (amount : UInt16) :
    (price.toUInt64 * amount.toUInt64).toNat = price.toNat * amount.toNat := by
  rw [UInt64.toNat_mul, UInt32.toNat_toUInt64, UInt16.toNat_toUInt64]
  refine Nat.mod_eq_of_lt ?_
  calc price.toNat * amount.toNat < 2 ^ 32 * 2 ^ 16 :=
        Nat.mul_lt_mul'' price.toNat_lt amount.toNat_lt
    _ ≤ 2 ^ 64 := by decide

/-- A request to create an offer changes the gold by the fee of the new offer, and a buy offer
takes the price and the fee. -/
theorem goldOf_create (hexact : env.ExactDebit) (hgold : st.gold < 2 ^ 64)
    {playerId : UInt32} {type : UInt8} {spriteId amount : UInt16} {price : UInt32}
    {anonymous : Bool}
    (h : st.playerCreateMarketOffer env playerId type spriteId amount price anonymous = some st')
    (hsafe : MarketAction.ofUInt8 type = some .buy → price.toNat * amount.toNat < 2 ^ 32) :
    (st'.offers.next = st.offers.next ∧ ∀ P, st'.goldOf P = st.goldOf P) ∨
      (st'.offers.next = st.offers.next + 1 ∧ ∀ P,
        st'.goldOf P + (if P playerId then (env.offerFee price amount).toNat else 0) =
          st.goldOf P ∧
        (MarketAction.ofUInt8 type = some .buy →
          st'.moneyOf P + (if P playerId then
            price.toNat * amount.toNat + (env.offerFee price amount).toNat else 0) =
              st.moneyOf P)) := by
  obtain ⟨player, hfind, rfl, rfl | ⟨action, it, st₁, haction, -, -, -, hplace, rfl⟩⟩ :=
    create_cases h
  · left
    refine ⟨rfl, fun P => ?_⟩
    rw [goldOf, goldOf, escrowOf_eq (P := P) rfl]
    congr 1
    exact moneyOf_modifyPlayer_of_eq (f := fun p => { p with inMarket := false }) (fun _ => rfl)
      fun _ => rfl
  · right
    have hplayer := (gold_le hfind).trans_lt hgold
    have hfee := toNat_offerFee_le env price amount
    rcases hplace with ⟨rfl, hplace⟩ | ⟨rfl, hplace⟩
    · obtain ⟨hle, st₀, htake, rfl⟩ := placeSellOffer_cases hplace
      have hbooks := sameBooks_takeGoods htake
      have hfind₀ : st₀.players.find player.guid = some player := by rw [hbooks.players, hfind]
      rw [UInt64.le_iff_toNat_le, toNat_bank_add_getMoney hplayer] at hle
      refine ⟨by rw [← hbooks.offers]; rfl, fun P => ⟨?_, ?_⟩⟩
      · have hdebit := moneyOf_removeMoney (P := P) hexact hfind₀ hle
        have hescrow : (st₀.removeMoney env player.guid (env.offerFee price amount) true).escrowOf P =
            st.escrowOf P := escrowOf_eq hbooks.offers
        rw [moneyOf_eq hbooks.players] at hdebit
        rw [goldOf, goldOf, moneyOf_updateMarketExhausted, escrowOf_updateMarketExhausted,
          moneyOf_createOffer, escrowOf_createSellOffer, hescrow]
        omega
      · intro hbuy
        rw [haction] at hbuy
        cases hbuy
    · obtain ⟨hle, rfl⟩ := placeBuyOffer_cases hplace
      have hlt := hsafe haction
      have htotal : ((price * amount.toUInt32).toUInt64 + env.offerFee price amount).toNat =
          price.toNat * amount.toNat + (env.offerFee price amount).toNat := by
        rw [UInt64.toNat_add, toNat_product hlt]
        exact Nat.mod_eq_of_lt (by omega)
      rw [UInt64.add_comm player.getMoney, UInt64.le_iff_toNat_le,
        toNat_bank_add_getMoney hplayer] at hle
      refine ⟨rfl, fun P => ?_⟩
      have hdebit := moneyOf_removeMoney (P := P) hexact hfind hle
      have hescrow : (st.removeMoney env player.guid
          ((price * amount.toUInt32).toUInt64 + env.offerFee price amount) true).escrowOf P =
            st.escrowOf P := rfl
      rw [htotal] at hdebit
      rw [goldOf, goldOf, moneyOf_updateMarketExhausted, escrowOf_updateMarketExhausted,
        moneyOf_createOffer, escrowOf_createBuyOffer, hescrow]
      refine ⟨?_, fun _ => hdebit⟩
      split_ifs at hdebit ⊢ <;> omega

/-- Cancelling an offer gives its owner exactly what the offer held. -/
theorem goldOf_cancel (hgold : st.gold < 2 ^ 64) {playerId timestamp : UInt32} {counter : UInt16}
    (h : st.playerCancelMarketOffer env playerId timestamp counter = some st') :
    st'.goldOf P = st.goldOf P := by
  obtain ⟨player, offer, hfind, rfl, hmem, hown, st₁, hrefund, rfl⟩ := cancel_cases h
  have hfull := toNat_fullProduct offer.price offer.amount
  have hbound := gold_add_worth_le hfind hmem
  have hrefunded : st₁.offers = st.offers ∧ st₁.moneyOf P =
      st.moneyOf P + if P player.guid then offer.worth offer.amount else 0 := by
    cases htype : offer.type with
    | buy =>
      simp only [refundOffer, htype, Option.some.injEq] at hrefund
      subst hrefund
      rw [MarketOffer.worth_of_buy htype] at hbound ⊢
      refine ⟨rfl, ?_⟩
      rw [moneyOf_increaseBankBalance hfind (by rw [hfull]; exact hbound.trans_lt hgold), hfull]
    | sell =>
      simp only [refundOffer, htype] at hrefund
      split at hrefund
      · cases hrefund
      · obtain rfl := Option.some.inj hrefund
        have hbooks := sameBooks_giveGoods env.types st
          (env.types.getItemType offer.itemId) offer.amount player
        rw [MarketOffer.worth_of_sell htype, ite_self, Nat.add_zero]
        exact ⟨hbooks.offers, moneyOf_eq hbooks.players⟩
  obtain ⟨hoffers, hmoney⟩ := hrefunded
  have hmem₁ : offer ∈ st₁.offers.rows := by rw [hoffers]; exact hmem
  have herase := escrowOf_deleteOffer (P := P) hmem₁
  have hsame : (st₁.deleteOffer offer.id).moneyOf P = st₁.moneyOf P := rfl
  rw [escrowOf_eq hoffers, hown] at herase
  rw [moveOfferToHistory_eq hmem₁, Option.getD_some, goldOf, goldOf, moneyOf_updateMarketExhausted,
    escrowOf_updateMarketExhausted, hsame, hmoney]
  omega

theorem escrowOf_closeUnits {o : MarketOffer} {amount : UInt16} (ho : o ∈ st.offers.rows)
    (hle : amount ≤ o.amount) :
    (if o.amount = amount then st.deleteOffer o.id else st.acceptOffer o.id amount).escrowOf P +
      (if P o.playerId then o.worth amount else 0) = st.escrowOf P := by
  split
  · next heq =>
    subst heq
    exact escrowOf_deleteOffer ho
  · exact escrowOf_acceptOffer ho hle

theorem moneyOf_closeUnits {o : MarketOffer} {amount : UInt16} :
    (if o.amount = amount then st.deleteOffer o.id else st.acceptOffer o.id amount).moneyOf P =
      st.moneyOf P := by
  split <;> rfl

/-- Accepting units of an offer moves gold between players and the offer. -/
theorem gold_accept (hexact : env.ExactDebit) (hcons : Consistent st) (hgold : st.gold < 2 ^ 64)
    {playerId timestamp : UInt32} {counter amount : UInt16}
    (h : st.playerAcceptMarketOffer env playerId timestamp counter amount = some st')
    (hsafe : ∀ o, st.getOfferByCounter env timestamp counter = some o → o.type = .buy →
      o.price.toNat * amount.toNat < 2 ^ 32) : st'.gold = st.gold := by
  obtain ⟨player, offer, hfind, rfl, hoffer, -, hle, -, -, st₁, hacc, rfl⟩ := accept_cases h
  have hmem := mem_of_getOfferByCounter hoffer
  have hmoved : st₁.offers = st.offers ∧ st₁.moneyOf (fun _ => true) =
      st.moneyOf (fun _ => true) + offer.worth amount := by
    rcases hacc with ⟨htype, hacc⟩ | ⟨htype, hacc⟩
    · obtain ⟨buyer, -, -, st₀, htake, rfl⟩ := acceptBuyOffer_cases hacc
      have hlt := hsafe offer hoffer htype
      have hbooks := sameBooks_takeGoods htake
      have hgive := sameBooks_giveGoods env.types
        (st₀.increaseBankBalance player.guid (offer.price * amount.toUInt32).toUInt64)
        (env.types.getItemType offer.itemId) amount buyer
      have hfind₀ : st₀.players.find player.guid = some player := by rw [hbooks.players, hfind]
      have hbound := gold_add_worth_le hfind hmem
      have hpart : offer.price.toNat * amount.toNat ≤ offer.worth offer.amount := by
        rw [MarketOffer.worth_of_buy htype]
        exact Nat.mul_le_mul_left _ (UInt16.le_iff_toNat_le.mp hle)
      rw [MarketOffer.worth_of_buy htype]
      refine ⟨hgive.offers.trans hbooks.offers, ?_⟩
      rw [moneyOf_eq hgive.players, moneyOf_increaseBankBalance hfind₀
        (by rw [toNat_product hlt]; omega), moneyOf_eq hbooks.players, toNat_product hlt,
        if_pos rfl]
    · obtain ⟨hne, hafford, rfl⟩ := acceptSellOffer_cases hacc
      rw [UInt64.le_iff_toNat_le, toNat_bank_add_getMoney ((gold_le hfind).trans_lt hgold)]
        at hafford
      obtain ⟨seller, hseller⟩ := Option.isSome_iff_exists.mp (hcons.owner offer hmem)
      have hgive := sameBooks_giveGoods env.types
        (st.pay env player.guid (offer.price * amount.toUInt32).toUInt64)
        (env.types.getItemType offer.itemId) amount player
      have hbound := gold_add_gold_le hfind hseller (Ne.symm hne)
      have hpaid := moneyOf_pay (P := fun _ => true) hexact hfind hafford
      have hseller' : ((st.pay env player.guid
          (offer.price * amount.toUInt32).toUInt64).giveGoods env.types
            (env.types.getItemType offer.itemId) amount player).players.find offer.playerId =
              some seller := by
        rw [hgive.players]
        exact (Table.find_modify_of_ne (f := fun p : Player => p.pay env _)
          (fun p => p.guid_pay env _) hne).trans hseller
      rw [MarketOffer.worth_of_sell htype]
      refine ⟨hgive.offers, ?_⟩
      rw [moneyOf_increaseBankBalance hseller' (by omega), moneyOf_eq hgive.players, if_pos rfl]
      rw [if_pos rfl] at hpaid
      exact hpaid
  obtain ⟨hoffers, hmoney⟩ := hmoved
  have hmem₁ : offer ∈ st₁.offers.rows := by rw [hoffers]; exact hmem
  have hclose := escrowOf_closeUnits (P := fun _ => true) hmem₁ hle
  rw [escrowOf_eq hoffers, if_pos rfl] at hclose
  rw [gold, gold, goldOf, goldOf, moneyOf_updateMarketExhausted, escrowOf_updateMarketExhausted,
    moneyOf_closeUnits, hmoney]
  omega

/-! ## Gold of expiry -/

theorem goldOf_processExpiredOffer (hcons : Consistent st) (hgold : st.gold < 2 ^ 64)
    {row : MarketOffer} (hfit : st.Fits (fun o row => row.type = .buy → o.amount = row.amount) row) :
    (st.processExpiredOffer env row).goldOf P = st.goldOf P := by
  unfold processExpiredOffer
  cases hmove : st.moveOfferToHistory row.id with
  | none => rfl
  | some st₁ =>
    obtain ⟨o, ho, rfl⟩ := Option.map_eq_some_iff.mp hmove
    obtain ⟨hmem, hid⟩ := Table.find_eq_some.mp ho
    obtain ⟨hrow, hamount⟩ := hfit o hmem hid
    have hplayer : row.playerId = o.playerId := by rw [hrow]
    have htype : row.type = o.type := by rw [hrow]
    have hprice : row.price = o.price := by rw [hrow]
    have herase := escrowOf_deleteOffer (P := P) hmem
    rw [hid] at herase
    dsimp only
    cases hsale : row.type with
    | sell =>
      have hworth : o.worth o.amount = 0 := MarketOffer.worth_of_sell (htype.symm.trans hsale) _
      have hclosed : (st.deleteOffer row.id).goldOf P = st.goldOf P := by
        have hsame : (st.deleteOffer row.id).moneyOf P = st.moneyOf P := rfl
        rw [hworth, ite_self, Nat.add_zero] at herase
        rw [goldOf, goldOf, herase, hsame]
      dsimp only
      split
      · exact hclosed
      · split
        · exact hclosed
        · rw [goldOf_eq (sameBooks_giveItems _ _ _ _ _), hclosed]
    | buy =>
      obtain ⟨owner, howner⟩ := Option.isSome_iff_exists.mp (hcons.owner o hmem)
      have hfull : (row.price.toUInt64 * row.amount.toUInt64).toNat = o.worth o.amount := by
        rw [toNat_fullProduct, hprice, ← hamount hsale,
          MarketOffer.worth_of_buy (htype.symm.trans hsale)]
      have hbound := gold_add_worth_le howner hmem
      have howner' : (st.deleteOffer row.id).players.find o.playerId = some owner := howner
      have hmoney := moneyOf_increaseBankBalance (P := P) howner'
        (n := row.price.toUInt64 * row.amount.toUInt64) (by rw [hfull]; omega)
      have hsame : (st.deleteOffer row.id).moneyOf P = st.moneyOf P := rfl
      have hescrow : ((st.deleteOffer row.id).increaseBankBalance o.playerId
          (row.price.toUInt64 * row.amount.toUInt64)).escrowOf P =
            (st.deleteOffer row.id).escrowOf P := rfl
      dsimp only
      rw [hplayer, goldOf, goldOf, hmoney, hescrow, hfull, hsame]
      omega

/-- An expiry gives every owner exactly what its offers held. -/
theorem goldOf_processExpiredOffers (hcons : Consistent st) (hgold : st.gold < 2 ^ 64)
    (hsafe : st.GoldSafe env .processExpired) :
    (st.processExpiredOffers env).goldOf P = st.goldOf P := by
  have hkeep : Consistent (st.processExpiredOffers env) ∧
      ∀ P, (st.processExpiredOffers env).goldOf P = st.goldOf P := by
    refine processExpiredOffers_induct (I := fun s => Consistent s ∧ ∀ P, s.goldOf P = st.goldOf P)
      hcons (fun rows hrows row hrow o ho hid htype => hsafe rows hrows row hrow htype o ho hid)
      ⟨hcons, fun _ => rfl⟩ (fun results hr => ⟨hcons.dropResults hr, fun _ => rfl⟩) ?_
    rintro s row ⟨hs, hsum⟩ hfit
    refine ⟨hs.evolve evolves_processExpiredOffer, fun P => ?_⟩
    rw [goldOf_processExpiredOffer hs _ hfit, hsum]
    rw [gold, hsum]
    exact hgold
  exact hkeep.2 P

/-! ## Gold of a run -/

/-- What a step does to the gold: all of it changes by the fee only; a new buy offer takes its
price and the fee from its owner; and a cancelled or expired offer is paid back to its owner. -/
structure GoldKept (env : Env) (st : State) (e : Event) : Prop where
  total : (st.step env e).gold + st.fee env e = st.gold
  created : ∀ playerId type spriteId amount price anonymous,
    e = .create playerId type spriteId amount price anonymous →
    MarketAction.ofUInt8 type = some .buy →
    (st.step env e).offers.next = st.offers.next + 1 →
    (st.step env e).moneyOf (· == playerId) + price.toNat * amount.toNat +
      (env.offerFee price amount).toNat = st.moneyOf (· == playerId)
  returned : (∃ playerId timestamp counter, e = .cancel playerId timestamp counter) ∨
    e = .processExpired → ∀ guid, (st.step env e).goldOf (· == guid) = st.goldOf (· == guid)

theorem goldKept_create (hexact : env.ExactDebit) (hgold : st.gold < 2 ^ 64)
    {playerId : UInt32} {type : UInt8} {spriteId amount : UInt16} {price : UInt32}
    {anonymous : Bool}
    (hsafe : st.GoldSafe env (.create playerId type spriteId amount price anonymous)) :
    st.GoldKept env (.create playerId type spriteId amount price anonymous) := by
  cases h : st.playerCreateMarketOffer env playerId type spriteId amount price anonymous with
  | none =>
    have hstep : st.step env (.create playerId type spriteId amount price anonymous) = st := by
      rw [step, h, Option.getD_none]
    constructor
    · rw [fee, hstep, if_pos rfl, Nat.add_zero]
    · rintro _ _ _ _ _ _ - - hnext
      rw [hstep] at hnext
      omega
    · rintro (⟨_, _, _, he⟩ | he) <;> cases he
  | some st' =>
    have hstep : st.step env (.create playerId type spriteId amount price anonymous) = st' := by
      rw [step, h, Option.getD_some]
    rcases goldOf_create hexact hgold h hsafe with ⟨hnext, hkeep⟩ | ⟨hnext, hcharge⟩
    · constructor
      · rw [fee, hstep, if_pos hnext, Nat.add_zero]
        exact hkeep _
      · rintro _ _ _ _ _ _ - - hnew
        rw [hstep] at hnew
        omega
      · rintro (⟨_, _, _, he⟩ | he) <;> cases he
    · constructor
      · rw [fee, hstep, if_neg (by omega)]
        have htotal := (hcharge fun _ => true).1
        rw [if_pos rfl] at htotal
        exact htotal
      · rintro _ _ _ _ _ _ he hbuy -
        cases he
        have hpaid := (hcharge (· == playerId)).2 hbuy
        rw [if_pos (by simp)] at hpaid
        rw [hstep]
        omega
      · rintro (⟨_, _, _, he⟩ | he) <;> cases he

/-- A step that keeps the gold of every player and charges no fee. -/
theorem GoldKept.of_goldOf {e : Event} (hcreate : ∀ playerId type spriteId amount price anonymous,
    e ≠ .create playerId type spriteId amount price anonymous)
    (h : ∀ P, (st.step env e).goldOf P = st.goldOf P) : st.GoldKept env e where
  total := by
    have hfee : st.fee env e = 0 := by
      cases e with
      | create => exact absurd rfl (hcreate _ _ _ _ _ _)
      | _ => rfl
    rw [hfee, Nat.add_zero]
    exact h _
  created := fun _ _ _ _ _ _ he => absurd he (hcreate _ _ _ _ _ _)
  returned := fun _ guid => h _

theorem goldKept_step (hexact : env.ExactDebit) (hcons : Consistent st) (hgold : st.gold < 2 ^ 64)
    {e : Event} (hsafe : st.GoldSafe env e) : st.GoldKept env e := by
  cases e with
  | create => exact goldKept_create hexact hgold hsafe
  | cancel playerId timestamp counter =>
    refine .of_goldOf (by simp) fun P => ?_
    cases h : st.playerCancelMarketOffer env playerId timestamp counter with
    | none => rw [step, h, Option.getD_none]
    | some st' =>
      rw [step, h, Option.getD_some]
      exact goldOf_cancel hgold h
  | accept playerId timestamp counter amount =>
    constructor
    · cases h : st.playerAcceptMarketOffer env playerId timestamp counter amount with
      | none =>
        change ((st.playerAcceptMarketOffer env playerId timestamp counter amount).getD st).gold + 0 = _
        rw [h, Option.getD_none, Nat.add_zero]
      | some st' =>
        change ((st.playerAcceptMarketOffer env playerId timestamp counter amount).getD st).gold + 0 = _
        rw [h, Option.getD_some, Nat.add_zero]
        exact gold_accept hexact hcons hgold h hsafe
    · rintro _ _ _ _ _ _ he
      cases he
    · rintro (⟨_, _, _, he⟩ | he) <;> cases he
  | queryExpired => exact .of_goldOf (by simp) fun _ => rfl
  | processExpired =>
    exact .of_goldOf (by simp) fun _ => goldOf_processExpiredOffers hcons hgold hsafe
  | runTask =>
    refine .of_goldOf (by simp) fun P => ?_
    unfold step runTask
    dsimp only
    split <;> rfl
  | advance => exact .of_goldOf (by simp) fun _ => rfl
  | session guid online inMarket premium =>
    refine .of_goldOf (by simp) fun P => ?_
    have hmoney : (st.step env (.session guid online inMarket premium)).moneyOf P = st.moneyOf P :=
      moneyOf_modifyPlayer_of_eq (f := fun p => { p with online := online, inMarket := inMarket, premium := premium })
      (fun _ => rfl) fun _ => rfl
    exact congrArg (· + st.escrowOf P) hmoney

/-- In a run whose steps are all safe, the gold changes by the fees only, and every step keeps
the gold as it should. -/
theorem gold_run (hexact : env.ExactDebit) (hcons : Consistent st) (hgold : st.gold < 2 ^ 64)
    (events : List Event) (hsafe : st.Along env (GoldSafe env) events) :
    (st.run env events).gold + st.fees env events = st.gold ∧
      st.Along env (GoldKept env) events := by
  induction events generalizing st with
  | nil => exact ⟨rfl, trivial⟩
  | cons e events ih =>
    obtain ⟨hfirst, hrest⟩ := hsafe
    have hkept := goldKept_step hexact hcons hgold hfirst
    have htotal := hkept.total
    obtain ⟨hrun, halong⟩ := ih (consistent_step hcons e) (by omega) hrest
    refine ⟨?_, hkept, halong⟩
    change ((st.step env e).run env events).gold + (st.fee env e + (st.step env e).fees env events) =
      st.gold
    omega

/-! ## A product that wraps -/

/-- A server with one ware, a sword, whose coins are taken from the purse before the bank. -/
def swordEnv : Env where
  types :=
    { items := fun id => if id = 2376 then { id := 2376, wareId := 3264, moveable := true } else {}
      reverseItemMap := fun spriteId => if spriteId = 3264 then some 2376 else none }
  marketPremium := false
  rawFee := fun price amount => price.toUInt64 * amount.toUInt64 / 100
  removeMoney := fun bank money cost useBalance =>
    let coins := min money cost.toNat
    (if useBalance then bank - UInt64.ofNat (cost.toNat - coins) else bank, money - coins)

theorem exactDebit_swordEnv : swordEnv.ExactDebit := by
  intro bank money cost useBalance hle
  have hbank := bank.toNat_lt
  simp only [swordEnv]
  cases useBalance with
  | false =>
    simp only [Bool.false_eq_true, if_false] at hle ⊢
    omega
  | true =>
    simp only [if_true] at hle ⊢
    have hsub : UInt64.ofNat (cost.toNat - min money cost.toNat) ≤ bank := by
      rw [UInt64.le_iff_toNat_le, UInt64.toNat_ofNat']
      exact (Nat.mod_le _ _).trans (by omega)
    rw [UInt64.toNat_sub_of_le _ _ hsub, UInt64.toNat_ofNat', Nat.mod_eq_of_lt (by omega)]
    omega

/-- A market with one player, who has 2000 gold in the bank. -/
def onePlayer : State where
  players := ⟨[{ guid := 1, account := 1, bankBalance := 2000, depotLocker := 0, inbox := 1 }],
    by decide⟩
  accounts := ⟨[⟨1, 0⟩], by decide⟩
  offers := ⟨⟨[], by decide⟩, 1, by decide⟩
  objs := ⟨⟨[], by decide⟩, 2, by decide⟩
  now := 3000

theorem consistent_onePlayer : Consistent onePlayer :=
  ⟨by simp [onePlayer], by simp [onePlayer]⟩

/-- Six swords for 715827883 each are 2 gold in 32 bits; the offer holds all of it. -/
theorem not_gold_run : ¬ ∀ (env : Env) (st : State) (events : List Event), env.ExactDebit →
    Consistent st → st.gold < 2 ^ 64 →
    (st.run env events).gold + st.fees env events = st.gold := by
  intro h
  have hbad := h swordEnv onePlayer [.create 1 0 3264 6 715827883 false] exactDebit_swordEnv
    consistent_onePlayer (by decide +kernel)
  exact absurd hbad (by decide +kernel)

/-- Ten swords are asked for, and the offer is cancelled after three seconds. -/
def cancelledOffer : List Event :=
  [.create 1 0 3264 10 100 false, .advance 3000, .cancel 1 2592003 1]

theorem gold_run_cancelled :
    (onePlayer.run swordEnv cancelledOffer).gold + onePlayer.fees swordEnv cancelledOffer =
        onePlayer.gold ∧
      onePlayer.Along swordEnv (GoldKept swordEnv) cancelledOffer :=
  gold_run exactDebit_swordEnv consistent_onePlayer (by decide +kernel) cancelledOffer
    ⟨fun _ => by decide, trivial, trivial, trivial⟩

end State

end OTServBR.Market
