import OTServBR.Market.Offers

/-! # The books stay consistent

Every open offer has an owner, and a row of an unprocessed query agrees with
the offer of its id, where this is still open, in everything but the amount.
All steps but the query only change amounts, close offers and add new ones.
-/

namespace OTServBR.Market

structure Consistent (st : State) : Prop where
  owner : ∀ o ∈ st.offers.rows, (st.players.find o.playerId).isSome
  row : ∀ rows ∈ st.expiredOffers, ∀ row ∈ rows, row.id < st.offers.next ∧
    ∀ o ∈ st.offers.rows, o.id = row.id → row = { o with amount := row.amount }

/-- What a step may do to the books. -/
structure Evolves (st st' : State) : Prop where
  players : ∀ guid, (st'.players.find guid).isSome = (st.players.find guid).isSome
  expired : ∀ rows ∈ st'.expiredOffers, rows ∈ st.expiredOffers
  next : st.offers.next ≤ st'.offers.next
  offers : ∀ o ∈ st'.offers.rows,
    (∃ o' ∈ st.offers.rows, o = { o' with amount := o.amount }) ∨
      (st.offers.next ≤ o.id ∧ (st.players.find o.playerId).isSome)

variable {env : Env} {st st₁ st₂ st' : State}

theorem Consistent.evolve (h : Consistent st) (he : Evolves st st') : Consistent st' where
  owner := by
    intro o ho
    rw [he.players]
    rcases he.offers o ho with ⟨o', ho', hoo⟩ | ⟨-, hown⟩
    · rw [hoo]
      exact h.owner o' ho'
    · exact hown
  row := by
    intro rows hrows row hrow
    obtain ⟨hlt, hsame⟩ := h.row rows (he.expired rows hrows) row hrow
    refine ⟨hlt.trans_le he.next, fun o ho hid => ?_⟩
    rcases he.offers o ho with ⟨o', ho', hoo⟩ | ⟨hnew, -⟩
    · rw [hoo]
      exact hsame o' ho' (by rw [← hid, hoo])
    · omega

theorem Consistent.dropResults (h : Consistent st) {results : List (List MarketOffer)}
    (hr : ∀ rows ∈ results, rows ∈ st.expiredOffers) :
    Consistent { st with expiredOffers := results } :=
  ⟨h.owner, fun rows hrows => h.row rows (hr rows hrows)⟩

theorem Evolves.refl : Evolves st st where
  players _ := rfl
  expired _ h := h
  next := le_refl _
  offers o ho := .inl ⟨o, ho, rfl⟩

theorem Evolves.trans (h : Evolves st st₁) (h' : Evolves st₁ st₂) : Evolves st st₂ where
  players guid := (h'.players guid).trans (h.players guid)
  expired rows hrows := h.expired rows (h'.expired rows hrows)
  next := h.next.trans h'.next
  offers := by
    intro o ho
    rcases h'.offers o ho with ⟨o₁, ho₁, hoo₁⟩ | ⟨hnew, hown⟩
    · rcases h.offers o₁ ho₁ with ⟨o', ho', hoo'⟩ | ⟨hnew, hown⟩
      · exact .inl ⟨o', ho', by rw [hoo₁, hoo']⟩
      · exact .inr (by rw [hoo₁]; exact ⟨hnew, hown⟩)
    · exact .inr ⟨h.next.trans hnew, by rwa [h.players] at hown⟩

theorem SameBooks.evolves (h : SameBooks st st') : Evolves st st' where
  players guid := by rw [h.players]
  expired rows hrows := by rwa [h.expiredOffers] at hrows
  next := by rw [h.offers]
  offers o ho := .inl ⟨o, by rwa [h.offers] at ho, rfl⟩

namespace State

theorem evolves_modifyPlayer {guid : UInt32} {f : Player → Player} {hf : ∀ p, (f p).guid = p.guid} :
    Evolves st (st.modifyPlayer guid f hf) where
  players _ := Table.find_modify_isSome hf
  expired _ h := h
  next := le_refl _
  offers o ho := .inl ⟨o, ho, rfl⟩

theorem evolves_createOffer {playerId : UInt32} {action : MarketAction} {itemId amount : UInt16}
    {price : UInt32} {anonymous : Bool} (h : (st.players.find playerId).isSome) :
    Evolves st (st.createOffer playerId action itemId amount price anonymous) where
  players _ := rfl
  expired _ h := h
  next := Nat.le_succ _
  offers := by
    intro o ho
    rcases AutoTable.mem_insert.mp ho with rfl | ho
    · exact .inr ⟨le_refl _, h⟩
    · exact .inl ⟨o, ho, rfl⟩

theorem evolves_acceptOffer {offerId : ℕ} {amount : UInt16} :
    Evolves st (st.acceptOffer offerId amount) where
  players _ := rfl
  expired _ h := h
  next := le_refl _
  offers := by
    intro o ho
    obtain ⟨o', ho', rfl⟩ := (AutoTable.mem_modify
      (f := fun o : MarketOffer => { o with amount := o.amount - amount }) fun _ => rfl).mp ho
    refine .inl ⟨o', ho', ?_⟩
    split <;> rfl

theorem evolves_deleteOffer {offerId : ℕ} : Evolves st (st.deleteOffer offerId) where
  players _ := rfl
  expired _ h := h
  next := le_refl _
  offers o ho := .inl ⟨o, (Table.mem_erase.mp ho).1, rfl⟩

theorem evolves_moveOfferToHistory {offerId : ℕ} (h : st.moveOfferToHistory offerId = some st') :
    Evolves st st' := by
  obtain ⟨_, -, rfl⟩ := Option.map_eq_some_iff.mp h
  exact evolves_deleteOffer

theorem evolves_create {playerId : UInt32} {type : UInt8} {spriteId amount : UInt16}
    {price : UInt32} {anonymous : Bool}
    (h : st.playerCreateMarketOffer env playerId type spriteId amount price anonymous = some st') :
    Evolves st st' := by
  obtain ⟨player, hfind, hguid, rfl | ⟨action, it, st₁, -, -, -, -, hplace, rfl⟩⟩ := create_cases h
  · exact evolves_modifyPlayer
  · have hplaced : Evolves st st₁ := by
      rcases hplace with ⟨-, hplace⟩ | ⟨-, hplace⟩
      · obtain ⟨-, st₀, htake, rfl⟩ := placeSellOffer_cases hplace
        exact (sameBooks_takeGoods htake).evolves.trans evolves_modifyPlayer
      · obtain ⟨-, rfl⟩ := placeBuyOffer_cases hplace
        exact evolves_modifyPlayer
    have hown : (st₁.players.find playerId).isSome := by
      rw [hplaced.players, hfind]
      rfl
    exact hplaced.trans ((evolves_createOffer hown).trans evolves_modifyPlayer)

theorem evolves_refundOffer {player : Player} {offer : MarketOffer}
    (h : st.refundOffer env player offer = some st') : Evolves st st' := by
  unfold refundOffer at h
  split at h
  · obtain rfl := Option.some.inj h
    exact evolves_modifyPlayer
  · dsimp only at h
    split at h
    · cases h
    · obtain rfl := Option.some.inj h
      exact (sameBooks_giveGoods _ _ _ _ _).evolves

theorem evolves_cancel {playerId timestamp : UInt32} {counter : UInt16}
    (h : st.playerCancelMarketOffer env playerId timestamp counter = some st') :
    Evolves st st' := by
  obtain ⟨player, offer, -, -, -, -, st₁, hrefund, rfl⟩ := cancel_cases h
  refine (evolves_refundOffer hrefund).trans (Evolves.trans ?_ evolves_modifyPlayer)
  cases hmove : st₁.moveOfferToHistory offer.id with
  | none => exact .refl
  | some st₂ => exact evolves_moveOfferToHistory hmove

theorem evolves_accept {playerId timestamp : UInt32} {counter amount : UInt16}
    (h : st.playerAcceptMarketOffer env playerId timestamp counter amount = some st') :
    Evolves st st' := by
  obtain ⟨player, offer, -, -, -, -, -, -, -, st₁, hacc, rfl⟩ := accept_cases h
  have haccepted : Evolves st st₁ := by
    rcases hacc with ⟨-, hacc⟩ | ⟨-, hacc⟩
    · obtain ⟨buyer, -, -, st₀, htake, rfl⟩ := acceptBuyOffer_cases hacc
      exact (sameBooks_takeGoods htake).evolves.trans
        (evolves_modifyPlayer.trans (sameBooks_giveGoods _ _ _ _ _).evolves)
    · obtain ⟨-, -, rfl⟩ := acceptSellOffer_cases hacc
      exact evolves_modifyPlayer.trans
        ((sameBooks_giveGoods _ _ _ _ _).evolves.trans evolves_modifyPlayer)
  refine haccepted.trans (Evolves.trans ?_ evolves_modifyPlayer)
  split
  · exact evolves_deleteOffer
  · exact evolves_acceptOffer

theorem evolves_processExpiredOffer {row : MarketOffer} :
    Evolves st (st.processExpiredOffer env row) := by
  unfold processExpiredOffer
  cases hmove : st.moveOfferToHistory row.id with
  | none => exact .refl
  | some st₁ =>
    refine (evolves_moveOfferToHistory hmove).trans ?_
    dsimp only
    split
    · split
      · exact .refl
      · split
        · exact .refl
        · exact (sameBooks_giveItems _ _ _ _ _).evolves
    · exact evolves_modifyPlayer

theorem evolves_processRows {rows : List MarketOffer} :
    Evolves st (rows.foldl (processExpiredOffer env) st) := by
  induction rows generalizing st with
  | nil => exact .refl
  | cons row rows ih => exact evolves_processExpiredOffer.trans ih

theorem evolves_processExpiredOffers : Evolves st (st.processExpiredOffers env) := by
  unfold processExpiredOffers
  split
  · exact .refl
  · next rows results hrows =>
    refine Evolves.trans (?_ : Evolves st { st with expiredOffers := results }) evolves_processRows
    exact ⟨fun _ => rfl, fun r hr => by rw [hrows]; exact List.mem_cons_of_mem _ hr, le_refl _,
      fun o ho => .inl ⟨o, ho, rfl⟩⟩

/-- Processing a row only closes an offer. -/
theorem mem_offers_processExpiredOffer {row o : MarketOffer}
    (h : o ∈ (st.processExpiredOffer env row).offers.rows) : o ∈ st.offers.rows := by
  unfold processExpiredOffer at h
  cases hmove : st.moveOfferToHistory row.id with
  | none =>
    rw [hmove] at h
    exact h
  | some st₁ =>
    obtain ⟨_, -, rfl⟩ := Option.map_eq_some_iff.mp hmove
    rw [hmove] at h
    have hclosed : o ∈ (st.deleteOffer row.id).offers.rows := by
      dsimp only at h
      split at h
      · split at h
        · exact h
        · split at h
          · exact h
          · rwa [(sameBooks_giveItems _ _ _ _ _).offers] at h
      · exact h
    exact (AutoTable.mem_erase.mp hclosed).1

/-- A row of a query that agrees with the open offer of its id, where there is one. -/
def Fits (Q : MarketOffer → MarketOffer → Prop) (st : State) (row : MarketOffer) : Prop :=
  ∀ o ∈ st.offers.rows, o.id = row.id → row = { o with amount := row.amount } ∧ Q o row

/-- What holds before an expiry and is kept by every row that fits holds after it. -/
theorem processExpiredOffers_induct {Q : MarketOffer → MarketOffer → Prop} {I : State → Prop}
    (hcons : Consistent st)
    (hfit : ∀ rows ∈ st.expiredOffers.head?, ∀ row ∈ rows, ∀ o ∈ st.offers.rows, o.id = row.id →
      Q o row)
    (hstart : I st)
    (hdrop : ∀ results, (∀ rows ∈ results, rows ∈ st.expiredOffers) →
      I { st with expiredOffers := results })
    (hstep : ∀ s row, I s → Fits Q s row → I (s.processExpiredOffer env row)) :
    I (st.processExpiredOffers env) := by
  have hfold : ∀ (rows : List MarketOffer) (s : State), I s → (∀ row ∈ rows, Fits Q s row) →
      I (rows.foldl (processExpiredOffer env) s) := by
    intro rows
    induction rows with
    | nil => exact fun s hs _ => hs
    | cons row rows ih =>
      intro s hs hall
      refine ih _ (hstep s row hs (hall row (by simp))) fun row' hrow' o ho hid => ?_
      exact hall row' (by simp [hrow']) o (mem_offers_processExpiredOffer ho) hid
  unfold processExpiredOffers
  cases hrows : st.expiredOffers with
  | nil => exact hstart
  | cons rows results =>
    refine hfold rows _ (hdrop results fun r hr => by rw [hrows]; exact List.mem_cons_of_mem _ hr) ?_
    intro row hrow o ho hid
    obtain ⟨-, hsame⟩ := hcons.row rows (by rw [hrows]; simp) row hrow
    exact ⟨hsame o ho hid, hfit rows (by rw [hrows]; rfl) row hrow o ho hid⟩

theorem consistent_queryExpiredOffers (h : Consistent st) (lastExpireDate : ℤ) :
    Consistent (st.queryExpiredOffers lastExpireDate) where
  owner := h.owner
  row := by
    intro rows hrows row hrow
    rcases List.mem_append.mp hrows with hrows | hrows
    · exact h.row rows hrows row hrow
    · obtain rfl := List.mem_singleton.mp hrows
      have hmem : row ∈ st.offers.rows := List.mem_of_mem_filter hrow
      refine ⟨st.offers.lt row hmem, fun o ho hid => ?_⟩
      obtain rfl := Table.eq_of_key_eq ho hmem hid
      rfl

theorem evolves_runTask : Evolves st st.runTask := by
  unfold runTask
  split
  · exact .refl
  · exact ⟨fun _ => rfl, fun _ h => h, le_refl _, fun o ho => .inl ⟨o, ho, rfl⟩⟩

/-- Every step keeps the books consistent. -/
theorem consistent_step (h : Consistent st) (e : Event) : Consistent (st.step env e) := by
  have hrequest : ∀ x : Option State, (∀ st', x = some st' → Evolves st st') →
      Consistent (x.getD st) := by
    intro x hx
    cases x with
    | none => exact h
    | some st' => exact h.evolve (hx st' rfl)
  cases e with
  | create => exact hrequest _ fun _ => evolves_create
  | cancel => exact hrequest _ fun _ => evolves_cancel
  | accept => exact hrequest _ fun _ => evolves_accept
  | queryExpired lastExpireDate => exact consistent_queryExpiredOffers h lastExpireDate
  | processExpired => exact h.evolve evolves_processExpiredOffers
  | runTask => exact h.evolve evolves_runTask
  | advance => exact ⟨h.owner, h.row⟩
  | session => exact h.evolve evolves_modifyPlayer

end State

end OTServBR.Market
