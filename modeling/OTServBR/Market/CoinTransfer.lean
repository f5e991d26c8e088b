import OTServBR.Lib.Ledger
import OTServBR.Lib.Run
import OTServBR.Lib.Transaction

/-! # Transfers of coins

Coins go from one account to another in a transaction of two updates. The answers
to the updates and to the commit are not looked at: a transfer that was not
stored, or only half of it, is reported as a success.
-/

namespace OTServBR

namespace CoinTransfer

/-- The balances of the accounts, and the rows of `store_history` without their times. -/
structure Tables (ι : Type) where
  coins : ι → ℤ
  storeHistory : List (ι × Int32 × String) := []

inductive Reply
  | sendStoreError (message : String)
  | sendStorePurchaseSuccessful (message : String) (coins : UInt32)
  | sendCoinBalance
  deriving DecidableEq, Repr

/-- How the queries of a transfer are answered, in their order. -/
structure Answers where
  selectReceiver : Answer := {}
  selectBalance : Answer := {}
  begin : Answer := {}
  debit : Answer := {}
  credit : Answer := {}
  commit : Answer := {}
  insertSent : Answer := {}
  insertReceived : Answer := {}
  selectLeft : Answer := {}

def Answers.debitIsStored (a : Answers) : Bool := Session.storesFirst a.debit a.credit a.commit
def Answers.creditIsStored (a : Answers) : Bool := Session.storesSecond a.debit a.credit a.commit

structure Transfer (ι : Type) where
  /-- The account and the name of the player, if it is online. -/
  sender : Option (ι × String)
  receiverName : String
  amount : UInt32
  /-- The row of the receiver in `players`: its name, and its account unless that is zero. -/
  row : Option (String × Option ι)
  receiverIsOnline : Bool := false
  answers : Answers := {}

variable {ι : Type} [DecidableEq ι]

/-- Numbers that do not fit are cut to the largest one, negative ones wrap. -/
def getNumber (n : ℤ) : UInt32 := if 2 ^ 32 ≤ n then .ofNat (2 ^ 32 - 1) else .ofInt n

def getCoinBalance (s : Session (Tables ι)) (account : ι) (a : Answer) : UInt32 :=
  if a.ok then getNumber ((s.reconnect a).current.coins account) else 0

/-- ``UPDATE `accounts` SET `coins` = `coins` + n``. -/
def Tables.addCoins (account : ι) (n : ℤ) (t : Tables ι) : Tables ι :=
  { t with coins := Function.update t.coins account (t.coins account + n) }

def registerTransaction (account : ι) (coins : Int32) (description : String) (a : Answer)
    (s : Session (Tables ι)) : Session (Tables ι) :=
  s.update (fun t => { t with storeHistory := t.storeHistory ++ [(account, coins, description)] }) a

/-- The statements between `begin` and `commit`. -/
def transaction (s : Session (Tables ι)) (account receiver : ι) (amount : UInt32) (a : Answers) :
    Session (Tables ι) :=
  (((s.begin a.begin).update (Tables.addCoins account (-amount.toNat)) a.debit).update
    (Tables.addCoins receiver amount.toNat) a.credit).commit a.commit

def playerCoinTransfer (s : Session (Tables ι)) (t : Transfer ι) :
    Session (Tables ι) × List Reply :=
  match t.sender with
  | none => (s, [])
  | some (account, name) =>
    let s := s.reconnect t.answers.selectReceiver
    match if t.answers.selectReceiver.ok then t.row else none with
    | none => (s, [.sendStoreError ("Player \"" ++ t.receiverName ++ "\" doesn't exist.")])
    | some (_, none) =>
      (s, [.sendStoreError ("Player \"" ++ t.receiverName ++ "\" doesn't exist.")])
    | some (capitalizedReceiverName, some receiver) =>
      if account = receiver then
        (s, [.sendStoreError "You cannot send coins to your own account."])
      else if getCoinBalance s account t.answers.selectBalance < t.amount then
        (s.reconnect t.answers.selectBalance,
          [.sendStoreError "You don't have enough funds to transfer these coins."])
      else
        let s := s.reconnect t.answers.selectBalance
        if !t.answers.begin.ok then
          ((s.begin t.answers.begin).rollback,
            [.sendStoreError "Internal error, try again later."])
        else
          let s := transaction s account receiver t.amount t.answers
          let s := registerTransaction account (-1 * t.amount).toInt32
            ("Transfered to " ++ capitalizedReceiverName) t.answers.insertSent s
          let s := registerTransaction receiver t.amount.toInt32
            ("Received from" ++ name) t.answers.insertReceived s
          let coins := getCoinBalance s account t.answers.selectLeft
          (s.reconnect t.answers.selectLeft,
            .sendStorePurchaseSuccessful ("You have successfully transfered " ++
              toString t.amount ++ " coins to " ++ capitalizedReceiverName ++ ".") coins ::
            if t.receiverIsOnline then [.sendCoinBalance] else [])

/-- The transfer gets to its updates. -/
structure Proceeds (s : Session (Tables ι)) (t : Transfer ι) (account receiver : ι) : Prop where
  sender : ∃ name, t.sender = some (account, name)
  found : t.answers.selectReceiver.ok = true
  row : ∃ name, t.row = some (name, some receiver)
  ne : account ≠ receiver
  funds : t.amount ≤ getCoinBalance (s.reconnect t.answers.selectReceiver) account
    t.answers.selectBalance
  begun : t.answers.begin.ok = true

variable {s : Session (Tables ι)} {t : Transfer ι} {account receiver : ι} {amount : UInt32}
  {a : Answers}

/-! ### What is stored -/

/-- What is stored of an amount. -/
def storedPart (stores : Bool) (amount : UInt32) : ℤ := if stores then amount.toNat else 0

theorem coins_transaction (hs : s.pending = none) (hbegin : a.begin.ok = true) :
    (transaction s account receiver amount a).stored.coins =
      (Tables.addCoins receiver (storedPart a.creditIsStored amount)
        (Tables.addCoins account (-storedPart a.debitIsStored amount) s.stored)).coins := by
  unfold transaction
  rw [Session.stored_transaction hs hbegin]
  unfold storedPart Answers.debitIsStored Answers.creditIsStored
  cases Session.storesFirst a.debit a.credit a.commit <;>
    cases Session.storesSecond a.debit a.credit a.commit <;>
    simp [Tables.addCoins]

theorem pending_transaction : (transaction s account receiver amount a).pending = none :=
  Session.pending_commit

omit [DecidableEq ι] in
theorem pending_registerTransaction {coins : Int32} {description : String} {b : Answer}
    (hs : s.pending = none) :
    (registerTransaction account coins description b s).pending = none := by
  unfold registerTransaction
  rw [Session.update_of_pending hs]
  exact hs

omit [DecidableEq ι] in
theorem coins_registerTransaction {coins : Int32} {description : String} {b : Answer}
    (hs : s.pending = none) :
    (registerTransaction account coins description b s).stored.coins = s.stored.coins := by
  unfold registerTransaction
  rw [Session.update_of_pending hs]
  dsimp only
  split_ifs <;> rfl

theorem playerCoinTransfer_of_proceeds (hs : s.pending = none)
    (h : Proceeds s t account receiver) :
    (playerCoinTransfer s t).1.pending = none ∧ (playerCoinTransfer s t).1.stored.coins =
      (transaction s account receiver t.amount t.answers).stored.coins ∧
      ∀ message, .sendStoreError message ∉ (playerCoinTransfer s t).2 := by
  obtain ⟨⟨name, hsender⟩, hfound, ⟨receiverName, hrow⟩, hne, hfunds, hbegun⟩ := h
  rw [Session.reconnect_of_pending hs] at hfunds
  unfold playerCoinTransfer
  rw [hsender]
  simp only [hfound, hrow, hne, hbegun, UInt32.not_lt.mpr hfunds, Session.reconnect_of_pending hs,
    if_true, if_false, Bool.not_true, Bool.false_eq_true]
  rw [Session.reconnect_of_pending
    (pending_registerTransaction (pending_registerTransaction pending_transaction))]
  refine ⟨pending_registerTransaction (pending_registerTransaction pending_transaction), ?_, ?_⟩
  · rw [coins_registerTransaction (pending_registerTransaction pending_transaction),
      coins_registerTransaction pending_transaction]
  · intro message hmem
    split_ifs at hmem <;> simp at hmem

theorem playerCoinTransfer_of_not_proceeds (hs : s.pending = none)
    (h : ∀ account receiver, ¬ Proceeds s t account receiver) :
    (playerCoinTransfer s t).1 = s ∧ ∀ account name, t.sender = some (account, name) →
      ∃ message, (playerCoinTransfer s t).2 = [.sendStoreError message] := by
  unfold playerCoinTransfer
  cases hsender : t.sender with
  | none => exact ⟨rfl, fun account name heq => by cases heq⟩
  | some sender =>
    obtain ⟨account, name⟩ := sender
    simp only [Session.reconnect_of_pending hs]
    split
    · exact ⟨rfl, fun _ _ _ => ⟨_, rfl⟩⟩
    · exact ⟨rfl, fun _ _ _ => ⟨_, rfl⟩⟩
    · rename_i receiverName receiver hrow
      obtain ⟨hfound, hrow⟩ := Option.ite_none_right_eq_some.mp hrow
      split
      · exact ⟨rfl, fun _ _ _ => ⟨_, rfl⟩⟩
      rename_i hne
      split
      · exact ⟨rfl, fun _ _ _ => ⟨_, rfl⟩⟩
      rename_i hfunds
      split
      · rename_i hbegin
        refine ⟨?_, fun _ _ _ => ⟨_, rfl⟩⟩
        rw [Session.begin, if_neg (by simpa using hbegin), Session.reconnect_of_pending hs]
        exact Session.rollback_of_pending hs
      · rename_i hbegin
        refine absurd ⟨⟨name, hsender⟩, hfound, ⟨receiverName, hrow⟩, hne, ?_, ?_⟩
          (h account receiver)
        · rw [Session.reconnect_of_pending hs]
          exact UInt32.not_lt.mp hfunds
        · simpa using hbegin

/-! ### One transfer -/

def next (s : Session (Tables ι)) (t : Transfer ι) : Session (Tables ι) :=
  (playerCoinTransfer s t).1

/-- The receiver has the amount more. -/
def Credited (s : Session (Tables ι)) (t : Transfer ι) : Prop :=
  ∃ name receiver, t.row = some (name, some receiver) ∧
    (next s t).stored.coins receiver = s.stored.coins receiver + t.amount.toNat

/-- A player whose receiver is not credited is told of an error and has what it had. -/
def Reported (s : Session (Tables ι)) (t : Transfer ι) : Prop :=
  ∀ account name, t.sender = some (account, name) → ¬ Credited s t →
    (next s t).stored.coins account = s.stored.coins account ∧
      ∃ message, .sendStoreError message ∈ (playerCoinTransfer s t).2

/-- A transfer of coins that gets to its updates stores both of them. -/
def Stored (s : Session (Tables ι)) (t : Transfer ι) : Prop :=
  ∀ account receiver, Proceeds s t account receiver → t.amount ≠ 0 →
    t.answers.debitIsStored = true ∧ t.answers.creditIsStored = true

theorem pending_next (hs : s.pending = none) : (next s t).pending = none := by
  by_cases h : ∃ account receiver, Proceeds s t account receiver
  · obtain ⟨account, receiver, h⟩ := h
    exact (playerCoinTransfer_of_proceeds hs h).1
  · simp only [not_exists] at h
    rw [next, (playerCoinTransfer_of_not_proceeds hs h).1, hs]

/-- The parts of the amount that are stored. -/
theorem coins_next (hs : s.pending = none) (h : Proceeds s t account receiver) :
    (next s t).stored.coins =
      (Tables.addCoins receiver (storedPart t.answers.creditIsStored t.amount)
        (Tables.addCoins account (-storedPart t.answers.debitIsStored t.amount)
          s.stored)).coins := by
  rw [next, (playerCoinTransfer_of_proceeds hs h).2.1, coins_transaction hs h.begun]

omit [DecidableEq ι] in
theorem amount_le_coins (hs : s.pending = none) (h : Proceeds s t account receiver)
    (hpos : 0 ≤ s.stored.coins account) : (t.amount.toNat : ℤ) ≤ s.stored.coins account := by
  have hfunds := UInt32.le_iff_toNat_le.mp h.funds
  rw [Session.reconnect_of_pending hs, getCoinBalance] at hfunds
  split_ifs at hfunds
  · rw [Session.reconnect_of_pending hs, Session.current_of_pending hs, getNumber] at hfunds
    split_ifs at hfunds with hbig
    · have := t.amount.toNat_lt
      omega
    · rw [UInt32.ofInt, UInt32.toNat_ofNat'] at hfunds
      omega
  · have hzero : (0 : UInt32).toNat = 0 := rfl
    omega

theorem nonneg_next (hs : s.pending = none) (hpos : ∀ account, 0 ≤ s.stored.coins account)
    (account : ι) : 0 ≤ (next s t).stored.coins account := by
  by_cases h : ∃ account receiver, Proceeds s t account receiver
  · obtain ⟨sender, receiver, h⟩ := h
    have hfunds := amount_le_coins hs h (hpos sender)
    rw [coins_next hs h]
    simp only [Tables.addCoins, Function.update_apply, storedPart]
    have := hpos account
    have := hpos receiver
    split_ifs <;> omega
  · simp only [not_exists] at h
    rw [next, (playerCoinTransfer_of_not_proceeds hs h).1]
    exact hpos account

theorem credited_iff (hs : s.pending = none) (h : Proceeds s t account receiver) :
    Credited s t ↔ storedPart t.answers.creditIsStored t.amount = t.amount.toNat := by
  obtain ⟨name, hrow⟩ := h.row
  have hcoins : (next s t).stored.coins receiver = s.stored.coins receiver +
      storedPart t.answers.creditIsStored t.amount := by
    rw [coins_next hs h]
    simp [Tables.addCoins, h.ne.symm]
  constructor
  · rintro ⟨name', receiver', hrow', hcredited⟩
    cases hrow.symm.trans hrow'
    exact add_left_cancel (hcoins.symm.trans hcredited)
  · intro hpart
    exact ⟨name, receiver, hrow, by rw [hcoins, hpart]⟩

/-- No error is reported after the updates. -/
theorem reported_iff (hs : s.pending = none) (h : Proceeds s t account receiver) :
    Reported s t ↔ Credited s t := by
  constructor
  · intro hreported
    by_contra hcredited
    obtain ⟨name, hsender⟩ := h.sender
    obtain ⟨-, message, hmessage⟩ := hreported account name hsender hcredited
    exact (playerCoinTransfer_of_proceeds hs h).2.2 message hmessage
  · exact fun hcredited _ _ _ hnot => absurd hcredited hnot

section Runs

variable [Fintype ι]

theorem sum_addCoins (t : Tables ι) (account : ι) (n : ℤ) :
    ∑ x, (t.addCoins account n).coins x = ∑ x, t.coins x + n := by
  rw [Tables.addCoins, Ledger.sum_update]
  ring

/-- A transfer keeps the sum and is reported for what it did exactly if it is stored. -/
theorem next_conserves_iff (hs : s.pending = none) :
    (∑ x, (next s t).stored.coins x = ∑ x, s.stored.coins x ∧ Reported s t) ↔ Stored s t := by
  by_cases hproceeds : ∃ account receiver, Proceeds s t account receiver
  · obtain ⟨account, receiver, h⟩ := hproceeds
    have hstored : Stored s t ↔ (t.amount ≠ 0 →
        t.answers.debitIsStored = true ∧ t.answers.creditIsStored = true) :=
      ⟨fun hstored => hstored account receiver h, fun hstored _ _ _ => hstored⟩
    have hamount : t.amount = 0 ↔ t.amount.toNat = 0 := UInt32.toNat_inj.symm
    rw [hstored, reported_iff hs h, credited_iff hs h, coins_next hs h, sum_addCoins, sum_addCoins,
      ne_eq, hamount, storedPart, storedPart]
    split_ifs with hsecond hfirst <;> simp [*] <;> omega
  · simp only [not_exists] at hproceeds
    obtain ⟨hnext, herror⟩ := playerCoinTransfer_of_not_proceeds hs hproceeds
    have hsame : next s t = s := hnext
    refine iff_of_true ⟨by rw [hsame], fun account name hsender _ => ?_⟩ fun account receiver h =>
      absurd h (hproceeds account receiver)
    obtain ⟨message, hmessage⟩ := herror account name hsender
    rw [hmessage, hsame]
    exact ⟨rfl, message, List.mem_singleton_self _⟩

/-- What a run of transfers keeps, and what players are told. -/
structure Conserves (s : Session (Tables ι)) (transfers : List (Transfer ι)) : Prop where
  sum : ∀ n, ∑ x, ((transfers.take n).foldl next s).stored.coins x = ∑ x, s.stored.coins x
  nonneg : ∀ n account, 0 ≤ ((transfers.take n).foldl next s).stored.coins account
  reported : Run.Steps next Reported s transfers

/-- Coins are conserved and transfers reported in a run exactly if each transfer that gets to its
updates stores both of them. -/
theorem conserves_iff (s : Session (Tables ι)) (transfers : List (Transfer ι))
    (hs : s.pending = none) (hpos : ∀ account, 0 ≤ s.stored.coins account) :
    Conserves s transfers ↔ Run.Steps next Stored s transfers := by
  induction transfers generalizing s with
  | nil => exact iff_of_true ⟨by simp, by simpa using hpos, trivial⟩ trivial
  | cons t transfers ih =>
    have hrest := ih (next s t) (pending_next hs) (nonneg_next hs hpos)
    rw [Run.steps_cons, ← next_conserves_iff hs, ← hrest]
    constructor
    · intro h
      have hsum : ∑ x, (next s t).stored.coins x = ∑ x, s.stored.coins x := h.sum 1
      exact ⟨⟨hsum, h.reported.1⟩, fun n => (h.sum (n + 1)).trans hsum.symm,
        fun n => h.nonneg (n + 1), h.reported.2⟩
    · rintro ⟨⟨hsum, hreported⟩, h⟩
      refine ⟨fun n => ?_, fun n => ?_, hreported, h.reported⟩
      · cases n with
        | zero => rfl
        | succ n => exact (h.sum n).trans hsum
      · cases n with
        | zero => exact hpos
        | succ n => exact h.nonneg n

/-- Two accounts, the first one with ten coins. -/
def twoAccounts : Session (Tables (Fin 2)) := ⟨{ coins := ![10, 0] }, none⟩

/-- The first account sends five coins to the second one. -/
def fiveCoins (answers : Answers) : Transfer (Fin 2) :=
  { sender := some (0, "Sender"), receiverName := "receiver", amount := 5
    row := some ("Receiver", some 1), answers }

theorem conserves_answered : Conserves twoAccounts [fiveCoins {}] :=
  (conserves_iff twoAccounts [fiveCoins {}] rfl (by decide)).mpr
    ⟨fun _ _ _ _ => ⟨rfl, rfl⟩, trivial⟩

/-- Five coins are gone after a credit that failed. -/
theorem not_conserves_failed : ¬∀ (s : Session (Tables (Fin 2)))
    (transfers : List (Transfer (Fin 2))), s.pending = none →
    (∀ account, 0 ≤ s.stored.coins account) → Conserves s transfers := by
  intro h
  have hsum := (h twoAccounts [fiveCoins { credit := { ok := false } }] rfl (by decide)).sum 1
  exact absurd hsum (by decide)

end Runs

end CoinTransfer

end OTServBR
