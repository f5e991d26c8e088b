import Mathlib

/-! # The waiting list

Clients that find the server full wait in one of two lists, premium players in
the first. An entry is to be dropped when its client did not come back in time.
The comparison of its timeout with the clock is one of unsigned words, though,
and a client that may log in is erased from the second list wherever its entry
stands.
-/

namespace OTServBR.WaitingList

structure Wait where
  timeout : UInt64
  playerGUID : UInt32
  deriving DecidableEq

abbrev WaitList := List Wait

structure WaitListInfo where
  priorityWaitList : WaitList := []
  waitList : WaitList := []
  deriving DecidableEq

/-- What the list looks at of a player. -/
structure Player where
  guid : UInt32
  canAlwaysLogin : Bool := false
  accountType : ℕ := 1
  isPremium : Bool := false

def ACCOUNT_TYPE_GAMEMASTER : ℕ := 4

/-- The clock is signed and the timeout is not, so that the difference is unsigned. -/
def cleanupList (time : Int64) : WaitList → WaitList
  | [] => []
  | it :: list =>
    if it.timeout - time.toUInt64 ≤ 0 then cleanupList time list
    else it :: cleanupList time list

def getTime (slot : ℕ) : ℕ :=
  if slot < 5 then 5 else if slot < 10 then 10 else if slot < 20 then 20
  else if slot < 50 then 60 else 120

/-- Fifteen seconds longer than the expected retry attempt. -/
def getTimeout (slot : ℕ) : ℕ := getTime slot + 15

/-- An entry of one of the lists, or the end of the second one. -/
inductive Iterator
  | priority (i : ℕ)
  | wait (i : ℕ)
  | done

def isOf (player : Player) (wait : Wait) : Bool := wait.playerGUID == player.guid

/-- The entry of a client and its slot. -/
def WaitListInfo.findClient (info : WaitListInfo) (player : Player) : Iterator × ℕ :=
  match info.priorityWaitList.findIdx? (isOf player) with
  | some i => (.priority i, i + 1)
  | none =>
    match info.waitList.findIdx? (isOf player) with
    | some i => (.wait i, info.priorityWaitList.length + i + 1)
    | none => (.done, info.priorityWaitList.length + info.waitList.length + 1)

/-- `it->timeout = timeout` -/
def WaitListInfo.setTimeout (info : WaitListInfo) (timeout : UInt64) (it : Iterator) :
    WaitListInfo :=
  let set (entry : Wait) : Wait := { entry with timeout := timeout }
  match it with
  | .priority i => { info with priorityWaitList := info.priorityWaitList.modify i set }
  | .wait i => { info with waitList := info.waitList.modify i set }
  | .done => info

/-- The list may erase only entries of its own; anything else has no defined behaviour. -/
def eraseFrom (waitList : WaitList) : Iterator → Option WaitList
  | .wait i => some (waitList.eraseIdx i)
  | _ => none

inductive Outcome
  | loggedIn (info : WaitListInfo)
  | waits (info : WaitListInfo)
  | undefined
  deriving DecidableEq

section Login

variable (player : Player) (maxPlayers : UInt32) (playersOnline : ℕ) (info : WaitListInfo)

/-- No look at the lists is needed. -/
def skips : Bool :=
  player.canAlwaysLogin || ACCOUNT_TYPE_GAMEMASTER ≤ player.accountType || maxPlayers == 0 ||
    info.priorityWaitList.isEmpty && info.waitList.isEmpty && playersOnline < maxPlayers.toNat

/-- What follows the cleanup; `time` is the clock at the end. -/
def queue (time : Int64) : Outcome :=
  let (it, slot) := info.findClient player
  let timeout (slot : ℕ) : UInt64 := time.toUInt64 + UInt64.ofNat (getTimeout slot * 1000)
  match it with
  | .done =>
    let slot := info.priorityWaitList.length
    if player.isPremium then
      let entry : Wait := ⟨timeout (slot + 1), player.guid⟩
      .waits { info with priorityWaitList := info.priorityWaitList ++ [entry] }
    else
      let slot := slot + info.waitList.length
      let entry : Wait := ⟨timeout (slot + 1), player.guid⟩
      .waits { info with waitList := info.waitList ++ [entry] }
  | it =>
    if playersOnline + slot ≤ maxPlayers.toNat then
      match eraseFrom info.waitList it with
      | some waitList => .loggedIn { info with waitList := waitList }
      | none => .undefined
    else .waits (info.setTimeout (timeout slot) it)

/-- The clock is read for each list and again for a new timeout. -/
def clientLogin (time₁ time₂ time₃ : Int64) : Outcome :=
  if skips player maxPlayers playersOnline info then .loggedIn info
  else
    queue player maxPlayers playersOnline
      { priorityWaitList := cleanupList time₁ info.priorityWaitList
        waitList := cleanupList time₂ info.waitList } time₃

end Login

/-! ## What is asked of the list -/

/-- The timeout is at or before the time. -/
def Expired (time : Int64) (entry : Wait) : Prop := (entry.timeout.toNat : ℤ) ≤ time.toInt

instance (time : Int64) : DecidablePred (Expired time) :=
  fun _ => inferInstanceAs (Decidable (_ ≤ _))

/-- The entries with a later timeout, in order. -/
def live (time : Int64) (list : WaitList) : WaitList := list.filter fun entry => ¬Expired time entry

/-- The entry of a client is gone from the list that it was in. -/
def WaitListInfo.without (info : WaitListInfo) (player : Player) : WaitListInfo :=
  if info.priorityWaitList.any (isOf player) then
    { info with priorityWaitList := info.priorityWaitList.eraseP (isOf player) }
  else { info with waitList := info.waitList.eraseP (isOf player) }

/-- A client that is let in goes from the lists as it should. -/
def Outcome.Erases (expected : WaitListInfo) : Outcome → Prop
  | loggedIn info => info = expected
  | waits _ => True
  | undefined => False

section Right

variable (player : Player) (maxPlayers : UInt32) (playersOnline : ℕ) (info : WaitListInfo)
  (time₁ time₂ time₃ : Int64)

/-- The cleanup leaves exactly the live entries, in order, and a client that is then found and
let in goes from the list that it is in, and only from there. -/
structure QueueRight : Prop where
  priority : cleanupList time₁ info.priorityWaitList = live time₁ info.priorityWaitList
  wait : cleanupList time₂ info.waitList = live time₂ info.waitList
  erases : (clientLogin player maxPlayers playersOnline info time₁ time₂ time₃).Erases
    (WaitListInfo.without ⟨live time₁ info.priorityWaitList, live time₂ info.waitList⟩ player)

/-- What a login does when it looks at the lists. -/
def LoginRight : Prop := skips player maxPlayers playersOnline info = false →
  QueueRight player maxPlayers playersOnline info time₁ time₂ time₃

/-- No timeout is before the time, nor equal to a negative time as a word. -/
def Fresh (time : Int64) (entry : Wait) : Prop :=
  time.toInt ≤ entry.timeout.toNat ∧ ¬(time.toInt < 0 ∧ entry.timeout = time.toUInt64)

/-- A live entry of the first list is that of the client, who may log in. -/
def AdmitsPriority : Prop :=
  ∃ i, (live time₁ info.priorityWaitList).findIdx? (isOf player) = some i ∧
    playersOnline + (i + 1) ≤ maxPlayers.toNat

end Right

/-! ## The comparison -/

variable {time : Int64} {entry : Wait} {list : WaitList}

/-- The unsigned comparison drops an entry only at the very time. -/
theorem sub_le_zero_iff : entry.timeout - time.toUInt64 ≤ 0 ↔ entry.timeout = time.toUInt64 := by
  rw [← sub_eq_zero, UInt64.le_iff_toNat_le, ← UInt64.toNat_inj]
  exact Nat.le_zero

theorem cleanupList_eq : cleanupList time list =
    list.filter fun entry => ¬entry.timeout = time.toUInt64 := by
  induction list with
  | nil => rfl
  | cons it list ih =>
    rw [cleanupList, ih]
    by_cases h : it.timeout = time.toUInt64
    · rw [if_pos (sub_le_zero_iff.mpr h), List.filter_cons_of_neg]
      simpa using h
    · rw [if_neg (mt sub_le_zero_iff.mp h), List.filter_cons_of_pos]
      simpa using h

theorem toNat_toUInt64 (time : Int64) : (time.toUInt64.toNat : ℤ) =
    if time.toInt < 0 then time.toInt + 2 ^ 64 else time.toInt := by
  have hword : time.toInt = if 2 * time.toUInt64.toNat < 2 ^ 64 then (time.toUInt64.toNat : ℤ)
      else (time.toUInt64.toNat : ℤ) - (2 ^ 64 : ℕ) := BitVec.toInt_eq_toNat_cond _
  have hlt := time.toUInt64.toNat_lt
  split at hword <;> split <;> omega

theorem fresh_iff : Fresh time entry ↔ (entry.timeout = time.toUInt64 ↔ Expired time entry) := by
  have hword := toNat_toUInt64 time
  have hlt := entry.timeout.toNat_lt
  rw [Fresh, Expired, ← UInt64.toNat_inj]
  generalize time.toUInt64.toNat = word at hword
  split at hword <;> constructor <;> intro h <;> omega

/-- The cleanup drops what it should exactly if no entry is overdue. -/
theorem cleanupList_eq_live_iff : cleanupList time list = live time list ↔
    ∀ entry ∈ list, Fresh time entry := by
  rw [cleanupList_eq, live]
  constructor
  · intro h entry hmem
    have hiff : (entry ∈ list.filter fun entry => ¬entry.timeout = time.toUInt64) ↔
        entry ∈ list.filter fun entry => ¬Expired time entry := by rw [h]
    rw [List.mem_filter, List.mem_filter, decide_eq_true_iff, decide_eq_true_iff] at hiff
    rw [fresh_iff, ← not_iff_not]
    simpa [hmem] using hiff
  · intro h
    refine List.filter_congr fun entry hmem => ?_
    rw [decide_eq_decide, fresh_iff.mp (h entry hmem)]

/-! ## The client -/

section Client

variable {player : Player} {maxPlayers : UInt32} {playersOnline : ℕ} {info : WaitListInfo}

/-- Only a client in the first list is not erased from the list that it is in. -/
theorem erases_queue_iff : (queue player maxPlayers playersOnline info time).Erases
    (info.without player) ↔ ¬∃ i, info.priorityWaitList.findIdx? (isOf player) = some i ∧
      playersOnline + (i + 1) ≤ maxPlayers.toNat := by
  unfold queue WaitListInfo.findClient
  cases hpriority : info.priorityWaitList.findIdx? (isOf player) with
  | some i =>
    dsimp only
    split
    · next hroom => simp [eraseFrom, Outcome.Erases, hroom]
    · next hroom => simpa [Outcome.Erases] using hroom
  | none =>
    have hany : info.priorityWaitList.any (isOf player) = false := by
      rw [← List.findIdx?_isSome, hpriority]
      rfl
    cases hwait : info.waitList.findIdx? (isOf player) with
    | some i =>
      have herase : info.waitList.eraseP (isOf player) = info.waitList.eraseIdx i := by
        rw [List.eraseP_eq_eraseIdx, hwait]
      dsimp only
      split
      · simp [eraseFrom, Outcome.Erases, WaitListInfo.without, hany, herase]
      · simp [Outcome.Erases]
    | none =>
      dsimp only
      split <;> simp [Outcome.Erases]

end Client

/-- A login treats the lists as it should exactly if it looks at neither, or no entry is overdue
and the client does not leave the first list. -/
theorem loginRight_iff (player : Player) (maxPlayers : UInt32) (playersOnline : ℕ)
    (info : WaitListInfo) (time₁ time₂ time₃ : Int64) :
    LoginRight player maxPlayers playersOnline info time₁ time₂ time₃ ↔
      skips player maxPlayers playersOnline info = true ∨
        (∀ entry ∈ info.priorityWaitList, Fresh time₁ entry) ∧
          (∀ entry ∈ info.waitList, Fresh time₂ entry) ∧
            ¬AdmitsPriority player maxPlayers playersOnline info time₁ := by
  rw [LoginRight, ← Bool.not_eq_true, imp_iff_or_not, not_not, or_comm]
  by_cases hskips : skips player maxPlayers playersOnline info = true
  · simp [hskips]
  · have hlogin : clientLogin player maxPlayers playersOnline info time₁ time₂ time₃ =
        queue player maxPlayers playersOnline ⟨cleanupList time₁ info.priorityWaitList,
          cleanupList time₂ info.waitList⟩ time₃ := if_neg hskips
    refine or_congr_right ?_
    rw [← cleanupList_eq_live_iff, ← cleanupList_eq_live_iff]
    constructor
    · rintro ⟨hpriority, hwait, herases⟩
      rw [hlogin, hpriority, hwait, erases_queue_iff] at herases
      exact ⟨hpriority, hwait, herases⟩
    · rintro ⟨hpriority, hwait, hadmits⟩
      refine ⟨hpriority, hwait, ?_⟩
      rw [hlogin, hpriority, hwait, erases_queue_iff]
      exact hadmits

/-- An entry that timed out five milliseconds ago is kept. -/
theorem not_loginRight_overdue : ¬∀ player maxPlayers playersOnline info time₁ time₂ time₃,
    LoginRight player maxPlayers playersOnline info time₁ time₂ time₃ := by
  intro h
  have hlogin := h { guid := 7 } 1 1 { waitList := [⟨1000, 8⟩] } 1005 1005 1005 (by decide)
  have hwait := hlogin.wait
  revert hwait
  decide

end OTServBR.WaitingList
