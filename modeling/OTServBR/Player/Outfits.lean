import Mathlib
import OTServBR.Lib.Run
import OTServBR.Lib.SortedMap

/-! # Outfits in the storage

A save encodes the outfits into consecutive keys of the storage map, and a
login takes the rows of these keys for outfits. The save never clears the keys
that an earlier one of the same session wrote.
-/

namespace OTServBR.Player

structure OutfitEntry where
  lookType : UInt16
  addons : UInt8
  deriving DecidableEq, Repr

/-- An entry of `storageMap`, and a row of `player_storage`. -/
structure StorageRow where
  key : UInt32
  value : Int32
  deriving DecidableEq, Repr

def StorageRow.order (row : StorageRow) : ℕ := row.key.toNat

/-- `std::map<uint32_t, int32_t>` -/
structure StorageMap where
  rows : List StorageRow := []
  sorted : SortedMap.Sorted StorageRow.order rows := by exact .nil

namespace StorageMap

def set (m : StorageMap) (row : StorageRow) : StorageMap where
  rows := SortedMap.insert StorageRow.order row m.rows
  sorted := SortedMap.sorted_insert m.sorted

def erase (m : StorageMap) (key : UInt32) : StorageMap where
  rows := m.rows.filter fun row => row.key ≠ key
  sorted := m.sorted.filter _

end StorageMap

def PSTRG_RESERVED_RANGE_START : UInt32 := 10000000

def PSTRG_RESERVED_RANGE_SIZE : UInt32 := 10000000

def PSTRG_OUTFITS_RANGE_START : UInt32 := PSTRG_RESERVED_RANGE_START + 1000

def PSTRG_OUTFITS_RANGE_SIZE : UInt32 := 500

def PSTRG_MOUNTS_RANGE_START : UInt32 := PSTRG_RESERVED_RANGE_START + 2001

def PSTRG_MOUNTS_RANGE_SIZE : UInt32 := 10

def IS_IN_KEYRANGE (key start size : UInt32) : Bool := start ≤ key && key - start ≤ size

abbrev inReservedRange (key : UInt32) : Bool :=
  IS_IN_KEYRANGE key PSTRG_RESERVED_RANGE_START PSTRG_RESERVED_RANGE_SIZE

abbrev inOutfitsRange (key : UInt32) : Bool :=
  IS_IN_KEYRANGE key PSTRG_OUTFITS_RANGE_START PSTRG_OUTFITS_RANGE_SIZE

abbrev inMountsRange (key : UInt32) : Bool :=
  IS_IN_KEYRANGE key PSTRG_MOUNTS_RANGE_START PSTRG_MOUNTS_RANGE_SIZE

namespace OutfitEntry

def encode (entry : OutfitEntry) : Int32 :=
  (entry.lookType.toUInt32 <<< 16 ||| entry.addons.toUInt32).toInt32

def decode (value : Int32) : OutfitEntry where
  lookType := (value >>> 16).toUInt32.toUInt16
  addons := (value &&& 0xFF).toUInt32.toUInt8

end OutfitEntry

/-- What a player keeps of outfits and storage values. -/
structure Wardrobe where
  outfits : List OutfitEntry := []
  storageMap : StorageMap := {}

namespace Wardrobe

/-- The first entry of the look type gets the addons; a new one is appended. -/
def addOutfit (w : Wardrobe) (lookType : UInt16) (addons : UInt8) : Wardrobe :=
  { w with outfits := go w.outfits }
where
  go : List OutfitEntry → List OutfitEntry
    | [] => [⟨lookType, addons⟩]
    | entry :: rest =>
      if entry.lookType = lookType then { entry with addons := entry.addons ||| addons } :: rest
      else entry :: go rest

def removeOutfit (w : Wardrobe) (lookType : UInt16) : Wardrobe × Bool :=
  ({ w with outfits := w.outfits.eraseP fun entry => entry.lookType = lookType },
    w.outfits.any fun entry => entry.lookType = lookType)

def removeOutfitAddon (w : Wardrobe) (lookType : UInt16) (addons : UInt8) : Wardrobe × Bool :=
  ({ w with outfits := go w.outfits }, w.outfits.any fun entry => entry.lookType = lookType)
where
  go : List OutfitEntry → List OutfitEntry
    | [] => []
    | entry :: rest =>
      if entry.lookType = lookType then { entry with addons := entry.addons &&& ~~~addons } :: rest
      else entry :: go rest

def genReservedStorageRange (w : Wardrobe) : Wardrobe :=
  { w with storageMap := go PSTRG_OUTFITS_RANGE_START w.outfits w.storageMap }
where
  go (baseKey : UInt32) : List OutfitEntry → StorageMap → StorageMap
    | [], storageMap => storageMap
    | entry :: rest, storageMap =>
      go (baseKey + 1) rest (storageMap.set ⟨baseKey + 1, entry.encode⟩)

def addStorageValue (w : Wardrobe) (key : UInt32) (value : Int32) : Wardrobe :=
  if inReservedRange key && inOutfitsRange key then
    { w with outfits := w.outfits ++ [OutfitEntry.decode value] }
  -- an unknown reserved key
  else if inReservedRange key && !inMountsRange key then w
  else if value ≠ -1 then { w with storageMap := w.storageMap.set ⟨key, value⟩ }
  else { w with storageMap := w.storageMap.erase key }

end Wardrobe

/-- A player and the rows that the last save left in the database. -/
structure Session where
  player : Wardrobe := {}
  rows : List StorageRow := []
  /-- The outfits at the last save. -/
  saved : List OutfitEntry := []

namespace Session

def savePlayer (s : Session) : Session :=
  let player := s.player.genReservedStorageRange
  { player, rows := player.storageMap.rows, saved := s.player.outfits }

/-- The player that a login makes of the rows. -/
def loadPlayer (rows : List StorageRow) : Wardrobe :=
  rows.foldl (fun w row => w.addStorageValue row.key row.value) {}

inductive Action
  | addOutfit (lookType : UInt16) (addons : UInt8)
  | removeOutfit (lookType : UInt16)
  | removeOutfitAddon (lookType : UInt16) (addons : UInt8)
  | addStorageValue (key : UInt32) (value : Int32)
  | savePlayer
  /-- A login with the rows of the query. -/
  | loadPlayer (rows : List StorageRow)
  deriving DecidableEq, Repr

def step (s : Session) : Action → Session
  | .addOutfit lookType addons => { s with player := s.player.addOutfit lookType addons }
  | .removeOutfit lookType => { s with player := (s.player.removeOutfit lookType).1 }
  | .removeOutfitAddon lookType addons =>
    { s with player := (s.player.removeOutfitAddon lookType addons).1 }
  | .addStorageValue key value => { s with player := s.player.addStorageValue key value }
  | .savePlayer => s.savePlayer
  | .loadPlayer rows => { s with player := loadPlayer rows }

/-- A login, now, gives back the outfits of the last save; the query may order the rows. -/
def Restores (s : Session) : Prop :=
  ∀ rows : List StorageRow, rows.Perm s.rows → (loadPlayer rows).outfits.Perm s.saved

/-- At a save the outfits fit into their range, and reach up to the keys that are there from
the earlier saves of the session. -/
def Fits (s : Session) : Action → Prop
  | .savePlayer =>
    s.player.outfits.length ≤ 500 ∧ ∀ row ∈ s.player.storageMap.rows, inOutfitsRange row.key →
      (row.key - PSTRG_OUTFITS_RANGE_START).toNat ≤ s.player.outfits.length
  | _ => True

end Session

@[simp] theorem OutfitEntry.decode_encode (entry : OutfitEntry) : decode entry.encode = entry := by
  obtain ⟨lookType, addons⟩ := entry
  have hlook : (encode ⟨lookType, addons⟩ >>> 16).toUInt32.toUInt16 = lookType := by
    rw [← UInt16.toBitVec_inj]
    ext i hi
    have hlow : addons.toBitVec.getLsbD (16 + i) = false := BitVec.getLsbD_of_ge _ _ (by omega)
    have hlt : i < 32 := by omega
    have hsum : 16 + i < 32 := by omega
    simp [encode, hlt, BitVec.getElem_sshiftRight, hsum, hlow, BitVec.getLsbD_eq_getElem hi]
  have haddons : (encode ⟨lookType, addons⟩ &&& 0xFF).toUInt32.toUInt8 = addons := by
    rw [← UInt8.toBitVec_inj]
    ext i hi
    have hbit : (255#8)[i] = true := by
      rw [show (255#8) = BitVec.allOnes 8 from rfl, BitVec.getElem_allOnes]
    simp [encode, hbit]
  rw [decode, hlook, haddons]

/-- The outfit of a row, if its key is one of the outfits. -/
def StorageRow.outfit (row : StorageRow) : Option OutfitEntry :=
  if inOutfitsRange row.key then some (.decode row.value) else none

/-- The rows that a save writes for the outfits. -/
def outfitRows (baseKey : UInt32) : List OutfitEntry → List StorageRow
  | [] => []
  | entry :: rest => ⟨baseKey + 1, entry.encode⟩ :: outfitRows (baseKey + 1) rest

theorem isInKeyRange_iff {key start size : UInt32} :
    IS_IN_KEYRANGE key start size ↔
      start.toNat ≤ key.toNat ∧ key.toNat ≤ start.toNat + size.toNat := by
  rw [IS_IN_KEYRANGE, Bool.and_eq_true, decide_eq_true_iff, decide_eq_true_iff,
    UInt32.le_iff_toNat_le, UInt32.le_iff_toNat_le]
  refine and_congr_right fun h => ?_
  rw [UInt32.toNat_sub_of_le _ _ (UInt32.le_iff_toNat_le.mpr h)]
  omega

theorem inReservedRange_of_outfit {key : UInt32} (h : inOutfitsRange key) :
    inReservedRange key := by
  rw [isInKeyRange_iff] at h ⊢
  change 10001000 ≤ _ ∧ _ ≤ 10001000 + 500 at h
  change 10000000 ≤ _ ∧ _ ≤ 10000000 + 10000000
  omega

/-- The `i`-th key after the start. -/
def outfitKey (i : ℕ) : UInt32 := PSTRG_OUTFITS_RANGE_START + UInt32.ofNat i

theorem toNat_outfitKey {i : ℕ} (hi : i < 2 ^ 31) : (outfitKey i).toNat = 10001000 + i := by
  rw [outfitKey, UInt32.toNat_add, UInt32.toNat_ofNat_of_lt' (by change i < 2 ^ 32; omega)]
  change (10001000 + i) % 2 ^ 32 = _
  omega

theorem outfitKey_succ {i : ℕ} : outfitKey i + 1 = outfitKey (i + 1) := by
  rw [outfitKey, outfitKey, UInt32.ofNat_add, ← UInt32.add_assoc]
  rfl

theorem mem_map_key_outfitRows {l : List OutfitEntry} {i k : ℕ} (hi : i + l.length < 2 ^ 31) :
    k ∈ (outfitRows (outfitKey i) l).map StorageRow.order ↔
      10001000 + i < k ∧ k ≤ 10001000 + i + l.length := by
  induction l generalizing i with
  | nil =>
    simp [outfitRows]
  | cons entry rest ih =>
    rw [List.length_cons] at hi
    rw [outfitRows, outfitKey_succ, List.map_cons, List.mem_cons, ih (by omega), StorageRow.order,
      toNat_outfitKey (by omega), List.length_cons]
    omega

theorem nodup_key_outfitRows {l : List OutfitEntry} {i : ℕ} (hi : i + l.length < 2 ^ 31) :
    ((outfitRows (outfitKey i) l).map StorageRow.order).Nodup := by
  induction l generalizing i with
  | nil => exact .nil
  | cons entry rest ih =>
    rw [List.length_cons] at hi
    rw [outfitRows, outfitKey_succ, List.map_cons, List.nodup_cons,
      mem_map_key_outfitRows (by omega), StorageRow.order, toNat_outfitKey (by omega)]
    exact ⟨by omega, ih (by omega)⟩

/-- The rows of a save hold the outfits that fit into the range. -/
theorem filterMap_outfitRows {l : List OutfitEntry} {i : ℕ} (hi : i + l.length < 2 ^ 31) :
    (outfitRows (outfitKey i) l).filterMap StorageRow.outfit = l.take (500 - i) := by
  induction l generalizing i with
  | nil => rw [outfitRows, List.filterMap_nil, List.take_nil]
  | cons entry rest ih =>
    rw [List.length_cons] at hi
    have hiff : inOutfitsRange (outfitKey (i + 1)) ↔ i < 500 := by
      rw [isInKeyRange_iff, toNat_outfitKey (by omega)]
      change 10001000 ≤ _ ∧ _ ≤ 10001000 + 500 ↔ _
      omega
    rw [outfitRows, outfitKey_succ, List.filterMap_cons, ih (by omega), StorageRow.outfit]
    by_cases hlt : i < 500
    · rw [if_pos (hiff.mpr hlt), OutfitEntry.decode_encode,
        show 500 - i = (500 - (i + 1)) + 1 by omega, List.take_succ_cons]
    · rw [if_neg (mt hiff.mp hlt), show 500 - i = 0 by omega, show 500 - (i + 1) = 0 by omega]
      rfl

namespace Wardrobe

variable {w : Wardrobe}

theorem rows_go {baseKey : UInt32} {l : List OutfitEntry} {m : StorageMap} :
    (genReservedStorageRange.go baseKey l m).rows =
      (outfitRows baseKey l).foldl (fun acc row => SortedMap.insert StorageRow.order row acc)
        m.rows := by
  induction l generalizing baseKey m with
  | nil => rfl
  | cons entry rest ih => exact ih

theorem outfits_addStorageValue {row : StorageRow} :
    (w.addStorageValue row.key row.value).outfits = w.outfits ++ row.outfit.toList := by
  unfold addStorageValue StorageRow.outfit
  by_cases hrow : inOutfitsRange row.key
  · rw [hrow, inReservedRange_of_outfit hrow]
    rfl
  · rw [if_neg hrow, Option.toList_none, List.append_nil, Bool.eq_false_iff.mpr hrow,
      Bool.and_false, if_neg Bool.false_ne_true]
    split_ifs <;> rfl

/-- A login takes the rows of the range for outfits. -/
theorem foldl_addStorageValue {rows : List StorageRow} :
    (rows.foldl (fun w row => w.addStorageValue row.key row.value) w).outfits =
      w.outfits ++ rows.filterMap StorageRow.outfit := by
  induction rows generalizing w with
  | nil => simp
  | cons row rows ih =>
    rw [List.foldl_cons, ih, outfits_addStorageValue, List.append_assoc, List.filterMap_cons]
    cases row.outfit <;> rfl

/-- The start of the range is the key of no outfit. -/
def StartFree (w : Wardrobe) : Prop := ∀ row ∈ w.storageMap.rows, row.order ≠ 10001000

theorem StartFree.addStorageValue {key : UInt32} {value : Int32} (h : StartFree w) :
    StartFree (w.addStorageValue key value) := by
  unfold Wardrobe.addStorageValue
  split
  · exact h
  · next hrange =>
    split
    · exact h
    · split
      · intro row hrow
        obtain rfl | hrow := SortedMap.mem_insert hrow
        · rintro horder
          refine hrange ?_
          have hkey : inOutfitsRange key := by
            rw [isInKeyRange_iff]
            change 10001000 ≤ key.toNat ∧ key.toNat ≤ 10001000 + 500
            change key.toNat = 10001000 at horder
            omega
          rw [hkey, inReservedRange_of_outfit hkey, Bool.and_self]
        · exact h row hrow
      · exact fun row hrow => h row (List.mem_filter.mp hrow).1

/-- The save replaces the rows of its outfits and keeps the others. -/
theorem genReservedStorageRange_perm (hlength : w.outfits.length < 2 ^ 31) :
    w.genReservedStorageRange.storageMap.rows.Perm
      (outfitRows (outfitKey 0) w.outfits ++ w.storageMap.rows.filter fun row =>
        row.order ∉ (outfitRows (outfitKey 0) w.outfits).map StorageRow.order) := by
  have hkey : PSTRG_OUTFITS_RANGE_START = outfitKey 0 := rfl
  unfold genReservedStorageRange
  rw [rows_go, hkey]
  exact (SortedMap.foldl_insert_perm_filter (nodup_key_outfitRows (by omega))
    w.storageMap.sorted).2

/-- Rows of the range that a save with as many outfits leaves behind. -/
def stale (w : Wardrobe) : List StorageRow :=
  w.storageMap.rows.filter fun row =>
    row.order ∉ (outfitRows (outfitKey 0) w.outfits).map StorageRow.order

theorem filterMap_genReservedStorageRange (hlength : w.outfits.length < 2 ^ 31) :
    (w.genReservedStorageRange.storageMap.rows.filterMap StorageRow.outfit).Perm
      (w.outfits.take 500 ++ w.stale.filterMap StorageRow.outfit) := by
  have hperm := (genReservedStorageRange_perm hlength).filterMap StorageRow.outfit
  rwa [List.filterMap_append, filterMap_outfitRows (by omega)] at hperm

theorem filterMap_stale_eq_nil (hlength : w.outfits.length < 2 ^ 31) (hstart : StartFree w) :
    w.stale.filterMap StorageRow.outfit = [] ↔
      ∀ row ∈ w.storageMap.rows, inOutfitsRange row.key →
        (row.key - PSTRG_OUTFITS_RANGE_START).toNat ≤ w.outfits.length := by
  have hoffset : ∀ row : StorageRow, inOutfitsRange row.key → 10001000 ≤ row.order ∧
      (row.key - PSTRG_OUTFITS_RANGE_START).toNat = row.order - 10001000 := by
    intro row hrow
    rw [isInKeyRange_iff] at hrow
    refine ⟨hrow.1, ?_⟩
    rw [UInt32.toNat_sub_of_le _ _ (UInt32.le_iff_toNat_le.mpr hrow.1)]
    rfl
  simp only [List.filterMap_eq_nil_iff, stale, List.mem_filter, decide_eq_true_iff,
    mem_map_key_outfitRows (show 0 + w.outfits.length < 2 ^ 31 by omega), and_imp,
    StorageRow.outfit]
  refine forall₂_congr fun row hrow => ?_
  have hfree := hstart row hrow
  constructor
  · intro h hrange
    obtain ⟨hle, heq⟩ := hoffset row hrange
    by_contra hgt
    have hnone := h (by omega)
    rw [if_pos hrange] at hnone
    cases hnone
  · intro h hstale
    refine if_neg fun hrange => ?_
    obtain ⟨hle, heq⟩ := hoffset row hrange
    have hbound := h hrange
    omega

/-- The range has no room for more. -/
theorem length_filterMap_le (m : StorageMap) :
    (m.rows.filterMap StorageRow.outfit).length ≤ 501 := by
  have hlen : (m.rows.filterMap StorageRow.outfit).length =
      ((m.rows.filter fun row => inOutfitsRange row.key).map StorageRow.order).length := by
    rw [List.length_filterMap_eq_countP, List.countP_eq_length_filter, List.length_map]
    congr 1
    refine List.filter_congr fun row _ => ?_
    unfold StorageRow.outfit
    split <;> simp_all
  have hnodup : ((m.rows.filter fun row => inOutfitsRange row.key).map StorageRow.order).Nodup := by
    have hsorted := m.sorted.filter fun row => inOutfitsRange row.key
    exact List.pairwise_map.mpr (hsorted.imp fun h => h.ne)
  have hsub : (m.rows.filter fun row => inOutfitsRange row.key).map StorageRow.order ⊆
      List.range' 10001000 501 := by
    intro k hk
    obtain ⟨row, hrow, rfl⟩ := List.mem_map.mp hk
    have hrange := (List.mem_filter.mp hrow).2
    rw [isInKeyRange_iff] at hrange
    obtain ⟨hle, hge⟩ := hrange
    change 10001000 ≤ row.order at hle
    change row.order ≤ 10001000 + 500 at hge
    rw [List.mem_range'_1]
    omega
  rw [hlen]
  have hle := (List.subperm_of_subset hnodup hsub).length_le
  rwa [List.length_range'] at hle

/-- A login after a save gives back the outfits exactly if they fit in. -/
theorem restores_genReservedStorageRange (hstart : StartFree w) :
    (w.genReservedStorageRange.storageMap.rows.filterMap StorageRow.outfit).Perm w.outfits ↔
      w.outfits.length ≤ 500 ∧ ∀ row ∈ w.storageMap.rows, inOutfitsRange row.key →
        (row.key - PSTRG_OUTFITS_RANGE_START).toNat ≤ w.outfits.length := by
  constructor
  · intro hperm
    have hbound := hperm.length_eq ▸ length_filterMap_le w.genReservedStorageRange.storageMap
    have hlength : w.outfits.length < 2 ^ 31 := by omega
    have hnil := filterMap_stale_eq_nil hlength hstart
    have hboth := ((filterMap_genReservedStorageRange hlength).symm.trans hperm).length_eq
    rw [List.length_append, List.length_take] at hboth
    have hfits : w.outfits.length ≤ 500 := by
      by_contra hgt
      have hrange : w.stale.filterMap StorageRow.outfit = [] := hnil.mpr fun row _ hrow => by
        have hsize := UInt32.le_iff_toNat_le.mp (of_decide_eq_true (Bool.and_eq_true_iff.mp hrow).2)
        change _ ≤ 500 at hsize
        omega
      rw [hrange, List.length_nil] at hboth
      omega
    exact ⟨hfits, hnil.mp (List.length_eq_zero_iff.mp (by omega))⟩
  · rintro ⟨hle, hrange⟩
    have hlength : w.outfits.length < 2 ^ 31 := by omega
    have hperm := filterMap_genReservedStorageRange hlength
    rwa [(filterMap_stale_eq_nil hlength hstart).mpr hrange, List.append_nil,
      List.take_of_length_le hle] at hperm

theorem StartFree.genReservedStorageRange (h : StartFree w) (hlength : w.outfits.length ≤ 500) :
    StartFree w.genReservedStorageRange := by
  intro row hrow
  obtain hnew | hold := List.mem_append.mp ((genReservedStorageRange_perm (by omega)).subset hrow)
  · have hkey := List.mem_map_of_mem (f := StorageRow.order) hnew
    rw [mem_map_key_outfitRows (by omega)] at hkey
    omega
  · exact h row (List.mem_filter.mp hold).1

theorem StartFree.loadPlayer {rows : List StorageRow} : StartFree (Session.loadPlayer rows) := by
  have hfold : ∀ w : Wardrobe, StartFree w →
      StartFree (rows.foldl (fun w row => w.addStorageValue row.key row.value) w) := by
    induction rows with
    | nil => exact fun w h => h
    | cons row rows ih => exact fun w h => ih _ h.addStorageValue
  exact hfold {} fun row hrow => nomatch hrow

end Wardrobe

namespace Session

variable {s : Session}

theorem outfits_loadPlayer {rows : List StorageRow} :
    (loadPlayer rows).outfits = rows.filterMap StorageRow.outfit :=
  Wardrobe.foldl_addStorageValue

theorem restores_iff : Restores s ↔ (s.rows.filterMap StorageRow.outfit).Perm s.saved := by
  constructor
  · intro h
    have hrows := h s.rows (.refl _)
    rwa [outfits_loadPlayer] at hrows
  · intro h rows hrows
    rw [outfits_loadPlayer]
    exact (hrows.filterMap _).trans h

/-- The state at a login, with what the rows hold for the outfits of the last save. -/
def login (rows : List StorageRow) : Session :=
  { player := loadPlayer rows, rows, saved := (loadPlayer rows).outfits }

theorem restores_step {a : Action} (hstart : s.player.StartFree) (hs : Restores s) :
    Restores (step s a) ↔ Fits s a := by
  cases a with
  | savePlayer => exact restores_iff.trans (Wardrobe.restores_genReservedStorageRange hstart)
  | _ => exact iff_true_intro hs

theorem startFree_step {a : Action} (hstart : s.player.StartFree) (ha : Fits s a) :
    (step s a).player.StartFree := by
  cases a with
  | savePlayer => exact hstart.genReservedStorageRange ha.1
  | addStorageValue key value => exact hstart.addStorageValue
  | loadPlayer rows => exact .loadPlayer
  | _ => exact hstart

/-- At every moment of a run a login gives back the outfits of the last save, exactly if at every
save they fit into their range and none of the session's saves had held more. -/
theorem restores_run_iff {rows : List StorageRow} {actions : List Action} :
    (∀ n, Restores ((actions.take n).foldl step (login rows))) ↔
      Run.Steps step Fits (login rows) actions := by
  refine Run.forall_take_iff (I := fun s => s.player.StartFree) (fun s a => startFree_step)
    (fun s a => restores_step) Wardrobe.StartFree.loadPlayer (restores_iff.mpr ?_)
  exact .of_eq outfits_loadPlayer.symm

/-- A second save after an outfit was removed leaves the row of the first in place. -/
theorem removed_outfit_returns :
    let s := [Action.addOutfit 128 0, .addOutfit 129 3, .savePlayer, .removeOutfit 129,
      .savePlayer].foldl step (login [])
    s.saved = [⟨128, 0⟩] ∧ (loadPlayer s.rows).outfits = [⟨128, 0⟩, ⟨129, 3⟩] := by
  decide

end Session
end OTServBR.Player
