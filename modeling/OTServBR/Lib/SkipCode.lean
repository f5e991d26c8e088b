import Mathlib.Data.Int.Notation
import Mathlib.Data.Nat.Notation

/-! # Cells and skips

A list of cells is written as the data of the cells that there are, with the
number of missing cells after each of them in a marker of one byte. A marker
that stands alone is for a missing cell and as many after it as it says. A cell
without data reads like a missing one; everything else reads back as it was.
-/

namespace SkipCode

variable {α : Type*}

/-- A piece of data, or a marker. -/
inductive Word (α : Type*)
  | datum (a : α)
  | skip (k : UInt8)
  deriving DecidableEq

/-- The marker for the missing cells that were counted; below zero there is none to write. -/
def flush (skip : ℤ) : List (Word α) :=
  if 0 ≤ skip then [.skip (UInt8.ofNat skip.toNat)] else []

/-- The words of a list of cells after a number of missing ones. -/
def encode : ℤ → List (Option (List α)) → List (Word α)
  | skip, [] => flush skip
  | skip, some data :: cells => flush skip ++ (data.map .datum ++ encode 0 cells)
  | skip, none :: cells =>
    if skip = 0xFE then .skip 0xFF :: encode (-1) cells else encode (skip + 1) cells

/-- The data up to the next marker, the marker, and the words behind it. -/
def read : List (Word α) → Option (List α × UInt8 × List (Word α))
  | [] => none
  | .skip k :: words => some ([], k, words)
  | .datum a :: words => (read words).map fun r => (a :: r.1, r.2)

/-- No data are no cell. -/
def ofData : List α → Option (List α)
  | [] => none
  | a :: data => some (a :: data)

/-- A number of cells, of which some are known to be missing, and the words that are left. -/
def decode : ℕ → ℕ → List (Word α) → Option (List (Option (List α)) × List (Word α))
  | 0, 0, words => some ([], words)
  | 0, _ + 1, _ => none
  | n + 1, skip + 1, words => (decode n skip words).map fun r => (none :: r.1, r.2)
  | n + 1, 0, words =>
    match read words with
    | none => none
    | some (data, k, words) => (decode n k.toNat words).map fun r => (ofData data :: r.1, r.2)

/-- What can be read of a cell. -/
def legible (cell : Option (List α)) : Option (List α) := cell.bind ofData

variable {cells : List (Option (List α))} {data : List α} {skip : ℤ}

theorem read_data (k : UInt8) (words : List (Word α)) :
    read (data.map .datum ++ .skip k :: words) = some (data, k, words) := by
  induction data with
  | nil => rfl
  | cons a data ih =>
    rw [List.map_cons, List.cons_append, read, ih]
    rfl

theorem flush_of_nonneg (h : 0 ≤ skip) :
    flush (α := α) skip = [.skip (UInt8.ofNat skip.toNat)] := if_pos h

/-- The words after some missing cells begin with a marker for these and the next missing ones. -/
structure Announces (skip : ℤ) (cells : List (Option (List α))) (k : UInt8)
    (words : List (Word α)) : Prop where
  encode_eq : encode skip cells = .skip k :: words
  le : skip ≤ k.toNat
  decode_eq : decode cells.length (k.toNat - skip.toNat) words = some (cells.map legible, [])

theorem Announces.decode_data {k : UInt8} {words : List (Word α)} (h : Announces 0 cells k words) :
    decode (cells.length + 1) 0 (data.map .datum ++ encode 0 cells) =
      some (legible (some data) :: cells.map legible, []) := by
  have hdecode := h.decode_eq
  rw [Int.toNat_zero, Nat.sub_zero] at hdecode
  rw [h.encode_eq, decode, read_data]
  dsimp only
  rw [hdecode]
  rfl

theorem announces (h0 : 0 ≤ skip) (h254 : skip ≤ 0xFE) :
    (∃ k words, Announces skip cells k words) ∧
      decode cells.length 0 (encode (-1) cells) = some (cells.map legible, []) := by
  induction cells generalizing skip with
  | nil =>
    refine ⟨⟨UInt8.ofNat skip.toNat, [], ?_⟩, rfl⟩
    have hk : (UInt8.ofNat skip.toNat).toNat = skip.toNat := by
      rw [UInt8.toNat_ofNat']
      omega
    refine ⟨flush_of_nonneg h0, by omega, ?_⟩
    rw [hk, Nat.sub_self]
    rfl
  | cons cell cells ih =>
    obtain ⟨⟨k, words, hzero⟩, halone⟩ := ih (by decide : (0 : ℤ) ≤ 0) (by decide)
    have hk : (UInt8.ofNat skip.toNat).toNat = skip.toNat := by
      rw [UInt8.toNat_ofNat']
      omega
    cases cell with
    | some data =>
      constructor
      · refine ⟨UInt8.ofNat skip.toNat, data.map .datum ++ encode 0 cells, ?_, by omega, ?_⟩
        · rw [encode, flush_of_nonneg h0]
          rfl
        · rw [hk, Nat.sub_self]
          exact hzero.decode_data
      · exact hzero.decode_data
    | none =>
      constructor
      · by_cases hlast : skip = 0xFE
        · subst hlast
          refine ⟨0xFF, encode (-1) cells, if_pos rfl, by decide, ?_⟩
          show decode (cells.length + 1) 1 _ = _
          rw [decode, halone]
          rfl
        · obtain ⟨⟨k, words, hnext⟩, _⟩ := ih (by omega : 0 ≤ skip + 1) (by omega)
          have hle := hnext.le
          refine ⟨k, words, (if_neg hlast).trans hnext.encode_eq, by omega, ?_⟩
          have hsub : k.toNat - skip.toNat = k.toNat - (skip + 1).toNat + 1 := by omega
          rw [hsub, List.length_cons, decode, hnext.decode_eq]
          rfl
      · have hdecode := hzero.decode_eq
        rw [Int.toNat_zero, Nat.sub_zero] at hdecode
        have hencode : encode (-1) (none :: cells) = encode 0 cells := rfl
        rw [hencode, hzero.encode_eq, List.length_cons, decode, read]
        dsimp only
        rw [hdecode]
        rfl

/-- The cells read back as they can be read, and no word is left. -/
theorem decode_encode (cells : List (Option (List α))) :
    decode cells.length 0 (encode (-1) cells) = some (cells.map legible, []) :=
  (announces (by decide : (0 : ℤ) ≤ 0) (by decide)).2

end SkipCode
