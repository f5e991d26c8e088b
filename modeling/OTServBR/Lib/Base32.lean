import OTServBR.Lib.BitString

/-! # Base 32

A byte string is written in groups of five bits, each as one character of an
alphabet of 32. Zero bits fill up the last group, and no padding characters
follow.
-/

namespace Base32

open BitString

def alphabet : List UInt8 := "ABCDEFGHIJKLMNOPQRSTUVWXYZ234567".toList.map Char.toUInt8

/-- The character of a group. -/
def digit (v : ℕ) : UInt8 := alphabet.getD v 0

/-- The bits that are missing at the last group. -/
def fill (n : ℕ) : List Bool := List.replicate ((5 - n % 5) % 5) false

def groups (bytes : List UInt8) : List (List Bool) :=
  chunks 5 (ofBytes bytes ++ fill (ofBytes bytes).length)

def encode (bytes : List UInt8) : List UInt8 := (groups bytes).map fun g => digit (value g)

variable {bytes : List UInt8} {n : ℕ}

theorem digit_mem {v : ℕ} (hv : v < 32) : digit v ∈ alphabet := by
  have hlen : alphabet.length = 32 := by decide
  have hlt : v < alphabet.length := by rwa [hlen]
  rw [digit, List.getD_eq_getElem _ _ hlt]
  exact List.getElem_mem hlt

theorem length_fill_lt : (fill n).length < 5 := by
  rw [fill, List.length_replicate]
  exact Nat.mod_lt _ (Nat.succ_pos 4)

/-- The text spells the bits and the bits of the fill. -/
theorem exists_digits (bytes : List UInt8) : ∃ ds : List ℕ, (∀ v ∈ ds, v < 32) ∧
    encode bytes = ds.map digit ∧
    ds.flatMap (bits 5) = ofBytes bytes ++ fill (ofBytes bytes).length := by
  have hdvd : 5 ∣ (ofBytes bytes ++ fill (ofBytes bytes).length).length := by
    rw [List.length_append, fill, List.length_replicate]
    omega
  obtain ⟨gs, hgs, hall⟩ := exists_of_dvd hdvd
  have hchunks : groups bytes = gs := by
    rw [groups, hgs, chunks_flatten (Nat.succ_pos 4) hall]
  refine ⟨gs.map value, ?_, ?_, ?_⟩
  · intro v hv
    obtain ⟨g, hg, rfl⟩ := List.mem_map.mp hv
    have hlt : value g < 2 ^ g.length := value_lt
    rwa [hall g hg] at hlt
  · rw [encode, hchunks, List.map_map]
    rfl
  · rw [hgs, List.flatMap_map, ← List.flatMap_id']
    exact List.flatMap_congr fun g hg => bits_value (hall g hg)

end Base32
