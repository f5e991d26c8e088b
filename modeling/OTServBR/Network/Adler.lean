import OTServBR.Lib.Blocks
import OTServBR.Lib.RunningSums
import OTServBR.Network.Message

/-! # The checksum of a packet

The checksum is computed in groups of 5552 bytes and reduced after each of them.
No sum in a group leaves the 32 bits of its word, and the result is the one with
a reduction after every byte.
-/

namespace OTServBR

open RunningSums

/-- Adler-32 of a byte string, reduced after every byte. -/
def adler32 (data : List UInt8) : ℕ :=
  let s := (data.map UInt8.toNat).foldl (addMod 65521) (1, 0)
  s.2 * 2 ^ 16 + s.1

/-- The accumulators after one more byte. -/
def adlerStep (s : UInt32 × UInt32) (byte : UInt8) : UInt32 × UInt32 :=
  (s.1 + byte.toUInt32, s.2 + (s.1 + byte.toUInt32))

/-- The accumulators when the byte at an index is added: the groups before it, and what precedes
it in its own. -/
def accumulators (data : List UInt8) (index : ℕ) : UInt32 × UInt32 :=
  let start := index / 5552 * 5552
  ((data.drop start).take (index - start)).foldl adlerStep (adlerGroups (data.take start) 1 0)

/-- A byte is added without a carry out of 32 bits. -/
def Fits (s : UInt32 × UInt32) (byte : UInt8) : Prop :=
  s.1.toNat + byte.toNat < 2 ^ 32 ∧ s.2.toNat + (s.1.toNat + byte.toNat) < 2 ^ 32

/-- The numbers of a pair of words. -/
def numbers (s : UInt32 × UInt32) : ℕ × ℕ := (s.1.toNat, s.2.toNat)

theorem numbers_adlerStep {s : UInt32 × UInt32} {byte : UInt8} (h : Fits s byte) :
    numbers (adlerStep s byte) = add (numbers s) byte.toNat := by
  have hbyte : byte.toUInt32.toNat = byte.toNat := UInt8.toNat_toUInt32 byte
  have hfst : (s.1 + byte.toUInt32).toNat = s.1.toNat + byte.toNat := by
    rw [UInt32.toNat_add, hbyte, Nat.mod_eq_of_lt h.1]
  have hsnd : (s.2 + (s.1 + byte.toUInt32)).toNat = s.2.toNat + (s.1.toNat + byte.toNat) := by
    rw [UInt32.toNat_add, hfst, Nat.mod_eq_of_lt h.2]
  exact Prod.ext hfst hsnd

/-! ## One group -/

/-- Both accumulators are below the modulus. -/
def Reduced (s : UInt32 × UInt32) : Prop := s.1.toNat < 65521 ∧ s.2.toNat < 65521

/-- From reduced accumulators the sums of a group are below 2³². -/
theorem foldl_add_lt {s : UInt32 × UInt32} (hs : Reduced s) {group : List UInt8}
    (hgroup : group.length ≤ 5552) :
    ((group.map UInt8.toNat).foldl add (numbers s)).1 < 2 ^ 32 ∧
      ((group.map UInt8.toNat).foldl add (numbers s)).2 < 2 ^ 32 := by
  have hbytes : ∀ x ∈ group.map UInt8.toNat, x ≤ 255 := by
    intro x hx
    obtain ⟨byte, -, rfl⟩ := List.mem_map.mp hx
    exact Nat.le_of_lt_succ byte.toNat_lt
  obtain ⟨hsum, htotal⟩ := foldl_add_le hbytes (Nat.le_of_lt_succ hs.1 : (numbers s).1 ≤ 65520)
    (Nat.le_of_lt_succ hs.2)
  rw [List.length_map] at hsum htotal
  have hsquare : group.length * (group.length + 1) ≤ 5552 * (5552 + 1) :=
    Nat.mul_le_mul hgroup (Nat.succ_le_succ hgroup)
  omega

/-- The words of a group are the sums of its numbers. -/
theorem numbers_foldl_adlerStep {s : UInt32 × UInt32} (hs : Reduced s) {group : List UInt8}
    (hgroup : group.length ≤ 5552) :
    numbers (group.foldl adlerStep s) = (group.map UInt8.toNat).foldl add (numbers s) := by
  induction group using List.reverseRecOn with
  | nil => rfl
  | append_singleton group byte ih =>
    obtain ⟨hsum, htotal⟩ := foldl_add_lt hs hgroup
    rw [List.length_append, List.length_singleton] at hgroup
    have hgroup' := ih (Nat.le_of_succ_le hgroup)
    rw [List.map_append, List.foldl_append, ← hgroup'] at hsum htotal
    rw [List.map_append, List.foldl_append, List.foldl_append, ← hgroup']
    exact numbers_adlerStep ⟨hsum, htotal⟩

theorem fits_of_group {s : UInt32 × UInt32} (hs : Reduced s) {group : List UInt8} {byte : UInt8}
    (hgroup : group.length < 5552) : Fits (group.foldl adlerStep s) byte := by
  have hlength : (group ++ [byte]).length ≤ 5552 := by
    rw [List.length_append, List.length_singleton]
    exact hgroup
  obtain ⟨hsum, htotal⟩ := foldl_add_lt hs hlength
  rw [List.map_append, List.foldl_append, ← numbers_foldl_adlerStep hs hgroup.le] at hsum htotal
  exact ⟨hsum, htotal⟩

/-! ## All groups -/

theorem adlerGroups_of_ne_nil {data : List UInt8} (h : data ≠ []) (s : UInt32 × UInt32) :
    adlerGroups data s.1 s.2 = adlerGroups (data.drop 5552)
      (((data.take 5552).foldl adlerStep s).1 % 65521)
      (((data.take 5552).foldl adlerStep s).2 % 65521) := by
  rw [adlerGroups, if_pos (List.length_pos_iff.mpr h)]
  rfl

theorem adlerGroups_nil (s : UInt32 × UInt32) : adlerGroups [] s.1 s.2 = s := by
  rw [adlerGroups]
  exact if_neg (Nat.lt_irrefl 0)

/-- A group leaves reduced accumulators, those with a reduction after every byte. -/
theorem numbers_group {s : UInt32 × UInt32} (hs : Reduced s) {group : List UInt8}
    (hgroup : group.length ≤ 5552) :
    numbers ((group.foldl adlerStep s).1 % 65521, (group.foldl adlerStep s).2 % 65521) =
      (group.map UInt8.toNat).foldl (addMod 65521) (numbers s) := by
  have hreduce : reduce 65521 (numbers s) = numbers s :=
    Prod.ext (Nat.mod_eq_of_lt hs.1) (Nat.mod_eq_of_lt hs.2)
  rw [← hreduce, ← reduce_foldl_add, ← numbers_foldl_adlerStep hs hgroup]
  exact Prod.ext (UInt32.toNat_mod _ _) (UInt32.toNat_mod _ _)

theorem reduced_mod (s : UInt32 × UInt32) : Reduced (s.1 % 65521, s.2 % 65521) := by
  constructor
  · exact (UInt32.toNat_mod _ _).trans_lt (Nat.mod_lt _ (by decide))
  · exact (UInt32.toNat_mod _ _).trans_lt (Nat.mod_lt _ (by decide))

theorem numbers_adlerGroups {s : UInt32 × UInt32} (hs : Reduced s) (data : List UInt8) :
    numbers (adlerGroups data s.1 s.2) =
      (data.map UInt8.toNat).foldl (addMod 65521) (numbers s) ∧
    Reduced (adlerGroups data s.1 s.2) := by
  by_cases hdata : data = []
  · subst hdata
    rw [adlerGroups_nil]
    exact ⟨rfl, hs⟩
  have hlength := List.length_pos_iff.mpr hdata
  have hgroup : (data.take 5552).length ≤ 5552 := List.length_take_le _ _
  obtain ⟨hnumbers, hreduced⟩ := numbers_adlerGroups
    (reduced_mod ((data.take 5552).foldl adlerStep s)) (data.drop 5552)
  rw [adlerGroups_of_ne_nil hdata]
  refine ⟨?_, hreduced⟩
  rw [hnumbers, numbers_group hs hgroup, ← List.foldl_append, ← List.map_append,
    List.take_append_drop]
termination_by data.length
decreasing_by rw [List.length_drop]; omega

/-- The groups of a beginning of full ones come first. -/
theorem adlerGroups_append {groups : List UInt8} (h : 5552 ∣ groups.length)
    (s : UInt32 × UInt32) (rest : List UInt8) : adlerGroups (groups ++ rest) s.1 s.2 =
      adlerGroups rest (adlerGroups groups s.1 s.2).1 (adlerGroups groups s.1 s.2).2 := by
  induction groups using Blocks.blocks_induction (n := 5552) (by decide) generalizing s with
  | short data hlt =>
    obtain rfl := List.length_eq_zero_iff.mp (Nat.eq_zero_of_dvd_of_lt h hlt)
    rw [List.nil_append, adlerGroups_nil]
  | block group groups hgroup ih =>
    rw [List.length_append, hgroup, Nat.dvd_add_right (Nat.dvd_refl _)] at h
    have hone : ∀ rest, adlerGroups (group ++ rest) s.1 s.2 = adlerGroups rest
        ((group.foldl adlerStep s).1 % 65521) ((group.foldl adlerStep s).2 % 65521) := by
      intro rest
      have hne : group ++ rest ≠ [] := by
        rw [Ne, List.append_eq_nil_iff]
        rintro ⟨rfl, -⟩
        cases hgroup
      rw [adlerGroups_of_ne_nil hne, List.take_left' hgroup, List.drop_left' hgroup]
    rw [List.append_assoc, hone, hone]
    exact ih h (_, _)

theorem reduced_one_zero : Reduced (1, 0) := ⟨by decide, by decide⟩

/-- The checksum is Adler-32, and no sum on the way leaves its word: the loop gets to the group of
every byte, and there the byte fits. -/
theorem adlerChecksum_eq_adler32 (data : List UInt8) (h : data.length ≤ NETWORKMESSAGE_MAXSIZE) :
    (adlerChecksum data).toNat = adler32 data ∧
      ∀ index byte, data[index]? = some byte →
        (let start := index / 5552 * 5552
          let s := adlerGroups (data.take start) 1 0
          adlerGroups data 1 0 = adlerGroups (data.drop start) s.1 s.2) ∧
        Fits (accumulators data index) byte := by
  constructor
  · obtain ⟨hnumbers, hfst, hsnd⟩ := numbers_adlerGroups reduced_one_zero data
    have hone : numbers (1, 0) = (1, 0) := rfl
    dsimp only at hnumbers hfst hsnd
    rw [adlerChecksum, if_neg (not_lt.mpr h), adler32, ← hone, ← hnumbers]
    dsimp only
    have hshift : (16 : UInt32).toNat % 32 = 16 := rfl
    have hsum : (adlerGroups data 1 0).1.toNat < 2 ^ 16 := hfst.trans (by decide)
    rw [UInt32.toNat_or, UInt32.toNat_shiftLeft, hshift, Nat.shiftLeft_eq,
      Nat.mod_eq_of_lt (by omega), ← Nat.shiftLeft_eq, ← Nat.shiftLeft_add_eq_or_of_lt hsum,
      Nat.shiftLeft_eq]
    rfl
  · intro index byte hbyte
    obtain ⟨hindex, -⟩ := List.getElem?_eq_some_iff.mp hbyte
    have hstart := Nat.div_mul_le_self index 5552
    have hlength : (data.take (index / 5552 * 5552)).length = index / 5552 * 5552 :=
      List.length_take_of_le (hstart.trans hindex.le)
    have hgroups : 5552 ∣ (data.take (index / 5552 * 5552)).length :=
      Dvd.intro_left _ hlength.symm
    have hlt : index - index / 5552 * 5552 < 5552 := by
      have hmod := Nat.div_add_mod' index 5552
      have := Nat.mod_lt index (show 0 < 5552 by decide)
      omega
    refine ⟨?_, ?_⟩
    · have hsplit := adlerGroups_append hgroups (1, 0) (data.drop (index / 5552 * 5552))
      rw [List.take_append_drop] at hsplit
      exact hsplit
    refine fits_of_group (numbers_adlerGroups reduced_one_zero _).2 ?_
    exact (List.length_take_le _ _).trans_lt hlt

/-- A packet of two groups. -/
theorem adlerChecksum_eq_adler32_zeros :
    (adlerChecksum (List.replicate 6000 0)).toNat = adler32 (List.replicate 6000 0) ∧
      Fits (accumulators (List.replicate 6000 0) 5552) 0 := by
  have hlength : (List.replicate 6000 (0 : UInt8)).length ≤ NETWORKMESSAGE_MAXSIZE := by
    rw [List.length_replicate]
    decide
  obtain ⟨hsum, hfits⟩ := adlerChecksum_eq_adler32 _ hlength
  refine ⟨hsum, (hfits 5552 0 ?_).2⟩
  rw [List.getElem?_replicate, if_pos (by decide)]

end OTServBR
