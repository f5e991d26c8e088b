import OTServBR.Lib.Base32

/-! # The secret of an account

The database keeps the key of an authenticator as text in base 32. Every
character shifts five bits into a buffer of 32 bits, and eight bits that are
complete leave as a byte of the key. Bits that left stay above the others in
the buffer until they are shifted out.
-/

namespace OTServBR.Secret

open BitString

/-- The bits of a character. -/
def charBits (ch : UInt8) : Option UInt32 :=
  if 'A'.toUInt8 ≤ ch ∧ ch ≤ 'Z'.toUInt8 then some ((ch &&& 0x1F).toUInt32 - 1)
  else if '2'.toUInt8 ≤ ch ∧ ch ≤ '7'.toUInt8 then some (ch.toUInt32 - 24)
  else none

structure Decoder where
  key : List UInt8 := []
  buffer : UInt32 := 0
  left : UInt32 := 0

/-- The body of the loop after a valid character. -/
def Decoder.push (s : Decoder) (v : UInt32) : Decoder :=
  let buffer := s.buffer <<< 5 ||| v
  let left := s.left + 5
  if 8 ≤ left then
    let left := left - 8
    { key := s.key ++ [(buffer >>> left).toUInt8], buffer := buffer, left := left }
  else { s with buffer := buffer, left := left }

def Decoder.decode (s : Decoder) : List UInt8 → Option Decoder
  | [] => some s
  | ch :: secret =>
    match charBits ch with
    | none => none
    | some v => (s.push v).decode secret

/-- A broken key decodes to the empty one. -/
def decodeSecret (secret : List UInt8) : List UInt8 :=
  match ({} : Decoder).decode secret with
  | none => []
  | some s => s.key

/-! ## The characters -/

theorem charBits_digit {v : ℕ} (hv : v < 32) :
    charBits (Base32.digit v) = some (UInt32.ofNat v) := by
  have hall : ∀ v < 32, charBits (Base32.digit v) = some (UInt32.ofNat v) := by decide
  exact hall v hv

theorem charBits_isSome_iff (ch : UInt8) : (charBits ch).isSome ↔ ch ∈ Base32.alphabet := by
  have hall : ∀ n < 256, (charBits (.ofNat n)).isSome ↔ UInt8.ofNat n ∈ Base32.alphabet := by
    decide +kernel
  have h := hall ch.toNat ch.toNat_lt
  rwa [UInt8.ofNat_toNat] at h

/-! ## The buffer -/

/-- The bits that were read are those of the key and the `left` low ones of the buffer. -/
structure Decoder.Holds (s : Decoder) (read : List Bool) : Prop where
  left_lt : s.left.toNat < 8
  read_eq : read = ofBytes s.key ++ bits s.left.toNat s.buffer.toNat

theorem holds_start : ({} : Decoder).Holds [] := ⟨by decide, rfl⟩

/-- Five bits enter the buffer at its low end. -/
theorem toNat_shift_or {buffer : UInt32} {v : ℕ} (hv : v < 32) :
    (buffer <<< 5 ||| UInt32.ofNat v).toNat = (buffer.toNat * 32 + v) % 2 ^ 32 := by
  have hv' : (UInt32.ofNat v).toNat = v := UInt32.toNat_ofNat_of_lt' (hv.trans (by decide))
  have hshift : (buffer <<< 5).toNat = buffer.toNat % 2 ^ 27 * 2 ^ 5 := by
    rw [UInt32.toNat_shiftLeft, Nat.shiftLeft_eq]
    have h5 : (5 : UInt32).toNat % 32 = 5 := rfl
    rw [h5]
    omega
  rw [UInt32.toNat_or, hv', hshift, ← Nat.shiftLeft_eq, ← Nat.shiftLeft_add_eq_or_of_lt hv,
    Nat.shiftLeft_eq]
  omega

theorem Decoder.Holds.push {s : Decoder} {read : List Bool} (h : s.Holds read) {v : ℕ}
    (hv : v < 32) : (s.push (UInt32.ofNat v)).Holds (read ++ bits 5 v) := by
  obtain ⟨hlt, hread⟩ := h
  have hbuffer : (s.buffer <<< 5 ||| UInt32.ofNat v).toNat = (s.buffer.toNat * 32 + v) % 2 ^ 32 :=
    toNat_shift_or hv
  generalize hb : s.buffer <<< 5 ||| UInt32.ofNat v = buffer at hbuffer
  have hleft : (s.left + 5).toNat = s.left.toNat + 5 := by
    rw [UInt32.toNat_add]
    have h5 : (5 : UInt32).toNat = 5 := rfl
    omega
  -- what is left and the new bits are the low bits of the new buffer
  have hjoin : bits s.left.toNat s.buffer.toNat ++ bits 5 v =
      bits (s.left.toNat + 5) buffer.toNat := by
    rw [bits_add]
    congr 1
    · apply bits_congr
      have hdvd : 2 ^ s.left.toNat ∣ 2 ^ 27 := Nat.pow_dvd_pow 2 (by omega)
      have hdiv : buffer.toNat / 2 ^ 5 = s.buffer.toNat % 2 ^ 27 := by omega
      rw [hdiv, Nat.mod_mod_of_dvd _ hdvd]
    · apply bits_congr
      omega
  unfold Decoder.push
  rw [hb]
  dsimp only
  split
  · next hge =>
    have hge' : 8 ≤ s.left.toNat + 5 := by
      rw [← hleft]
      exact UInt32.le_iff_toNat_le.mp hge
    have hsub : (s.left + 5 - 8).toNat = s.left.toNat + 5 - 8 := by
      rw [UInt32.toNat_sub_of_le _ _ hge, hleft]
      rfl
    constructor
    · dsimp only
      omega
    · dsimp only
      have hbyte : bits 8 (buffer >>> (s.left + 5 - 8)).toUInt8.toNat =
          bits 8 (buffer.toNat / 2 ^ (s.left.toNat + 5 - 8)) := by
        rw [UInt32.toNat_toUInt8, bits_mod, UInt32.toNat_shiftRight, hsub, Nat.shiftRight_eq_div_pow,
          Nat.mod_eq_of_lt (by omega)]
      have hsplit : s.left.toNat + 5 = 8 + (s.left.toNat + 5 - 8) := by omega
      rw [hread, List.append_assoc, hjoin, hsub, ofBytes_append, ofBytes_cons, hbyte, ofBytes_nil,
        List.append_nil, List.append_assoc, ← bits_add, ← hsplit]
  · next hge =>
    have hlt' : s.left.toNat + 5 < 8 := by
      rw [← hleft]
      exact UInt32.lt_iff_toNat_lt.mp (UInt32.not_le.mp hge)
    constructor
    · dsimp only
      omega
    · dsimp only
      rw [hread, List.append_assoc, hjoin, hleft]

theorem Decoder.Holds.decode {ds : List ℕ} {s : Decoder} {read : List Bool} (h : s.Holds read)
    (hds : ∀ v ∈ ds, v < 32) :
    ∃ s', s.decode (ds.map Base32.digit) = some s' ∧ s'.Holds (read ++ ds.flatMap (bits 5)) := by
  induction ds generalizing s read with
  | nil => exact ⟨s, rfl, by rwa [List.flatMap_nil, List.append_nil]⟩
  | cons v ds ih =>
    have hv : v < 32 := hds v List.mem_cons_self
    obtain ⟨s', hs', hholds⟩ := ih (h.push hv) fun u hu => hds u (List.mem_cons_of_mem _ hu)
    refine ⟨s', ?_, ?_⟩
    · rw [List.map_cons, Decoder.decode, charBits_digit hv]
      exact hs'
    · rw [List.flatMap_cons, ← List.append_assoc]
      exact hholds

theorem decode_eq_none {secret : List UInt8} (s : Decoder) {ch : UInt8} (hmem : ch ∈ secret)
    (hch : charBits ch = none) : s.decode secret = none := by
  induction secret generalizing s with
  | nil => cases hmem
  | cons c secret ih =>
    rw [Decoder.decode]
    split
    · rfl
    · next v hv =>
      rcases List.mem_cons.mp hmem with rfl | hmem
      · rw [hch] at hv
        cases hv
      · exact ih _ hmem

/-- The text of a key decodes to the key, and text with other characters to nothing. -/
theorem decodeSecret_encode : (∀ k, decodeSecret (Base32.encode k) = k) ∧
    ∀ secret, (∃ ch ∈ secret, ch ∉ Base32.alphabet) → decodeSecret secret = [] := by
  constructor
  · intro k
    obtain ⟨ds, hds, htext, hbits⟩ := Base32.exists_digits k
    obtain ⟨s, hs, hholds⟩ := holds_start.decode hds
    have hfill := Base32.length_fill_lt (n := (ofBytes k).length)
    have hleft := hholds.left_lt
    -- both splits of the bits leave less than a byte
    have hkey : s.key = k := by
      have h := hholds.read_eq
      rw [List.nil_append, hbits] at h
      have h' := congrArg toBytes h
      rw [toBytes_ofBytes_append (by omega), toBytes_ofBytes_append (by rwa [length_bits])] at h'
      exact h'.symm
    rw [decodeSecret, htext, hs]
    exact hkey
  · rintro secret ⟨ch, hmem, hch⟩
    have hnone : charBits ch = none := by
      rwa [← charBits_isSome_iff, Option.not_isSome_iff_eq_none] at hch
    rw [decodeSecret, decode_eq_none _ hmem hnone]

theorem decodeSecret_encode_hello :
    decodeSecret (Base32.encode [72, 101, 108, 108, 111, 33]) = [72, 101, 108, 108, 111, 33] ∧
      decodeSecret [65, 48] = [] :=
  ⟨decodeSecret_encode.1 _, decodeSecret_encode.2 _ ⟨48, by decide, by decide⟩⟩

end OTServBR.Secret
