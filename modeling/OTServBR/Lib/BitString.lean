import Mathlib

/-! # Bit strings

A number as a string of bits, the most significant one first, and a string cut
into pieces of one length. Standards that speak of bits write them in this
order.
-/

namespace BitString

/-! ## Numbers -/

/-- The number that a bit string spells. -/
def value : List Bool → ℕ
  | [] => 0
  | b :: l => b.toNat * 2 ^ l.length + value l

/-- The `w` low bits of a number. -/
def bits : ℕ → ℕ → List Bool
  | 0, _ => []
  | w + 1, n => n.testBit w :: bits w n

variable {l m : List Bool} {v w n : ℕ}

@[simp] theorem value_nil : value [] = 0 := rfl

@[simp] theorem bits_zero_left : bits 0 n = [] := rfl

@[simp] theorem length_bits : (bits w n).length = w := by
  induction w with
  | zero => rfl
  | succ w ih => rw [bits, List.length_cons, ih]

theorem value_lt : value l < 2 ^ l.length := by
  induction l with
  | nil => exact Nat.one_pos
  | cons b l ih =>
    have hb : b.toNat ≤ 1 := Bool.toNat_le b
    have hmul : b.toNat * 2 ^ l.length ≤ 1 * 2 ^ l.length := Nat.mul_le_mul_right _ hb
    rw [value, List.length_cons, Nat.pow_succ]
    omega

theorem value_append : value (l ++ m) = value l * 2 ^ m.length + value m := by
  induction l with
  | nil => simp
  | cons b l ih =>
    rw [List.cons_append, value, value, ih, List.length_append]
    ring

theorem value_bits : value (bits w n) = n % 2 ^ w := by
  induction w with
  | zero => rw [bits_zero_left, value_nil, Nat.pow_zero, Nat.mod_one]
  | succ w ih =>
    rw [bits, value, length_bits, ih, Nat.testBit_eq_decide_div_mod_eq, Nat.pow_succ, Nat.mod_mul]
    have hparity := Nat.mod_two_eq_zero_or_one (n / 2 ^ w)
    obtain h | h := hparity
    · simp [h]
    · simp [h, Nat.add_comm]

@[simp] theorem bits_zero_right : bits w 0 = List.replicate w false := by
  induction w with
  | zero => rfl
  | succ w ih => rw [bits, ih, Nat.zero_testBit, List.replicate_succ]

theorem bits_congr (h : n % 2 ^ w = v % 2 ^ w) : bits w n = bits w v := by
  induction w with
  | zero => rfl
  | succ w ih =>
    have hbit : n.testBit w = v.testBit w := by
      have := congrArg (fun k => k.testBit w) h
      simpa [Nat.testBit_mod_two_pow] using this
    have hlow : n % 2 ^ w = v % 2 ^ w := by
      have := congrArg (· % 2 ^ w) h
      simpa [Nat.mod_mod_of_dvd, Nat.pow_dvd_pow_iff_le_right] using this
    rw [bits, bits, hbit, ih hlow]

theorem bits_mod : bits w (n % 2 ^ w) = bits w n := bits_congr (Nat.mod_mod _ _)

theorem bits_add : bits (v + w) n = bits v (n / 2 ^ w) ++ bits w n := by
  induction v with
  | zero => rw [Nat.zero_add, bits_zero_left, List.nil_append]
  | succ v ih =>
    rw [Nat.succ_add, bits, bits, ih, List.cons_append, Nat.testBit_div_two_pow]

theorem bits_value (h : l.length = w) : bits w (value l) = l := by
  subst h
  induction l with
  | nil => rfl
  | cons b l ih =>
    have hlt : value l < 2 ^ l.length := value_lt
    have hhead : (b.toNat * 2 ^ l.length + value l).testBit l.length = b := by
      rw [Nat.testBit_eq_decide_div_mod_eq, Nat.mul_comm, Nat.mul_add_div (Nat.two_pow_pos _),
        Nat.div_eq_of_lt hlt]
      cases b <;> rfl
    have htail : bits l.length (b.toNat * 2 ^ l.length + value l) = l := by
      rw [bits_congr (Nat.mul_add_mod_self_right _ _ _), ih]
    rw [List.length_cons, bits, value, hhead, htail]

theorem value_inj (hlen : l.length = m.length) (h : value l = value m) : l = m := by
  rw [← bits_value hlen, h, bits_value rfl]

/-! ## Pieces -/

variable {α : Type*} {a b : List α}

/-- The complete pieces of `n` entries, from the front. -/
def chunks (n : ℕ) (l : List α) : List (List α) :=
  (List.range (l.length / n)).map fun i => (l.drop (n * i)).take n

theorem chunks_of_lt (h : a.length < n) : chunks n a = [] := by
  rw [chunks, Nat.div_eq_of_lt h]
  rfl

theorem chunks_append_of_length (hn : 0 < n) (ha : a.length = n) :
    chunks n (a ++ b) = a :: chunks n b := by
  have hdiv : (a ++ b).length / n = b.length / n + 1 := by
    rw [List.length_append, ha, Nat.add_div_left _ hn]
  rw [chunks, hdiv, List.range_succ_eq_map, List.map_cons, List.map_map]
  congr 1
  · rw [Nat.mul_zero, List.drop_zero, List.take_left' ha]
  · refine List.map_congr_left fun i _ => ?_
    rw [Function.comp_apply, Nat.mul_succ, Nat.add_comm, ← List.drop_drop, List.drop_left' ha]

theorem chunks_self (hn : 0 < n) (ha : a.length = n) : chunks n a = [a] := by
  have h := chunks_append_of_length (b := []) hn ha
  rw [List.append_nil] at h
  rw [h, chunks_of_lt (by simpa using hn)]

/-- Pieces that are joined are found again, up to a rest that is no piece. -/
theorem chunks_flatten_append (hn : 0 < n) {xs : List (List α)} (hxs : ∀ x ∈ xs, x.length = n)
    (hb : b.length < n) : chunks n (xs.flatten ++ b) = xs := by
  induction xs with
  | nil => rw [List.flatten_nil, List.nil_append, chunks_of_lt hb]
  | cons x xs ih =>
    have hx : x.length = n := hxs x List.mem_cons_self
    rw [List.flatten_cons, List.append_assoc, chunks_append_of_length hn hx,
      ih fun y hy => hxs y (List.mem_cons_of_mem _ hy)]

theorem chunks_flatten (hn : 0 < n) {xs : List (List α)} (hxs : ∀ x ∈ xs, x.length = n) :
    chunks n xs.flatten = xs := by
  have h := chunks_flatten_append hn hxs (b := []) hn
  rwa [List.append_nil] at h

theorem exists_of_dvd (h : n ∣ a.length) :
    ∃ xs : List (List α), a = xs.flatten ∧ ∀ x ∈ xs, x.length = n := by
  obtain ⟨k, hk⟩ := h
  induction k generalizing a with
  | zero =>
    rw [Nat.mul_zero, List.length_eq_zero_iff] at hk
    exact ⟨[], hk, fun x hx => absurd hx List.not_mem_nil⟩
  | succ k ih =>
    have hrest : (a.drop n).length = n * k := by
      rw [List.length_drop, hk, Nat.mul_succ, Nat.add_sub_cancel]
    obtain ⟨xs, hxs, hall⟩ := ih hrest
    have hhead : (a.take n).length = n := by
      rw [List.length_take, hk, Nat.mul_succ]
      omega
    refine ⟨a.take n :: xs, ?_, ?_⟩
    · rw [List.flatten_cons, ← hxs, List.take_append_drop]
    · intro x hx
      rcases List.mem_cons.mp hx with rfl | hx
      · exact hhead
      · exact hall x hx

theorem length_of_mem_chunks {x : List α} (hx : x ∈ chunks n a) : x.length = n := by
  obtain ⟨i, hi, rfl⟩ := List.mem_map.mp hx
  have hle : n * (i + 1) ≤ a.length :=
    (Nat.mul_le_mul_left _ (List.mem_range.mp hi)).trans (Nat.mul_div_le _ _)
  rw [List.length_take, List.length_drop]
  rw [Nat.mul_succ] at hle
  omega

/-- The digits of a number, the highest first. -/
theorem chunks_bits (hw : 0 < w) (v n : ℕ) :
    chunks w (bits (w * v) n) = (List.range v).reverse.map fun j => bits w (n / 2 ^ (w * j)) := by
  induction v with
  | zero => exact chunks_of_lt (by simpa using hw)
  | succ v ih =>
    rw [Nat.mul_succ, Nat.add_comm, bits_add, chunks_append_of_length hw length_bits, ih,
      List.range_succ, List.reverse_append, List.map_append]
    rfl

/-! ## Bytes -/

/-- The bits of a byte string. -/
def ofBytes (bytes : List UInt8) : List Bool := bytes.flatMap fun byte => bits 8 byte.toNat

/-- The bytes of a bit string, up to bits that make no byte. -/
def toBytes (l : List Bool) : List UInt8 := (chunks 8 l).map fun c => UInt8.ofNat (value c)

variable {bytes : List UInt8}

@[simp] theorem ofBytes_nil : ofBytes [] = [] := rfl

@[simp] theorem ofBytes_cons {byte : UInt8} :
    ofBytes (byte :: bytes) = bits 8 byte.toNat ++ ofBytes bytes := rfl

@[simp] theorem ofBytes_append {bytes' : List UInt8} :
    ofBytes (bytes ++ bytes') = ofBytes bytes ++ ofBytes bytes' := List.flatMap_append

@[simp] theorem length_ofBytes : (ofBytes bytes).length = 8 * bytes.length := by
  induction bytes with
  | nil => rfl
  | cons byte bytes ih =>
    rw [ofBytes_cons, List.length_append, length_bits, ih, List.length_cons]
    ring

theorem ofBytes_zeros (n : ℕ) :
    ofBytes (List.replicate n 0) = List.replicate (8 * n) false := by
  have hbyte : bits 8 (0 : UInt8).toNat = List.replicate 8 false := by decide
  induction n with
  | zero => rfl
  | succ n ih =>
    rw [List.replicate_succ, ofBytes_cons, ih, hbyte, List.replicate_append_replicate]
    congr 1
    ring

theorem take_ofBytes (n : ℕ) : (ofBytes bytes).take (8 * n) = ofBytes (bytes.take n) := by
  induction bytes generalizing n with
  | nil => rw [List.take_nil, ofBytes_nil, List.take_nil]
  | cons byte bytes ih =>
    cases n with
    | zero => rfl
    | succ n =>
      have hlen : (bits 8 byte.toNat).length = 8 := length_bits
      have hlen' : 8 * (n + 1) = (bits 8 byte.toNat).length + 8 * n := by
        rw [hlen]
        ring
      rw [ofBytes_cons, hlen', List.take_length_add_append, ih, List.take_succ_cons, ofBytes_cons]

theorem drop_ofBytes (n : ℕ) : (ofBytes bytes).drop (8 * n) = ofBytes (bytes.drop n) := by
  induction bytes generalizing n with
  | nil => rw [List.drop_nil, ofBytes_nil, List.drop_nil]
  | cons byte bytes ih =>
    cases n with
    | zero => rfl
    | succ n =>
      have hlen : (bits 8 byte.toNat).length = 8 := length_bits
      have hlen' : 8 * (n + 1) = (bits 8 byte.toNat).length + 8 * n := by
        rw [hlen]
        ring
      rw [ofBytes_cons, hlen', List.drop_length_add_append, ih, List.drop_succ_cons]

/-- Pieces of a byte string are pieces of its bits. -/
theorem chunks_ofBytes (n : ℕ) : chunks (8 * n) (ofBytes bytes) = (chunks n bytes).map ofBytes := by
  rw [chunks, chunks, length_ofBytes, Nat.mul_div_mul_left _ _ (Nat.succ_pos 7), List.map_map]
  refine List.map_congr_left fun i _ => ?_
  rw [Function.comp_apply, Nat.mul_assoc, drop_ofBytes, take_ofBytes]

theorem ofNat_value_bits (byte : UInt8) : UInt8.ofNat (value (bits 8 byte.toNat)) = byte := by
  rw [value_bits, Nat.mod_eq_of_lt byte.toNat_lt, UInt8.ofNat_toNat]

/-- The bytes come back, also with a few bits behind them. -/
theorem toBytes_ofBytes_append (hl : l.length < 8) : toBytes (ofBytes bytes ++ l) = bytes := by
  have hcomp : ((fun c => UInt8.ofNat (value c)) ∘ fun byte : UInt8 => bits 8 byte.toNat) = id :=
    funext ofNat_value_bits
  have hall : ∀ x ∈ bytes.map fun byte => bits 8 byte.toNat, x.length = 8 := by
    intro x hx
    obtain ⟨byte, -, rfl⟩ := List.mem_map.mp hx
    exact length_bits
  rw [toBytes, ofBytes, List.flatMap_def, chunks_flatten_append (Nat.succ_pos 7) hall hl,
    List.map_map, hcomp, List.map_id]

theorem toBytes_ofBytes : toBytes (ofBytes bytes) = bytes := by
  have h : toBytes (ofBytes bytes ++ []) = bytes := toBytes_ofBytes_append (Nat.succ_pos 7)
  rwa [List.append_nil] at h

theorem toBytes_bits_append : toBytes (bits 8 n ++ l) = UInt8.ofNat n :: toBytes l := by
  have hbyte : UInt8.ofNat (n % 2 ^ 8) = UInt8.ofNat n := UInt8.ofNat_mod_size
  rw [toBytes, chunks_append_of_length (Nat.succ_pos 7) length_bits, List.map_cons, value_bits,
    hbyte]
  rfl

theorem ofBytes_toBytes (h : 8 ∣ l.length) : ofBytes (toBytes l) = l := by
  obtain ⟨xs, rfl, hxs⟩ := exists_of_dvd h
  rw [toBytes, chunks_flatten (Nat.succ_pos 7) hxs, ofBytes, List.flatMap_map, List.flatten_eq_flatMap]
  refine List.flatMap_congr fun x hx => ?_
  have hlt : value x < 2 ^ 8 := by
    have hlt' := value_lt (l := x)
    rwa [hxs x hx] at hlt'
  rw [UInt8.toNat_ofNat', Nat.mod_eq_of_lt hlt, bits_value (hxs x hx)]
  rfl

/-! ## Hexadecimal digits -/

/-- The lowercase digit of four bits. -/
def hexDigit (n : ℕ) : UInt8 := (Nat.digitChar n).toUInt8

def hex (l : List Bool) : List UInt8 := (chunks 4 l).map fun c => hexDigit (value c)

theorem hex_ofBytes : hex (ofBytes bytes) =
    bytes.flatMap fun byte => [hexDigit (byte.toNat / 16), hexDigit (byte.toNat % 16)] := by
  induction bytes with
  | nil => rfl
  | cons byte bytes ih =>
    have hbyte := byte.toNat_lt
    have h8 : bits 8 byte.toNat = bits 4 (byte.toNat / 2 ^ 4) ++ bits 4 byte.toNat :=
      bits_add (v := 4) (w := 4)
    have hhigh : value (bits 4 (byte.toNat / 2 ^ 4)) = byte.toNat / 16 := by
      rw [value_bits]
      omega
    have hlow : value (bits 4 byte.toNat) = byte.toNat % 16 := value_bits
    rw [hex, ofBytes_cons, h8, List.append_assoc,
      chunks_append_of_length (Nat.succ_pos 3) length_bits,
      chunks_append_of_length (Nat.succ_pos 3) length_bits, List.map_cons, List.map_cons, hhigh,
      hlow, List.flatMap_cons, ← ih]
    rfl

end BitString
