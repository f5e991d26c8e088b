import OTServBR.Lib.BitString

/-! # One-time passwords from a counter

A keyed hash of a counter, cut down to a number of a few decimal digits. The
hash function is a parameter.
-/

namespace Hotp

open BitString

section Hmac

variable (hash : List UInt8 → List UInt8)

/-- The key with zeros behind it, as long as a block; a longer key is hashed first. -/
def blockKey (n : ℕ) (key : List UInt8) : List UInt8 :=
  let key := if n < key.length then hash key else key
  key ++ List.replicate (n - key.length) 0

/-- The keyed hash for a hash function with blocks of `n` bytes. -/
def hmac (n : ℕ) (key text : List UInt8) : List UInt8 :=
  let k₀ := blockKey hash n key
  hash (k₀.map (· ^^^ 0x5C) ++ hash (k₀.map (· ^^^ 0x36) ++ text))

/-- 31 bits of the hash value, from where its last four bits say. -/
def truncate (value : List UInt8) : ℕ :=
  let offset := (value.getD 19 0).toNat % 16
  BitString.value (ofBytes ((value.drop offset).take 4)) % 2 ^ 31

def hotp (digits : ℕ) (key : List UInt8) (counter : ℕ) : ℕ :=
  truncate (hmac hash 64 key (toBytes (bits 64 counter))) % 10 ^ digits

end Hmac

/-! ## Decimal digits -/

/-- The last digits of a number, with zeros in front. -/
def decimal : ℕ → ℕ → List UInt8
  | 0, _ => []
  | digits + 1, n => decimal digits (n / 10) ++ [(Nat.digitChar (n % 10)).toUInt8]

/-- Cut or fill up a text at its front. -/
def fit (digits : ℕ) (text : List UInt8) : List UInt8 :=
  List.replicate (digits - min text.length digits) '0'.toUInt8 ++
    text.drop (text.length - min text.length digits)

variable {digits n : ℕ} {text : List UInt8} {c : UInt8}

theorem fit_concat : fit (digits + 1) (text ++ [c]) = fit digits text ++ [c] := by
  have hmin : min (text.length + 1) (digits + 1) = min text.length digits + 1 := by omega
  have hle : text.length - min text.length digits ≤ text.length := Nat.sub_le _ _
  rw [fit, fit, List.length_append, List.length_singleton, hmin, Nat.add_sub_add_right,
    Nat.add_sub_add_right, List.drop_append_of_le_length hle, List.append_assoc]

theorem fit_zero : fit 0 text = [] := by
  rw [fit, Nat.min_zero, Nat.sub_zero, Nat.sub_zero, List.drop_length]
  rfl

theorem decimal_zero : decimal digits 0 = List.replicate digits '0'.toUInt8 := by
  induction digits with
  | zero => rfl
  | succ digits ih =>
    rw [decimal, Nat.zero_div, ih, List.replicate_succ']
    rfl

/-- The digits of a number without leading zeros, brought to a length. -/
theorem fit_toDigits : fit digits ((Nat.toDigits 10 n).map Char.toUInt8) = decimal digits n := by
  induction digits generalizing n with
  | zero => rw [fit_zero, decimal]
  | succ digits ih =>
    rw [Nat.toDigits_eq_if (by decide), decimal]
    split
    · next hlt =>
      have hnil : fit digits [] = List.replicate digits '0'.toUInt8 := by
        rw [fit, List.length_nil, Nat.zero_min, Nat.sub_zero]
        exact List.append_nil _
      rw [Nat.div_eq_of_lt hlt, Nat.mod_eq_of_lt hlt, decimal_zero, ← hnil, ← fit_concat]
      rfl
    · rw [List.map_append, List.map_singleton, fit_concat, ih]

theorem decimal_mod : decimal digits (n % 10 ^ digits) = decimal digits n := by
  induction digits generalizing n with
  | zero => rfl
  | succ digits ih =>
    have hdiv : n % 10 ^ (digits + 1) / 10 = n / 10 % 10 ^ digits := by
      rw [Nat.pow_succ, Nat.mul_comm, Nat.mod_mul_right_div_self]
    have hmod : n % 10 ^ (digits + 1) % 10 = n % 10 :=
      Nat.mod_mod_of_dvd _ (dvd_pow_self 10 (Nat.succ_ne_zero digits))
    rw [decimal, hdiv, hmod, ih, decimal]

end Hotp
