import Mathlib.Data.Nat.Basic
import Mathlib.Tactic.Ring

/-! # Little-endian byte streams

A number written in a fixed count of bytes, least significant byte first, and
the reader that takes it back off the front of a stream. Reading what was
written returns the number reduced to its width and leaves the rest untouched.
-/

namespace LittleEndian

/-- The `n` low bytes of a number, least significant first. -/
def bytes : ℕ → ℕ → List UInt8
  | 0, _ => []
  | n + 1, v => UInt8.ofNat v :: bytes n (v / 256)

/-- The number that a list of bytes spells. -/
def value : List UInt8 → ℕ
  | [] => 0
  | b :: bs => b.toNat + 256 * value bs

/-- Take a number of `n` bytes off the front of a stream, if the stream is long enough. -/
def read (n : ℕ) (s : List UInt8) : Option (ℕ × List UInt8) :=
  if n ≤ s.length then some (value (s.take n), s.drop n) else none

@[simp] theorem length_bytes (n v : ℕ) : (bytes n v).length = n := by
  induction n generalizing v with
  | zero => rfl
  | succ n ih => simp [bytes, ih]

theorem value_bytes (n v : ℕ) : value (bytes n v) = v % 256 ^ n := by
  induction n generalizing v with
  | zero => simp [bytes, value, Nat.mod_one]
  | succ n ih =>
    have hb : (UInt8.ofNat v).toNat = v % 256 := by simp
    rw [bytes, value, ih, hb, pow_succ, Nat.mul_comm (256 ^ n) 256, Nat.mod_mul]

@[simp] theorem read_bytes_append (n v : ℕ) (rest : List UInt8) :
    read n (bytes n v ++ rest) = some (v % 256 ^ n, rest) := by
  have hl : n ≤ (bytes n v ++ rest).length := by simp
  have ht : (bytes n v ++ rest).take n = bytes n v := List.take_left' (length_bytes n v)
  have hd : (bytes n v ++ rest).drop n = rest := List.drop_left' (length_bytes n v)
  rw [read, if_pos hl, ht, hd, value_bytes]

/-- A successful read consumes exactly its width. -/
theorem length_of_read {n v : ℕ} {s rest : List UInt8} (h : read n s = some (v, rest)) :
    rest.length + n = s.length := by
  unfold read at h
  split at h
  · next hn =>
    obtain ⟨-, rfl⟩ := Prod.mk.inj (Option.some.inj h)
    simp only [List.length_drop]
    omega
  · simp at h

theorem read_zero_cons (b : UInt8) (s : List UInt8) : read 1 (b :: s) = some (b.toNat, s) := by
  simp [read, value]

end LittleEndian
