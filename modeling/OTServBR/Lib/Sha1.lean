import OTServBR.Lib.BitString

/-! # SHA-1

The hash function of the Secure Hash Standard on bit strings. A message is
padded to blocks of 512 bits, and each block goes through 80 steps that mix a
schedule of words into five working variables.
-/

namespace Sha1

open BitString

/-- Rotation to the left. -/
def rotl (n : UInt32) (x : UInt32) : UInt32 := x <<< n ||| x >>> (32 - n)

def ch (x y z : UInt32) : UInt32 := (x &&& y) ^^^ (~~~x &&& z)

def parity (x y z : UInt32) : UInt32 := x ^^^ y ^^^ z

def maj (x y z : UInt32) : UInt32 := (x &&& y) ^^^ (x &&& z) ^^^ (y &&& z)

/-- The function of a step. -/
def f (t : ℕ) : UInt32 → UInt32 → UInt32 → UInt32 :=
  if t < 20 then ch else if t < 40 then parity else if t < 60 then maj else parity

/-- The constant of a step. -/
def k (t : ℕ) : UInt32 :=
  if t < 20 then 0x5A827999 else if t < 40 then 0x6ED9EBA1
  else if t < 60 then 0x8F1BBCDC else 0xCA62C1D6

/-- The working variables, or a hash value. -/
@[ext] structure Hash where
  a : UInt32
  b : UInt32
  c : UInt32
  d : UInt32
  e : UInt32

def Hash.toBits (h : Hash) : List Bool :=
  bits 32 h.a.toNat ++ bits 32 h.b.toNat ++ bits 32 h.c.toNat ++ bits 32 h.d.toNat ++
    bits 32 h.e.toNat

def initial : Hash := ⟨0x67452301, 0xEFCDAB89, 0x98BADCFE, 0x10325476, 0xC3D2E1F0⟩

/-- The zero bits of the padding: the least number that leaves 64 bits to a full block. -/
def zeros (ℓ : ℕ) : ℕ := (447 + 512 - ℓ % 512) % 512

def pad (m : List Bool) : List Bool :=
  m ++ true :: List.replicate (zeros m.length) false ++ bits 64 m.length

def words (block : List Bool) : List UInt32 :=
  (chunks 32 block).map fun c => UInt32.ofNat (value c)

/-- The words that are mixed in, one for each step. -/
def schedule (m : List UInt32) (t : ℕ) : UInt32 :=
  if _h : t < 16 then m.getD t 0
  else
    rotl 1 (schedule m (t - 3) ^^^ schedule m (t - 8) ^^^ schedule m (t - 14) ^^^
      schedule m (t - 16))

theorem schedule_of_lt {m : List UInt32} {t : ℕ} (h : t < 16) : schedule m t = m.getD t 0 := by
  rw [schedule, dif_pos h]

theorem schedule_of_le {m : List UInt32} {t : ℕ} (h : 16 ≤ t) : schedule m t =
    rotl 1 (schedule m (t - 3) ^^^ schedule m (t - 8) ^^^ schedule m (t - 14) ^^^
      schedule m (t - 16)) := by
  rw [schedule, dif_neg (Nat.not_lt.mpr h)]

def step (w : ℕ → UInt32) (v : Hash) (t : ℕ) : Hash where
  a := rotl 5 v.a + f t v.b v.c v.d + v.e + k t + w t
  b := v.a
  c := rotl 30 v.b
  d := v.c
  e := v.d

def compress (h : Hash) (block : List Bool) : Hash :=
  let v := (List.range 80).foldl (step (schedule (words block))) h
  ⟨v.a + h.a, v.b + h.b, v.c + h.c, v.d + h.d, v.e + h.e⟩

def digest (m : List Bool) : List Bool := ((chunks 512 (pad m)).foldl compress initial).toBits

/-! ## Padding -/

theorem zeros_lt (ℓ : ℕ) : zeros ℓ < 512 := Nat.mod_lt _ (Nat.succ_pos 511)

theorem add_zeros_mod (ℓ : ℕ) : (ℓ + 1 + zeros ℓ) % 512 = 448 := by
  unfold zeros
  omega

/-- A byte string is padded by bytes. -/
theorem pad_ofBytes (m : List UInt8) {z : ℕ} (hz : zeros (8 * m.length) = 8 * z + 7) :
    pad (ofBytes m) =
      ofBytes (m ++ 0x80 :: List.replicate z 0) ++ bits 64 (8 * m.length) := by
  have hone : bits 8 (0x80 : UInt8).toNat = true :: List.replicate 7 false := by decide
  rw [pad, length_ofBytes, hz, ofBytes_append, ofBytes_cons, hone, ofBytes_zeros, Nat.add_comm (8 * z) 7,
    ← List.replicate_append_replicate, List.cons_append]

end Sha1
