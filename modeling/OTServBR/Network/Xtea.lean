import Mathlib.Data.UInt
import OTServBR.Lib.Bounded
import OTServBR.Lib.Feistel

/-! # XTEA

Data are enciphered in blocks of eight bytes, many of them at a time where the
processor allows it. What is left over after the large groups goes through
groups of half the size, down to single blocks, and the bytes behind the last
block stay as they are. A loop over groups counts the bytes in 32 bits while
their number has 64.
-/

namespace OTServBR.xtea

abbrev Key := Fin 4 → UInt32

/-- The halves `left[i]` and `right[i]`. -/
abbrev Block := UInt32 × UInt32

def delta : UInt32 := 0x9E3779B9

/-- `data[j] | data[j+1] << 8u | data[j+2] << 16u | data[j+3] << 24u` -/
def loadWord (b0 b1 b2 b3 : UInt8) : UInt32 :=
  b0.toUInt32 ||| b1.toUInt32 <<< 8 ||| b2.toUInt32 <<< 16 ||| b3.toUInt32 <<< 24

def storeWord (w : UInt32) : List UInt8 :=
  [w.toUInt8, (w >>> 8).toUInt8, (w >>> 16).toUInt8, (w >>> 24).toUInt8]

/-- The first loop of a cipher; bytes that make no block are not loaded. -/
def load : List UInt8 → List Block
  | b0 :: b1 :: b2 :: b3 :: b4 :: b5 :: b6 :: b7 :: data =>
    (loadWord b0 b1 b2 b3, loadWord b4 b5 b6 b7) :: load data
  | _ => []

def store (blocks : List Block) : List UInt8 :=
  blocks.flatMap fun b => storeWord b.1 ++ storeWord b.2

section Cipher

variable (k : Key)

/-- What is added to a half, or taken from it. -/
def mix (half : UInt32) (round : UInt32) : UInt32 := (half <<< 4 ^^^ half >>> 5) + half ^^^ round

def leftKey (sum : UInt32) : UInt32 := sum + k (.ofNat 4 (sum &&& 3).toNat)
def rightKey (sum : UInt32) : UInt32 := sum + k (.ofNat 4 (sum >>> 11 &&& 3).toNat)

/-- The rounds of all blocks side by side, one loop over the blocks for each half. -/
def encryptRounds : ℕ → UInt32 → List Block → List Block
  | 0, _, blocks => blocks
  | n + 1, sum, blocks =>
    let blocks := blocks.map fun b => (b.1 + mix b.2 (leftKey k sum), b.2)
    let sum := sum + delta
    let blocks := blocks.map fun b => (b.1, b.2 + mix b.1 (rightKey k sum))
    encryptRounds n sum blocks

def decryptRounds : ℕ → UInt32 → List Block → List Block
  | 0, _, blocks => blocks
  | n + 1, sum, blocks =>
    let blocks := blocks.map fun b => (b.1, b.2 - mix b.1 (rightKey k sum))
    let sum := sum - delta
    let blocks := blocks.map fun b => (b.1 - mix b.2 (leftKey k sum), b.2)
    decryptRounds n sum blocks

def XTEA_encrypt (data : List UInt8) : List UInt8 := store (encryptRounds k 32 0 (load data))

def XTEA_decrypt (data : List UInt8) : List UInt8 :=
  store (decryptRounds k 32 (delta <<< 5) (load data))

end Cipher

/-- The loop over the groups of `step` bytes; `none` when the fuel is used up. -/
def groups (cipher : List UInt8 → List UInt8) (step : ℕ) (blocks : UInt64) :
    ℕ → UInt32 → List UInt8 → Option (List UInt8)
  | 0, _, _ => none
  | fuel + 1, i, data =>
    if i.toUInt64 < blocks then
      groups cipher step blocks fuel (i.toUInt64 + .ofNat step).toUInt32
        (data.take i.toNat ++ cipher ((data.drop i.toNat).take step) ++
          data.drop (i.toNat + step))
    else some data

/-- `XTEA<Encrypt, BlockSize>::operator()` -/
def XTEA (cipher : List UInt8 → List UInt8) (fuel BlockSize : ℕ) (data : List UInt8)
    (length : UInt64) : Option (List UInt8) :=
  let step := BlockSize * 8
  let blocks := length &&& ~~~ (.ofNat step - 1)
  (groups cipher step blocks fuel 0 data).bind fun data =>
    if _h : 2 ≤ BlockSize then
      (XTEA cipher fuel ((BlockSize + 1) / 2) (data.drop blocks.toNat) (length - blocks)).map
        fun rest => data.take blocks.toNat ++ rest
    else some data
termination_by BlockSize
decreasing_by omega

/-- The instructions that the code is compiled for. -/
inductive Target
  | avx512
  | avx
  | simd
  | x86_64
  | other
  deriving DecidableEq, Repr

def InitialBlockSize : Target → ℕ
  | .avx512 => 128
  | .avx => 32
  | .simd => 8
  | .x86_64 => 2
  | .other => 1

variable (target : Target) (fuel : ℕ) (data : List UInt8) (length : UInt64) (k : Key)

def encrypt : Option (List UInt8) :=
  XTEA (XTEA_encrypt k) fuel (InitialBlockSize target) data length

def decrypt : Option (List UInt8) :=
  XTEA (XTEA_decrypt k) fuel (InitialBlockSize target) data length

end OTServBR.xtea
