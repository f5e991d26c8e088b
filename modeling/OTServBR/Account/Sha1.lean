import OTServBR.Lib.Sha1

/-! # The hash of a password

`transformToSHA1` reads its input byte by byte into a block of 64 bytes and
hashes the block when it is full. The padding is written into the block by
hand, with a bit counter of two words at its end, and the digest is written
backwards as hexadecimal digits.
-/

namespace OTServBR.SHA1

open BitString

def circularShift (bits : UInt32) (value : UInt32) : UInt32 :=
  value <<< bits ||| value >>> (32 - bits)

/-- The array `H`, and the variables `A` to `E`. -/
structure Registers where
  A : UInt32
  B : UInt32
  C : UInt32
  D : UInt32
  E : UInt32

def Registers.toList (H : Registers) : List UInt32 := [H.A, H.B, H.C, H.D, H.E]

/-- `messageBlock[offset] << 24 | messageBlock[offset + 1] << 16 | ...` -/
def loadWord (messageBlock : List UInt8) (offset : ℕ) : UInt32 :=
  (messageBlock.getD offset 0).toUInt32 <<< 24 |||
    (messageBlock.getD (offset + 1) 0).toUInt32 <<< 16 |||
    (messageBlock.getD (offset + 2) 0).toUInt32 <<< 8 |||
    (messageBlock.getD (offset + 3) 0).toUInt32

/-- The array `W`, which both loops write from the front to the end. -/
def messageSchedule (messageBlock : List UInt8) : List UInt32 :=
  (List.range' 16 64).foldl
    (fun W i => W ++ [circularShift 1
      (W.getD (i - 3) 0 ^^^ W.getD (i - 8) 0 ^^^ W.getD (i - 14) 0 ^^^ W.getD (i - 16) 0)])
    ((List.range 16).map fun i => loadWord messageBlock (i <<< 2))

/-- `E = D; D = C; C = circularShift(30, B); B = A; A = tmp;` -/
def Registers.rotate (H : Registers) (tmp : UInt32) : Registers :=
  { A := tmp, B := H.A, C := circularShift 30 H.B, D := H.C, E := H.D }

/-- The four loops over the words. -/
def rounds (W : List UInt32) (H : Registers) : Registers :=
  let H := (List.range' 0 20).foldl (fun H i => H.rotate
    (circularShift 5 H.A + (H.B &&& H.C ||| ~~~H.B &&& H.D) + H.E + W.getD i 0 + 0x5A827999)) H
  let H := (List.range' 20 20).foldl (fun H i => H.rotate
    (circularShift 5 H.A + (H.B ^^^ H.C ^^^ H.D) + H.E + W.getD i 0 + 0x6ED9EBA1)) H
  let H := (List.range' 40 20).foldl (fun H i => H.rotate
    (circularShift 5 H.A + (H.B &&& H.C ||| H.B &&& H.D ||| H.C &&& H.D) + H.E + W.getD i 0 +
      0x8F1BBCDC)) H
  (List.range' 60 20).foldl (fun H i => H.rotate
    (circularShift 5 H.A + (H.B ^^^ H.C ^^^ H.D) + H.E + W.getD i 0 + 0xCA62C1D6)) H

def processSHA1MessageBlock (messageBlock : List UInt8) (H : Registers) : Registers :=
  let R := rounds (messageSchedule messageBlock) H
  { A := H.A + R.A, B := H.B + R.B, C := H.C + R.C, D := H.D + R.D, E := H.E + R.E }

/-- The variables of the loop over the input. The block is not initialised; no byte of it is
read before it is written. -/
structure Stream where
  messageBlock : List UInt8 := List.replicate 64 0
  index : ℕ := 0
  length_low : UInt32 := 0
  length_high : UInt32 := 0
  H : Registers := ⟨0x67452301, 0xEFCDAB89, 0x98BADCFE, 0x10325476, 0xC3D2E1F0⟩

def Stream.push (s : Stream) (ch : UInt8) : Stream :=
  let messageBlock := s.messageBlock.set s.index ch
  let index := s.index + 1
  let length_low := s.length_low + 8
  let length_high := if length_low = 0 then s.length_high + 1 else s.length_high
  if index = 64 then
    { messageBlock := messageBlock, index := 0, length_low := length_low,
      length_high := length_high, H := processSHA1MessageBlock messageBlock s.H }
  else
    { messageBlock := messageBlock, index := index, length_low := length_low,
      length_high := length_high, H := s.H }

/-- `while (index < stop) messageBlock[index++] = 0;` -/
def fill (messageBlock : List UInt8) (index stop : ℕ) : List UInt8 :=
  (List.range' index (stop - index)).foldl (fun messageBlock i => messageBlock.set i 0) messageBlock

/-- Four bytes of the bit counter. -/
def storeWord (messageBlock : List UInt8) (offset : ℕ) (word : UInt32) : List UInt8 :=
  (((messageBlock.set offset (word >>> 24).toUInt8).set (offset + 1) (word >>> 16).toUInt8).set
    (offset + 2) (word >>> 8).toUInt8).set (offset + 3) word.toUInt8

/-- What happens after the loop over the input. -/
def Stream.finish (s : Stream) : Registers :=
  let messageBlock := s.messageBlock.set s.index 0x80
  let index := s.index + 1
  let (messageBlock, index, H) :=
    if 56 < index then
      let messageBlock := fill messageBlock index 64
      (messageBlock, 0, processSHA1MessageBlock messageBlock s.H)
    else (messageBlock, index, s.H)
  let messageBlock := fill messageBlock index 56
  let messageBlock := storeWord messageBlock 56 s.length_high
  let messageBlock := storeWord messageBlock 60 s.length_low
  processSHA1MessageBlock messageBlock H

def hexDigits : List UInt8 := "0123456789abcdef".toList.map Char.toUInt8

/-- `H[hashByte >> 2] >> (((3 - hashByte) & 3) << 3)` -/
def hashByte (H : Registers) (i : ℕ) : UInt8 :=
  (H.toList.getD (i >>> 2) 0 >>> ((3 - UInt32.ofNat i &&& 3) <<< 3)).toUInt8

def hexstring (H : Registers) : List UInt8 :=
  ((List.range 20).reverse.foldl
    (fun hexstring i =>
      let byte := hashByte H i
      let index := i <<< 1
      (hexstring.set index (hexDigits.getD (byte >>> 4).toNat 0)).set (index + 1)
        (hexDigits.getD (byte &&& 15).toNat 0))
    (List.replicate 41 0)).take 40

def transformToSHA1 (input : List UInt8) : List UInt8 :=
  hexstring (input.foldl Stream.push {}).finish

end OTServBR.SHA1
