import OTServBR.Lib.LittleEndian
import OTServBR.Lib.Memory

/-! # Network messages

A message is a buffer of fixed size, the place of the next byte and the number
of bytes added so far. The first eight bytes are kept free for the headers,
which an output message writes from the back to the front.
-/

namespace OTServBR

open LittleEndian

def NETWORKMESSAGE_MAXSIZE : ℕ := 24590

namespace NetworkMessage

def INITIAL_BUFFER_POSITION : ℕ := 8
def HEADER_LENGTH : ℕ := 2
def CHECKSUM_LENGTH : ℕ := 4
def XTEA_MULTIPLE : ℕ := 8

def MAX_BODY_LENGTH : ℕ :=
  NETWORKMESSAGE_MAXSIZE - HEADER_LENGTH - CHECKSUM_LENGTH - XTEA_MULTIPLE

def MAX_PROTOCOL_BODY_LENGTH : ℕ := MAX_BODY_LENGTH - 10

/-- The conversion to the type of lengths and positions. -/
def MsgSize_t (n : ℕ) : ℕ := n % 2 ^ 16

end NetworkMessage

open NetworkMessage

structure NetworkMessage where
  length : ℕ
  position : ℕ
  buffer : ℕ → UInt8

namespace NetworkMessage

/-- A new message; its buffer is not initialised. -/
def new (buffer : ℕ → UInt8) : NetworkMessage := ⟨0, INITIAL_BUFFER_POSITION, buffer⟩

variable (msg : NetworkMessage)

def canAdd (size : ℕ) : Bool := (size + msg.position) % 2 ^ 64 < MAX_BODY_LENGTH

/-- `memcpy` to the next place, which moves on. -/
def put (bytes : List UInt8) : NetworkMessage where
  length := MsgSize_t (msg.length + bytes.length)
  position := MsgSize_t (msg.position + bytes.length)
  buffer := Memory.write msg.buffer msg.position bytes

def addByte (value : UInt8) : NetworkMessage :=
  if msg.canAdd 1 then msg.put [value] else msg

/-- `add<T>` of a type of `size` bytes -/
def add (size value : ℕ) : NetworkMessage :=
  if msg.canAdd size then msg.put (bytes size value) else msg

def addString (value : List UInt8) : NetworkMessage :=
  if !msg.canAdd (value.length + 2) || value.length > 8192 then msg
  else (msg.add 2 value.length).put value

/-- `scaled` is the value times the power of ten of the precision, plus the bias. -/
def addDouble (scaled : UInt32) (precision : UInt8) : NetworkMessage :=
  (msg.addByte precision).add 4 scaled.toNat

def addBytes (bytes : List UInt8) : NetworkMessage :=
  if !msg.canAdd bytes.length || bytes.length > 8192 then msg else msg.put bytes

/-- The place of the next byte does not move. -/
def addPaddingBytes (n : UInt64) : NetworkMessage :=
  if msg.canAdd n.toNat then
    { msg with
      length := MsgSize_t (msg.length + n.toNat)
      buffer := Memory.write msg.buffer msg.position (.replicate n.toNat 0x33) }
  else msg

def addPosition (x y : UInt16) (z : UInt8) : NetworkMessage :=
  ((msg.add 2 x.toNat).add 2 y.toNat).addByte z

def addItemId (clientId : UInt16) : NetworkMessage := msg.add 2 clientId.toNat

/-- The bytes of the message, behind the place of the headers. -/
def bytes : List UInt8 := Memory.read msg.buffer INITIAL_BUFFER_POSITION msg.length

/-- The add methods with their arguments; a number has at most eight bytes. -/
inductive Add
  | addByte (value : UInt8)
  | add (size : Fin 9) (value : ℕ)
  | addString (value : List UInt8)
  | addDouble (scaled : UInt32) (precision : UInt8)
  | addBytes (bytes : List UInt8)
  | addPaddingBytes (n : UInt64)
  | addPosition (x y : UInt16) (z : UInt8)
  | addItemId (clientId : UInt16)

def apply : Add → NetworkMessage
  | .addByte value => msg.addByte value
  | .add size value => msg.add size value
  | .addString value => msg.addString value
  | .addDouble scaled precision => msg.addDouble scaled precision
  | .addBytes bytes => msg.addBytes bytes
  | .addPaddingBytes n => msg.addPaddingBytes n
  | .addPosition x y z => msg.addPosition x y z
  | .addItemId clientId => msg.addItemId clientId

def build (buffer : ℕ → UInt8) (adds : List Add) : NetworkMessage := adds.foldl apply (new buffer)

section Build

variable {msg} {bytes : List UInt8} {a : Add}

theorem canAdd_iff {size : ℕ} :
    msg.canAdd size = true ↔ (size + msg.position) % 2 ^ 64 < 24576 := by
  rw [canAdd, decide_eq_true_iff]
  rfl

/-- The add methods put bytes and pad. -/
theorem apply_closed {P : NetworkMessage → Prop} (hput : ∀ msg bytes, P msg → P (msg.put bytes))
    (hpad : ∀ msg n, P msg → P (msg.addPaddingBytes n)) (h : P msg) : P (msg.apply a) := by
  have hbyte : ∀ msg value, P msg → P (addByte msg value) := by
    intro msg value h
    rw [addByte]
    split
    · exact hput _ _ h
    · exact h
  have hadd : ∀ msg size value, P msg → P (add msg size value) := by
    intro msg size value h
    rw [add]
    split
    · exact hput _ _ h
    · exact h
  cases a with
  | addByte value => exact hbyte _ _ h
  | add size value => exact hadd _ _ _ h
  | addString value =>
    rw [apply, addString]
    split
    · exact h
    · exact hput _ _ (hadd _ _ _ h)
  | addDouble scaled precision => exact hadd _ _ _ (hbyte _ _ h)
  | addBytes bytes =>
    rw [apply, addBytes]
    split
    · exact h
    · exact hput _ _ h
  | addPaddingBytes n => exact hpad _ _ h
  | addPosition x y z => exact hbyte _ _ (hadd _ _ _ (hadd _ _ _ h))
  | addItemId clientId => exact hadd _ _ _ h

theorem length_build_lt (buffer : ℕ → UInt8) (adds : List Add) :
    (build buffer adds).length < 2 ^ 16 := by
  have happly : ∀ msg a, length msg < 2 ^ 16 → (msg.apply a).length < 2 ^ 16 := by
    intro msg a h
    have hpad : ∀ msg n, length msg < 2 ^ 16 → (addPaddingBytes msg n).length < 2 ^ 16 := by
      intro msg n h
      rw [addPaddingBytes]
      split
      · exact Nat.mod_lt _ (Nat.two_pow_pos 16)
      · exact h
    exact apply_closed (fun _ _ _ => Nat.mod_lt _ (Nat.two_pow_pos 16)) hpad h
  have hfold : ∀ msg, length msg < 2 ^ 16 → (adds.foldl apply msg).length < 2 ^ 16 := by
    induction adds with
    | nil => exact fun _ h => h
    | cons a adds ih => exact fun msg h => ih _ (happly msg a h)
  exact hfold _ (Nat.two_pow_pos 16)

/-- The next byte comes after the last one, as long as nothing was padded. -/
structure Unpadded (msg : NetworkMessage) : Prop where
  position : msg.position = 8 + msg.length
  length : msg.length ≤ 24567

theorem unpadded_new {buffer : ℕ → UInt8} : Unpadded (new buffer) := ⟨rfl, Nat.zero_le _⟩

theorem Unpadded.put (h : Unpadded msg) (hsize : bytes.length + msg.position < 24576) :
    Unpadded (msg.put bytes) ∧ (msg.put bytes).position = msg.position + bytes.length := by
  have hp := h.position
  have hl : (msg.put bytes).length = msg.length + bytes.length := by
    change MsgSize_t _ = _
    rw [MsgSize_t]
    omega
  have hq : (msg.put bytes).position = msg.position + bytes.length := by
    change MsgSize_t _ = _
    rw [MsgSize_t]
    omega
  exact ⟨⟨by omega, by omega⟩, hq⟩

theorem Unpadded.add (h : Unpadded msg) {size value : ℕ} (hsize : size ≤ 8) :
    Unpadded (msg.add size value) := by
  have hp := h.position
  have hl := h.length
  rw [NetworkMessage.add]
  split
  · next hadd =>
    rw [canAdd_iff] at hadd
    exact (h.put (by rw [length_bytes]; omega)).1
  · exact h

theorem Unpadded.addByte (h : Unpadded msg) {value : UInt8} : Unpadded (msg.addByte value) := by
  have hp := h.position
  have hl := h.length
  rw [NetworkMessage.addByte]
  split
  · next hadd =>
    rw [canAdd_iff] at hadd
    exact (h.put (by rw [List.length_singleton]; omega)).1
  · exact h

theorem Unpadded.addString (h : Unpadded msg) {value : List UInt8} :
    Unpadded (msg.addString value) := by
  have hp := h.position
  have hl := h.length
  rw [NetworkMessage.addString]
  split
  · exact h
  · next hadd =>
    simp only [Bool.or_eq_true, Bool.not_eq_true', decide_eq_true_eq, not_or, Bool.not_eq_false,
      canAdd_iff] at hadd
    -- there is room for the length, so that it is added
    have htwo : msg.canAdd 2 := by
      rw [canAdd_iff]
      omega
    have hroom : (LittleEndian.bytes 2 value.length).length + msg.position < 24576 := by
      rw [length_bytes]
      omega
    obtain ⟨hnext, hposition⟩ := h.put hroom
    rw [length_bytes] at hposition
    rw [NetworkMessage.add, if_pos htwo]
    exact (hnext.put (by omega)).1

theorem Unpadded.addBytes (h : Unpadded msg) (hsize : bytes.length ≤ 8192)
    (hroom : bytes.length + msg.position < 24576) :
    Unpadded (msg.addBytes bytes) ∧
      (msg.addBytes bytes).position = msg.position + bytes.length := by
  have hadd : msg.canAdd bytes.length := by
    rw [canAdd_iff]
    omega
  rw [NetworkMessage.addBytes, if_neg (by simp [hadd, hsize])]
  exact h.put hroom

theorem Unpadded.apply (h : Unpadded msg) (ha : ∀ n, a ≠ .addPaddingBytes n) :
    Unpadded (msg.apply a) := by
  have hp := h.position
  have hl := h.length
  cases a with
  | addByte value => exact h.addByte
  | add size value => exact h.add (by omega)
  | addString value => exact h.addString
  | addDouble scaled precision => exact h.addByte.add (by decide)
  | addBytes bytes =>
    rw [NetworkMessage.apply, NetworkMessage.addBytes]
    split
    · exact h
    · next hadd =>
      simp only [Bool.or_eq_true, Bool.not_eq_true', decide_eq_true_eq, not_or, Bool.not_eq_false,
        canAdd_iff] at hadd
      exact (h.put (by omega)).1
  | addPaddingBytes n => exact absurd rfl (ha n)
  | addPosition x y z => exact ((h.add (by decide)).add (by decide)).addByte
  | addItemId clientId => exact h.add (by decide)

theorem unpadded_build {buffer : ℕ → UInt8} {adds : List Add}
    (hadds : ∀ a ∈ adds, ∀ n, a ≠ .addPaddingBytes n) : Unpadded (build buffer adds) := by
  have hfold : ∀ msg, Unpadded msg → Unpadded (adds.foldl NetworkMessage.apply msg) := by
    induction adds with
    | nil => exact fun _ h => h
    | cons a adds ih =>
      obtain ⟨ha, hadds⟩ := List.forall_mem_cons.mp hadds
      exact fun msg h => ih hadds _ (h.apply ha)
  exact hfold _ unpadded_new

end Build

end NetworkMessage

/-- The loop of `adlerChecksum` over groups of 5552 bytes. -/
def adlerGroups (data : List UInt8) (a b : UInt32) : UInt32 × UInt32 :=
  if 0 < data.length then
    let s := (data.take 5552).foldl (fun (s : UInt32 × UInt32) byte =>
      (s.1 + byte.toUInt32, s.2 + (s.1 + byte.toUInt32))) (a, b)
    adlerGroups (data.drop 5552) (s.1 % 65521) (s.2 % 65521)
  else (a, b)
termination_by data.length
decreasing_by simp only [List.length_drop]; omega

def adlerChecksum (data : List UInt8) : UInt32 :=
  if data.length > NETWORKMESSAGE_MAXSIZE then 0
  else
    let s := adlerGroups data 1 0
    s.2 <<< 16 ||| s.1

structure OutputMessage extends NetworkMessage where
  outputBufferStart : ℕ

namespace OutputMessage

/-- `OutputMessagePool::getOutputMessage`, with the memory it gets. -/
def getOutputMessage (buffer : ℕ → UInt8) : OutputMessage :=
  { NetworkMessage.new buffer with outputBufferStart := INITIAL_BUFFER_POSITION }

variable (out : OutputMessage)

/-- The bytes from `getOutputBuffer` on. -/
def packet : List UInt8 := Memory.read out.buffer out.outputBufferStart out.length

/-- `add_header<T>` of a type of `size` bytes -/
def add_header (size value : ℕ) : OutputMessage :=
  let start := MsgSize_t (out.outputBufferStart + 2 ^ 16 - size)
  { out with
    outputBufferStart := start
    buffer := Memory.write out.buffer start (bytes size value)
    length := MsgSize_t (out.length + size) }

def writeMessageLength : OutputMessage := out.add_header 2 out.length

/-- The message with its headers, and the next sequence number. -/
def addCryptoHeader (addChecksum : UInt8) (sequence : UInt32) : OutputMessage × UInt32 :=
  if addChecksum = 1 then
    ((out.add_header 4 (adlerChecksum out.packet).toNat).writeMessageLength, sequence)
  else if addChecksum = 2 then
    ((out.add_header 4 sequence.toNat).writeMessageLength, sequence + 1)
  else (out.writeMessageLength, sequence)

def append (msg : NetworkMessage) : OutputMessage :=
  { out with
    buffer := Memory.write out.buffer out.position msg.bytes
    length := MsgSize_t (out.length + msg.length)
    position := MsgSize_t (out.position + msg.length) }

end OutputMessage

end OTServBR
