import OTServBR.Network.Protocol
import OTServBR.Network.XteaCodec

/-! # The packets of a protocol

Every message that is sent has the bytes of the messages written since the last
one. Its packet can be taken apart again unless the padding does not fit, which
happens for one length alone that a message can get from its bytes.
-/

namespace OTServBR

open LittleEndian NetworkMessage

namespace OutputMessage

variable {out : OutputMessage} {msg : NetworkMessage} {size value : ℕ}

@[simp] theorem length_packet : out.packet.length = out.length := Memory.length_read

@[simp] theorem position_add_header : (out.add_header size value).position = out.position := rfl

theorem start_add_header (hsize : size ≤ out.outputBufferStart)
    (hstart : out.outputBufferStart < 2 ^ 16) :
    (out.add_header size value).outputBufferStart = out.outputBufferStart - size := by
  change MsgSize_t (out.outputBufferStart + 2 ^ 16 - size) = _
  rw [MsgSize_t]
  omega

theorem length_add_header (hlength : out.length + size < 2 ^ 16) :
    (out.add_header size value).length = out.length + size := by
  change MsgSize_t (out.length + size) = _
  rw [MsgSize_t, Nat.mod_eq_of_lt hlength]

theorem packet_add_header (hsize : size ≤ out.outputBufferStart)
    (hstart : out.outputBufferStart < 2 ^ 16) (hlength : out.length + size < 2 ^ 16) :
    (out.add_header size value).packet = bytes size value ++ out.packet := by
  have hs : (out.add_header size value).outputBufferStart = _ := start_add_header hsize hstart
  have hq : out.outputBufferStart = (out.add_header size value).outputBufferStart +
      (bytes size value).length := by
    rw [hs, length_bytes]
    omega
  have hn : (out.add_header size value).length = (bytes size value).length + out.length := by
    rw [length_add_header hlength, length_bytes, Nat.add_comm]
  rw [packet, hn]
  exact Memory.read_write_prepend hq

theorem packet_addPaddingBytes {n : ℕ} (hn : n < 2 ^ 16) (hadd : out.canAdd n)
    (hposition : out.position = out.outputBufferStart + out.length)
    (hlength : out.length + n < 2 ^ 16) :
    packet { out with toNetworkMessage := out.addPaddingBytes (.ofNat n) } =
      out.packet ++ .replicate n 0x33 := by
  have hn' : (UInt64.ofNat n).toNat = n :=
    UInt64.toNat_ofNat_of_lt' (by simp only [UInt64.size]; omega)
  rw [addPaddingBytes, hn', if_pos hadd, packet, MsgSize_t, Nat.mod_eq_of_lt hlength]
  have h := Memory.read_write_append (m := out.buffer) (l := List.replicate n 0x33) hposition
  rwa [List.length_replicate] at h

theorem packet_writeMessageLength (hsize : 2 ≤ out.outputBufferStart)
    (hstart : out.outputBufferStart < 2 ^ 16) (hlength : out.length + 2 < 2 ^ 16) :
    out.writeMessageLength.packet = bytes 2 out.packet.length ++ out.packet := by
  rw [writeMessageLength, packet_add_header hsize hstart hlength, length_packet]

end OutputMessage

namespace Protocol

open OutputMessage

/-- The size of the checksum or the sequence number. -/
def cryptoHeaderSize (p : Protocol) : ℕ := if p.compactCrypt || p.checksumEnabled then 4 else 0

section Frame

variable (target : xtea.Target) (p : Protocol)

/-- Outer length, crypto header and encrypted part; this has inner length, message and padding. -/
def EncryptedFrame (packet body : List UInt8) : Prop :=
  ∃ header encrypted padding : List UInt8,
    packet = bytes 2 (header ++ encrypted).length ++ (header ++ encrypted) ∧
    (header ++ encrypted).length < 2 ^ 16 ∧ header.length = p.cryptoHeaderSize ∧
    8 ∣ encrypted.length ∧ body.length < 2 ^ 16 ∧ padding.length < 8 ∧
    ∀ fuel > encrypted.length,
      xtea.decrypt target fuel encrypted (.ofNat encrypted.length) p.key =
        some (bytes 2 body.length ++ (body ++ padding))

/-- The packet is inside the buffer and has its parts in the order of the protocol. -/
def Framed (out : OutputMessage) (body : List UInt8) : Prop :=
  out.outputBufferStart + out.length ≤ NETWORKMESSAGE_MAXSIZE ∧
    if p.rawMessages then out.packet = body
    else if p.encryptionEnabled then EncryptedFrame target p out.packet body
    else body.length < 2 ^ 16 ∧ out.packet = bytes 2 body.length ++ body

/-- A message to be sent has its bytes behind the place of the headers. -/
structure Unsent (msg : OutputMessage) : Prop where
  start : msg.outputBufferStart = 8
  length : msg.length < 2 ^ 16
  position : msg.position = (8 + msg.length) % 2 ^ 16

/-- The message is inside the buffer, and so is the padding that it needs. -/
def Fits (length : ℕ) : Prop :=
  length ≤ 24582 ∧ (p.rawMessages = false → p.encryptionEnabled = true →
    length ≤ 24566 ∨ length % 8 = 6)

end Frame

section OnSend

variable {target : xtea.Target} {p : Protocol} {msg out : OutputMessage}

/-- The number of bytes that make a multiple of eight. -/
def paddingSize (length : ℕ) : ℕ := (8 - length % 8) % 8

theorem start_padded : (padded msg).outputBufferStart = msg.outputBufferStart := by
  rw [padded]
  split <;> rfl

theorem length_padded_lt (hlength : msg.length < 2 ^ 16) : (padded msg).length < 2 ^ 16 := by
  rw [padded]
  split
  · change (msg.addPaddingBytes _).length < _
    rw [addPaddingBytes]
    split
    · exact Nat.mod_lt _ (by decide)
    · exact hlength
  · exact hlength

/-- The padding is written if there is room for it. -/
theorem packet_padded (hposition : msg.position = msg.outputBufferStart + msg.length)
    (hadd : msg.length % 8 ≠ 0 → msg.canAdd (paddingSize msg.length))
    (hlength : msg.length < 2 ^ 15) :
    (padded msg).packet = msg.packet ++ .replicate (paddingSize msg.length) 0x33 := by
  rw [padded]
  by_cases h : msg.length % 8 = 0
  · have hsize : paddingSize msg.length = 0 := by rw [paddingSize, h]
    rw [if_neg (not_not_intro h), hsize, List.replicate_zero, List.append_nil]
  · have hsize : paddingSize msg.length = 8 - msg.length % 8 := by
      rw [paddingSize]
      omega
    rw [if_pos h, ← hsize]
    exact packet_addPaddingBytes (by omega) (hadd h) hposition (by omega)

/-- Without room for the padding nothing is written. -/
theorem padded_of_not_canAdd (hadd : ¬ msg.canAdd (paddingSize msg.length)) : padded msg = msg := by
  rw [padded]
  by_cases h : msg.length % 8 = 0
  · rw [if_neg (not_not_intro h)]
  · have hsize : (UInt64.ofNat (8 - msg.length % 8)).toNat = paddingSize msg.length := by
      rw [UInt64.toNat_ofNat_of_lt' (by simp only [UInt64.size]; omega), paddingSize]
      omega
    rw [if_pos h, addPaddingBytes, hsize, if_neg hadd]

theorem start_XTEA_encrypt :
    (XTEA_encrypt target p msg).outputBufferStart = msg.outputBufferStart := by
  rw [XTEA_encrypt]
  split <;> exact start_padded

theorem length_XTEA_encrypt : (XTEA_encrypt target p msg).length = (padded msg).length := by
  rw [XTEA_encrypt]
  split <;> rfl

theorem packet_XTEA_encrypt (hlength : msg.length < 2 ^ 16) :
    (XTEA_encrypt target p msg).packet =
      Blocks.eachBlock 8 (xtea.XTEA_encrypt p.key) (padded msg).packet := by
  have hlt := length_padded_lt hlength
  have hsize : (UInt64.ofNat (padded msg).length).toNat = (padded msg).length :=
    UInt64.toNat_ofNat_of_lt' (by simp only [UInt64.size]; omega)
  have hdata : (Blocks.eachBlock 8 (xtea.XTEA_encrypt p.key) (padded msg).packet).length = _ :=
    Blocks.length_eachBlock xtea.keeps_encrypt
  rw [XTEA_encrypt]
  rw [xtea.encrypt_eq (length_packet.trans hsize.symm) (by omega) (by omega)]
  change Memory.read (Memory.write _ _ _) _ (padded msg).length = _
  rw [← length_packet, ← hdata, Memory.read_write]

/-- The message with the crypto header that the protocol uses. -/
def withHeader (p : Protocol) (msg : OutputMessage) : OutputMessage :=
  (if !p.compactCrypt then
    msg.addCryptoHeader (if p.checksumEnabled then 1 else 0) p.sequenceNumber
  else msg.addCryptoHeader 2 p.sequenceNumber).1

theorem withHeader_cases (p : Protocol) (msg : OutputMessage) :
    (p.cryptoHeaderSize = 0 ∧ withHeader p msg = msg.writeMessageLength) ∨
    (p.cryptoHeaderSize = 4 ∧ ∃ value,
      withHeader p msg = (msg.add_header 4 value).writeMessageLength) := by
  rw [withHeader, cryptoHeaderSize]
  cases p.compactCrypt with
  | true => exact .inr ⟨rfl, _, rfl⟩
  | false =>
    cases p.checksumEnabled with
    | true => exact .inr ⟨rfl, _, rfl⟩
    | false => exact .inl ⟨rfl, rfl⟩

theorem start_withHeader (hstart : msg.outputBufferStart = 6) :
    (withHeader p msg).outputBufferStart = 4 - p.cryptoHeaderSize := by
  rcases withHeader_cases p msg with ⟨hsize, heq⟩ | ⟨hsize, value, heq⟩
  · rw [heq, hsize, writeMessageLength, start_add_header (by omega) (by omega), hstart]
  · have h4 : (msg.add_header 4 value).outputBufferStart = 2 := by
      rw [start_add_header (by omega) (by omega), hstart]
    rw [heq, hsize, writeMessageLength, start_add_header (by omega) (by omega), h4]

theorem packet_withHeader (hstart : msg.outputBufferStart = 6) (hlength : msg.length + 6 < 2 ^ 16) :
    ∃ header : List UInt8, header.length = p.cryptoHeaderSize ∧ (withHeader p msg).packet =
      bytes 2 (header ++ msg.packet).length ++ (header ++ msg.packet) := by
  rcases withHeader_cases p msg with ⟨hsize, heq⟩ | ⟨hsize, value, heq⟩
  · refine ⟨[], hsize.symm, ?_⟩
    rw [heq, packet_writeMessageLength (by omega) (by omega) (by omega), List.nil_append]
  · have hs : (msg.add_header 4 value).outputBufferStart = 2 := by
      rw [start_add_header (by omega) (by omega), hstart]
    have hl : (msg.add_header 4 value).length = msg.length + 4 := length_add_header (by omega)
    refine ⟨bytes 4 value, (length_bytes 4 value).trans hsize.symm, ?_⟩
    rw [heq, packet_writeMessageLength (by omega) (by omega) (by omega),
      packet_add_header (by omega) (by omega) (by omega)]

theorem onSendMessage_encrypted (hraw : p.rawMessages = false) (henc : p.encryptionEnabled = true) :
    (onSendMessage target p msg).1 =
      withHeader p (XTEA_encrypt target p msg.writeMessageLength) := by
  rw [onSendMessage, hraw, henc]
  rfl

theorem onSendMessage_plain (hraw : p.rawMessages = false) (henc : p.encryptionEnabled = false) :
    (onSendMessage target p msg).1 = msg.writeMessageLength := by
  rw [onSendMessage, hraw, henc]
  rfl

theorem onSendMessage_raw (hraw : p.rawMessages = true) :
    (onSendMessage target p msg).1 = msg := by
  rw [onSendMessage, hraw]
  rfl

theorem Unsent.start_writeMessageLength (h : Unsent msg) :
    msg.writeMessageLength.outputBufferStart = 6 := by
  have hs := h.start
  rw [writeMessageLength, start_add_header (by omega) (by omega), hs]

theorem Unsent.packet_eq (h : Unsent msg) : msg.packet = msg.bytes := by
  rw [packet, h.start]
  rfl

theorem Unsent.packet_writeMessageLength (h : Unsent msg) (hlength : msg.length + 2 < 2 ^ 16) :
    msg.writeMessageLength.packet = bytes 2 msg.length ++ msg.bytes := by
  have hs := h.start
  rw [OutputMessage.packet_writeMessageLength (by omega) (by omega) hlength, length_packet,
    h.packet_eq]

theorem framed_raw_iff (h : Unsent msg) (hraw : p.rawMessages = true) :
    Framed target p (onSendMessage target p msg).1 msg.bytes ↔ Fits p msg.length := by
  rw [Framed, onSendMessage_raw hraw, if_pos hraw, Fits, h.start, NETWORKMESSAGE_MAXSIZE]
  constructor
  · rintro ⟨hin, -⟩
    exact ⟨by omega, fun hraw' => absurd hraw (by simp [hraw'])⟩
  · rintro ⟨hin, -⟩
    exact ⟨by omega, h.packet_eq⟩

theorem framed_plain_iff (h : Unsent msg) (hraw : p.rawMessages = false)
    (henc : p.encryptionEnabled = false) :
    Framed target p (onSendMessage target p msg).1 msg.bytes ↔ Fits p msg.length := by
  have hbody : msg.bytes.length = msg.length := Memory.length_read
  rw [Framed, onSendMessage_plain hraw henc, if_neg (by simp [hraw]), if_neg (by simp [henc]), Fits,
    h.start_writeMessageLength, NETWORKMESSAGE_MAXSIZE, hbody]
  constructor
  · rintro ⟨hin, -, hpacket⟩
    have hl := congrArg List.length hpacket
    rw [length_packet, List.length_append, length_bytes, hbody] at hl
    exact ⟨by omega, fun _ henc' => absurd henc (by simp [henc'])⟩
  · rintro ⟨hin, -⟩
    have hpacket := h.packet_writeMessageLength (by omega)
    have hl : msg.writeMessageLength.length = msg.length + 2 := length_add_header (by omega)
    exact ⟨by omega, h.length, hpacket⟩

/-- The length, the message and the padding have room behind the headers. -/
theorem length_le_of_encryptedFrame {out : OutputMessage} {body : List UInt8}
    (h : EncryptedFrame target p out.packet body) :
    ∃ encrypted padding : ℕ, out.length = 2 + (p.cryptoHeaderSize + encrypted) ∧
      encrypted = 2 + (body.length + padding) ∧ 8 ∣ encrypted := by
  obtain ⟨header, encrypted, padding, hpacket, hlt, hheader, hdvd, -, -, hdecrypt⟩ := h
  have hl := congrArg List.length hpacket
  have hsize : (UInt64.ofNat encrypted.length).toNat = encrypted.length :=
    UInt64.toNat_ofNat_of_lt' (by
      rw [List.length_append] at hlt
      simp only [UInt64.size]
      omega)
  rw [List.length_append] at hlt
  have hd := hdecrypt (encrypted.length + 1) (by omega)
  rw [xtea.decrypt_eq hsize.symm (by omega) (by omega), Option.some.injEq] at hd
  have hkeep := congrArg List.length hd
  rw [Blocks.length_eachBlock xtea.keeps_decrypt] at hkeep
  simp only [List.length_append, length_bytes, length_packet] at hl hkeep
  exact ⟨encrypted.length, padding.length, by omega, hkeep, hdvd⟩

theorem cryptoHeaderSize_le : p.cryptoHeaderSize ≤ 4 := by
  rw [cryptoHeaderSize]
  split <;> decide

section Encrypted

variable (h : Unsent msg) (hraw : p.rawMessages = false) (henc : p.encryptionEnabled = true)

include h hraw henc

theorem start_encrypted :
    (onSendMessage target p msg).1.outputBufferStart = 4 - p.cryptoHeaderSize := by
  rw [onSendMessage_encrypted hraw henc, start_withHeader]
  rw [start_XTEA_encrypt, h.start_writeMessageLength]

/-- A message whose padding does not fit is enciphered as it is. -/
theorem length_encrypted_of_not_canAdd (hlength : msg.length ≤ 24582)
    (hlarge : 24566 < msg.length) :
    (onSendMessage target p msg).1.length = 2 + (p.cryptoHeaderSize + (msg.length + 2)) := by
  have hl : msg.writeMessageLength.length = msg.length + 2 := length_add_header (by omega)
  have hposition : msg.writeMessageLength.position = (8 + msg.length) % 2 ^ 16 := h.position
  have hfull : ¬ msg.writeMessageLength.canAdd (paddingSize msg.writeMessageLength.length) := by
    rw [canAdd_iff, hl, hposition, paddingSize]
    omega
  have hx : (XTEA_encrypt target p msg.writeMessageLength).length = msg.length + 2 := by
    rw [length_XTEA_encrypt, padded_of_not_canAdd hfull, hl]
  have hs : (XTEA_encrypt target p msg.writeMessageLength).outputBufferStart = 6 :=
    start_XTEA_encrypt.trans h.start_writeMessageLength
  obtain ⟨header, hheader, hpacket⟩ := packet_withHeader (p := p) hs (by omega)
  rw [onSendMessage_encrypted hraw henc, ← length_packet, hpacket]
  simp only [List.length_append, length_bytes, length_packet, hheader, hx]

theorem encryptedFrame_of_fits (hfits : Fits p msg.length) :
    EncryptedFrame target p (onSendMessage target p msg).1.packet msg.bytes ∧
      (onSendMessage target p msg).1.length =
        2 + (p.cryptoHeaderSize + (2 + (msg.length + paddingSize (msg.length + 2)))) := by
  obtain ⟨hlength, hroom⟩ := hfits
  have hroom := hroom hraw henc
  have hhead := cryptoHeaderSize_le (p := p)
  have hpad : paddingSize (msg.length + 2) ≤ 7 ∧
      8 ∣ 2 + (msg.length + paddingSize (msg.length + 2)) := by
    rw [paddingSize]
    omega
  have hbody : msg.bytes.length = msg.length := Memory.length_read
  have hl : msg.writeMessageLength.length = msg.length + 2 := length_add_header (by omega)
  have hposition : msg.writeMessageLength.position = (8 + msg.length) % 2 ^ 16 := h.position
  have hstart := h.start_writeMessageLength
  have hplain : (padded msg.writeMessageLength).packet =
      bytes 2 msg.length ++ (msg.bytes ++ .replicate (paddingSize (msg.length + 2)) 0x33) := by
    rw [packet_padded, h.packet_writeMessageLength (by omega), hl, List.append_assoc]
    · rw [hposition, hstart, hl]
      omega
    · intro hmod
      rw [hl] at hmod
      rw [canAdd_iff, hl, hposition, paddingSize]
      omega
    · omega
  have hcipher : (XTEA_encrypt target p msg.writeMessageLength).packet = _ :=
    packet_XTEA_encrypt (by omega)
  have hsize : (XTEA_encrypt target p msg.writeMessageLength).packet.length =
      2 + (msg.length + paddingSize (msg.length + 2)) := by
    rw [hcipher, Blocks.length_eachBlock xtea.keeps_encrypt, hplain]
    simp only [List.length_append, length_bytes, hbody, List.length_replicate]
  have hs : (XTEA_encrypt target p msg.writeMessageLength).outputBufferStart = 6 :=
    start_XTEA_encrypt.trans hstart
  have hfit : (XTEA_encrypt target p msg.writeMessageLength).length + 6 < 2 ^ 16 := by
    rw [← length_packet]
    omega
  obtain ⟨header, hheader, hpacket⟩ := packet_withHeader (p := p) hs hfit
  rw [onSendMessage_encrypted hraw henc, ← length_packet, hpacket]
  refine ⟨⟨header, (XTEA_encrypt target p msg.writeMessageLength).packet,
    .replicate (paddingSize (msg.length + 2)) 0x33, rfl, ?_, hheader, ?_, ?_, ?_, ?_⟩, ?_⟩
  · rw [List.length_append, hheader, hsize]
    omega
  · rw [hsize]
    exact hpad.2
  · rw [hbody]
    exact h.length
  · rw [List.length_replicate]
    omega
  · intro fuel hfuel
    have hnat : (UInt64.ofNat (XTEA_encrypt target p msg.writeMessageLength).packet.length).toNat =
        (XTEA_encrypt target p msg.writeMessageLength).packet.length :=
      UInt64.toNat_ofNat_of_lt' (by simp only [UInt64.size]; omega)
    rw [xtea.decrypt_eq hnat.symm (by omega) (by omega), hcipher,
      Blocks.eachBlock_eachBlock (by decide) xtea.keeps_encrypt xtea.decrypt_encrypt_block, hplain,
      hbody]
  · simp only [List.length_append, length_bytes, hheader, hsize]

theorem framed_encrypted_iff :
    Framed target p (onSendMessage target p msg).1 msg.bytes ↔ Fits p msg.length := by
  have hbody : msg.bytes.length = msg.length := Memory.length_read
  have hhead := cryptoHeaderSize_le (p := p)
  rw [Framed, if_neg (by simp [hraw]), if_pos henc, start_encrypted h hraw henc,
    NETWORKMESSAGE_MAXSIZE]
  constructor
  · rintro ⟨hin, hframe⟩
    obtain ⟨encrypted, padding, hout, hparts, hdvd⟩ := length_le_of_encryptedFrame hframe
    rw [hbody] at hparts
    have hlength : msg.length ≤ 24582 := by omega
    refine ⟨hlength, fun _ _ => ?_⟩
    by_contra hroom
    have hfull : (onSendMessage target p msg).1.length = _ :=
      length_encrypted_of_not_canAdd h hraw henc hlength (by omega)
    omega
  · intro hfits
    obtain ⟨hframe, hout⟩ : EncryptedFrame target p _ _ ∧ _ :=
      encryptedFrame_of_fits h hraw henc hfits
    have hpad : paddingSize (msg.length + 2) ≤ 7 ∧
        (msg.length % 8 = 6 → paddingSize (msg.length + 2) = 0) := by
      rw [paddingSize]
      omega
    have hroom := hfits.2 hraw henc
    have hlength := hfits.1
    exact ⟨by omega, hframe⟩

end Encrypted

theorem framed_iff (h : Unsent msg) :
    Framed target p (onSendMessage target p msg).1 msg.bytes ↔ Fits p msg.length := by
  cases hraw : p.rawMessages with
  | true => exact framed_raw_iff h hraw
  | false =>
    cases henc : p.encryptionEnabled with
    | true => exact framed_encrypted_iff h hraw henc
    | false => exact framed_plain_iff h hraw henc

theorem onSendMessage_snd :
    ∃ n, (onSendMessage target p msg).2 = { p with sequenceNumber := n } := by
  obtain ⟨key, sequenceNumber, encryptionEnabled, checksumEnabled, compactCrypt, rawMessages⟩ := p
  cases rawMessages with
  | true => exact ⟨sequenceNumber, rfl⟩
  | false =>
    cases encryptionEnabled with
    | true => exact ⟨_, rfl⟩
    | false => exact ⟨sequenceNumber, rfl⟩

/-- The packets of a queue are framed if every message of it fits; only the
sequence number changes on the way. -/
theorem sendQueue_framed_iff {queue : List OutputMessage} (h : ∀ msg ∈ queue, Unsent msg)
    (n : UInt32) :
    List.Forall₂ (fun out msg => Framed target p out msg.bytes)
        (sendQueue target { p with sequenceNumber := n } queue) queue ↔
      ∀ msg ∈ queue, Fits p msg.length := by
  induction queue generalizing n with
  | nil => simp [sendQueue]
  | cons msg queue ih =>
    obtain ⟨hmsg, hqueue⟩ := List.forall_mem_cons.mp h
    obtain ⟨n', hn'⟩ : ∃ n', (onSendMessage target { p with sequenceNumber := n } msg).2 = _ :=
      onSendMessage_snd
    have hhead : Framed target { p with sequenceNumber := n } _ msg.bytes ↔ _ := framed_iff hmsg
    rw [sendQueue, List.forall₂_cons, hn', ih hqueue n', List.forall_mem_cons]
    exact and_congr_left fun _ => hhead

end OnSend

namespace Output

variable {o : Output} {msg : NetworkMessage} {out : OutputMessage} {pool : ℕ → UInt8}

/-- The messages in the queue and the one in the output buffer. -/
def pending (o : Output) : List OutputMessage := o.messageQueue ++ o.outputBuffer.toList

@[simp] theorem pending_sendAll : o.sendAll.pending = o.pending := by
  rw [sendAll, pending, pending]
  split
  · next msg h => simp [send, h]
  · rfl

theorem pending_writeToOutputBuffer : ∃ before out,
    (o.writeToOutputBuffer msg pool).pending = before ++ [out.append msg] ∧
      (o.pending = before ∧ out = getOutputMessage pool ∨
        o.pending = before ++ [out] ∧ out.length + msg.length ≤ 24566) := by
  rw [writeToOutputBuffer, getOutputBuffer]
  cases h : o.outputBuffer with
  | none => exact ⟨o.messageQueue, _, rfl, .inl ⟨by simp [pending, h], rfl⟩⟩
  | some out =>
    dsimp only
    split_ifs with hsize
    · exact ⟨o.messageQueue ++ [out], _, rfl, .inl ⟨by simp [pending, h], rfl⟩⟩
    · refine ⟨o.messageQueue, out, rfl, .inr ⟨by simp [pending, h], ?_⟩⟩
      exact Nat.le_of_not_lt hsize

theorem unsent_getOutputMessage : Unsent (getOutputMessage pool) :=
  ⟨rfl, Nat.two_pow_pos 16, rfl⟩

theorem append_spec (h : Unsent out) (hmsg : msg.length < 2 ^ 16)
    (hroom : out.length = 0 ∨ out.length + msg.length ≤ 24566) :
    Unsent (out.append msg) ∧ (out.append msg).length = out.length + msg.length ∧
      (out.append msg).bytes = out.bytes ++ msg.bytes := by
  have hl : (out.append msg).length = out.length + msg.length := by
    change MsgSize_t _ = _
    rw [MsgSize_t]
    omega
  have hlt := h.length
  have hp := h.position
  have hbody : msg.bytes.length = msg.length := Memory.length_read
  refine ⟨⟨h.start, by omega, ?_⟩, hl, ?_⟩
  · rw [hl]
    change MsgSize_t _ = _
    rw [MsgSize_t, hp]
    omega
  · rw [NetworkMessage.bytes, hl, ← hbody]
    exact Memory.read_write_append (by rw [hp, INITIAL_BUFFER_POSITION]; omega)

/-- What the written messages have become; a large one is alone. -/
structure Gathered (pending : List OutputMessage) (written : List NetworkMessage) : Prop where
  unsent : ∀ msg ∈ pending, Unsent msg
  bytes : (pending.flatMap fun msg => msg.bytes) = written.flatMap NetworkMessage.bytes
  large : ∀ n > 24566, (∃ msg ∈ pending, msg.length = n) ↔ ∃ msg ∈ written, msg.length = n

variable {before : List OutputMessage} {w : List NetworkMessage}

theorem Gathered.getOutputMessage (h : Gathered before w) :
    Gathered (before ++ [OutputMessage.getOutputMessage pool]) w where
  unsent := by
    simp only [List.mem_append, List.mem_singleton, or_imp, forall_and, forall_eq]
    exact ⟨h.unsent, unsent_getOutputMessage⟩
  bytes := by
    rw [List.flatMap_append, h.bytes]
    exact List.append_nil _
  large n hn := by
    rw [← h.large n hn]
    simp only [List.mem_append, List.mem_singleton, or_and_right, exists_or, exists_eq_left]
    exact or_iff_left (Nat.ne_of_lt (Nat.zero_lt_of_lt hn))

theorem Gathered.append (h : Gathered (before ++ [out]) w) (hmsg : msg.length < 2 ^ 16)
    (hroom : out.length = 0 ∨ out.length + msg.length ≤ 24566) :
    Gathered (before ++ [out.append msg]) (w ++ [msg]) := by
  have hunsent := h.unsent
  simp only [List.mem_append, List.mem_singleton, or_imp, forall_and, forall_eq] at hunsent
  obtain ⟨hbefore, hout⟩ := hunsent
  obtain ⟨hnext, hlength, hbytes⟩ := append_spec hout hmsg hroom
  constructor
  · simp only [List.mem_append, List.mem_singleton, or_imp, forall_and, forall_eq]
    exact ⟨hbefore, hnext⟩
  · rw [List.flatMap_append, List.flatMap_append, ← h.bytes, List.flatMap_append]
    simp only [List.flatMap_singleton, hbytes, List.append_assoc]
  · intro n hn
    have hlarge := h.large n hn
    simp only [List.mem_append, List.mem_singleton, or_and_right, exists_or, exists_eq_left]
      at hlarge ⊢
    have hsum : out.length + msg.length = n ↔ out.length = n ∨ msg.length = n := by
      clear hlarge
      omega
    rw [← hlarge, or_assoc, hlength, hsum]

theorem gathered_writeToOutputBuffer (h : Gathered o.pending w) (hmsg : msg.length < 2 ^ 16) :
    Gathered (o.writeToOutputBuffer msg pool).pending (w ++ [msg]) := by
  obtain ⟨before, out, hpending, hout⟩ : ∃ (before : List OutputMessage) (out : OutputMessage),
    (o.writeToOutputBuffer msg pool).pending = before ++ [out.append msg] ∧ _ :=
      pending_writeToOutputBuffer
  rw [hpending]
  rcases hout with ⟨heq, rfl⟩ | ⟨heq, hroom⟩
  · rw [heq] at h
    exact h.getOutputMessage.append hmsg (.inl rfl)
  · rw [heq] at h
    exact h.append hmsg (.inr hroom)

/-- The messages that are written. -/
def written : List Event → List NetworkMessage
  | [] => []
  | .write buffer adds _ :: events => build buffer adds :: written events
  | .sendAll :: events => written events

theorem gathered_run (events : List Event) (h : Gathered o.pending w) :
    Gathered (events.foldl step o).pending (w ++ written events) := by
  induction events generalizing o w with
  | nil => rwa [written, List.append_nil]
  | cons e events ih =>
    cases e with
    | write buffer adds pool =>
      have hwrite : Gathered (o.writeToOutputBuffer _ pool).pending _ :=
        gathered_writeToOutputBuffer h (length_build_lt buffer adds)
      have hnext := ih hwrite
      rwa [List.append_assoc] at hnext
    | sendAll =>
      rw [← pending_sendAll] at h
      exact ih h

theorem gathered_sent (events : List Event) : Gathered (sent events) (written events) := by
  have hnew : Gathered (pending {}) [] := by
    constructor
    · intro msg hmsg
      cases hmsg
    · rfl
    · simp [pending]
  have hrun := gathered_run events hnew
  rw [← pending_sendAll, List.nil_append] at hrun
  have hnone : ∀ o : Output, o.sendAll.outputBuffer = none := by
    intro o
    rw [sendAll]
    split
    · rfl
    · assumption
  rwa [pending, hnone, Option.toList_none, List.append_nil] at hrun

end Output

variable (target : xtea.Target) (p : Protocol) (events : List Output.Event)

/-- The sent messages have all bytes that were written, once and in their order,
and the packet of each of them can be taken apart. -/
structure Framing : Prop where
  bytes : ((Output.sent events).flatMap fun msg => msg.bytes) =
    (Output.written events).flatMap NetworkMessage.bytes
  framed : List.Forall₂ (fun out msg => Framed target p out msg.bytes)
    (sendQueue target p (Output.sent events)) (Output.sent events)

variable {p} in
theorem fits_sent_iff : (∀ msg ∈ Output.sent events, Fits p msg.length) ↔
    ∀ msg ∈ Output.written events, Fits p msg.length := by
  have h := Output.gathered_sent events
  have hsmall : ∀ n ≤ 24566, Fits p n := fun n hn => ⟨by omega, fun _ _ => .inl hn⟩
  constructor
  · intro hall msg hmsg
    by_contra hlarge
    have hn : 24566 < msg.length := Nat.lt_of_not_le (hlarge ∘ hsmall _)
    obtain ⟨out, hout, hlength⟩ := (h.large _ hn).mpr ⟨msg, hmsg, rfl⟩
    exact hlarge (hlength ▸ hall out hout)
  · intro hall out hout
    by_contra hlarge
    have hn : 24566 < out.length := Nat.lt_of_not_le (hlarge ∘ hsmall _)
    obtain ⟨msg, hmsg, hlength⟩ := (h.large _ hn).mp ⟨out, hout, rfl⟩
    exact hlarge (hlength ▸ hall msg hmsg)

variable {target p events} in
theorem Framing.fits (h : Framing target p events) :
    ∀ msg ∈ Output.written events, Fits p msg.length :=
  (fits_sent_iff events).mp
    ((sendQueue_framed_iff (Output.gathered_sent events).unsent p.sequenceNumber).mp h.framed)

/-- The packets can be taken apart exactly if no message is too long for its padding. -/
theorem framing_iff :
    Framing target p events ↔ ∀ msg ∈ Output.written events, Fits p msg.length := by
  constructor
  · exact Framing.fits
  · intro hfits
    have h := Output.gathered_sent events
    have hsent := (fits_sent_iff events).mpr hfits
    exact ⟨h.bytes, (sendQueue_framed_iff h.unsent p.sequenceNumber).mpr hsent⟩

/-- One length alone is too long, if nothing but the encryption pads. -/
theorem fits_iff_of_unpadded {msg : NetworkMessage} (h : Unpadded msg) :
    Fits p msg.length ↔
      (p.rawMessages = false → p.encryptionEnabled = true → msg.length ≠ 24567) := by
  have hlength := h.length
  rw [Fits]
  constructor
  · rintro ⟨-, hfits⟩ hraw henc
    have hroom := hfits hraw henc
    omega
  · intro hne
    refine ⟨by omega, fun hraw henc => ?_⟩
    have hne := hne hraw henc
    omega

/-- The longest message takes three texts. -/
theorem length_longest (buffer : ℕ → UInt8) {a b c : List UInt8} (ha : a.length = 8192)
    (hb : b.length = 8192) (hc : c.length = 8183) :
    (build buffer [.addBytes a, .addBytes b, .addBytes c]).length = 24567 := by
  have hnew : Unpadded (NetworkMessage.new buffer) := unpadded_new
  have h0 : (NetworkMessage.new buffer).position = 8 := rfl
  obtain ⟨hfirst, h1⟩ := hnew.addBytes (Nat.le_of_eq ha) (by omega)
  obtain ⟨hsecond, h2⟩ := hfirst.addBytes (Nat.le_of_eq hb) (by omega)
  obtain ⟨hthird, h3⟩ := hsecond.addBytes (hc.trans_le (by decide)) (by omega)
  have hposition := hthird.position
  have hlength :
      ((((NetworkMessage.new buffer).addBytes a).addBytes b).addBytes c).length = 24567 := by
    omega
  exact hlength

/-- The seven bytes of padding do not fit and 24569 bytes are enciphered. -/
theorem not_framing_longest : ¬ Framing .avx { key := fun _ => 0, encryptionEnabled := true }
    [.write (fun _ => 0) [.addBytes (.replicate 8192 7), .addBytes (.replicate 8192 7),
      .addBytes (.replicate 8183 7)] (fun _ => 0)] := by
  intro h
  have hfits := h.fits _ List.mem_cons_self
  rw [length_longest _ List.length_replicate List.length_replicate List.length_replicate] at hfits
  have hroom := hfits.2 rfl rfl
  omega

end Protocol

end OTServBR
