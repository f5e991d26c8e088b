import OTServBR.Network.Message
import OTServBR.Network.Xtea

/-! # Sending messages

What is written for a client gathers in an output buffer that is sent when the
next message would not fit, or when the autosend event comes. The headers are
added and the body is enciphered when the connection sends the message.
-/

namespace OTServBR

open NetworkMessage

structure Protocol where
  key : xtea.Key
  sequenceNumber : UInt32 := 0
  encryptionEnabled : Bool := false
  checksumEnabled : Bool := true
  compactCrypt : Bool := false
  rawMessages : Bool := false

namespace Protocol

section OnSend

variable (target : xtea.Target) (p : Protocol)

/-- The message must be a multiple of 8. -/
def padded (msg : OutputMessage) : OutputMessage :=
  let paddingBytes := msg.length % 8
  if paddingBytes ≠ 0 then
    { msg with toNetworkMessage := msg.addPaddingBytes (.ofNat (8 - paddingBytes)) }
  else msg

/-- The cipher works in place on the bytes from `getOutputBuffer` on; it ends
within as many passes as there are bytes. -/
def XTEA_encrypt (msg : OutputMessage) : OutputMessage :=
  let msg := padded msg
  match xtea.encrypt target (msg.length + 1) msg.packet (.ofNat msg.length) p.key with
  | some data => { msg with buffer := Memory.write msg.buffer msg.outputBufferStart data }
  | none => msg

/-- The message as it goes out, and the protocol with its next sequence number. -/
def onSendMessage (msg : OutputMessage) : OutputMessage × Protocol :=
  if !p.rawMessages then
    let msg := msg.writeMessageLength
    if p.encryptionEnabled then
      let msg := XTEA_encrypt target p msg
      let r :=
        if !p.compactCrypt then
          msg.addCryptoHeader (if p.checksumEnabled then 1 else 0) p.sequenceNumber
        else
          msg.addCryptoHeader 2 p.sequenceNumber
      (r.1, { p with sequenceNumber := r.2 })
    else (msg, p)
  else (msg, p)

/-- The connection sends the messages of its queue one after the other. -/
def sendQueue : Protocol → List OutputMessage → List OutputMessage
  | _, [] => []
  | p, msg :: queue =>
    let r := onSendMessage target p msg
    r.1 :: sendQueue r.2 queue

end OnSend

/-- The output buffer of a protocol, and the messages its connection was given. -/
structure Output where
  outputBuffer : Option OutputMessage := none
  messageQueue : List OutputMessage := []

namespace Output

variable (o : Output)

def send (msg : OutputMessage) : Output := { o with messageQueue := o.messageQueue ++ [msg] }

/-- The output buffer with room for `size` bytes; a new one gets the memory `pool`. -/
def getOutputBuffer (size : ℕ) (pool : ℕ → UInt8) : OutputMessage × Output :=
  match o.outputBuffer with
  | none =>
    let out := OutputMessage.getOutputMessage pool
    (out, { o with outputBuffer := some out })
  | some out =>
    if out.length + size > MAX_PROTOCOL_BODY_LENGTH then
      let new := OutputMessage.getOutputMessage pool
      (new, { o.send out with outputBuffer := some new })
    else (out, o)

def writeToOutputBuffer (msg : NetworkMessage) (pool : ℕ → UInt8) : Output :=
  let r := o.getOutputBuffer msg.length pool
  { r.2 with outputBuffer := some (r.1.append msg) }

/-- `OutputMessagePool::sendAll` -/
def sendAll : Output :=
  match o.outputBuffer with
  | some msg => { o.send msg with outputBuffer := none }
  | none => o

/-- A message is built in some memory and written, or the autosend event comes. -/
inductive Event
  | write (buffer : ℕ → UInt8) (adds : List Add) (pool : ℕ → UInt8)
  | sendAll

def step : Event → Output
  | .write buffer adds pool => o.writeToOutputBuffer (build buffer adds) pool
  | .sendAll => o.sendAll

/-- The messages that were sent once the last buffer is. -/
def sent (events : List Event) : List OutputMessage :=
  ((events.foldl step {}).sendAll).messageQueue

end Output

end Protocol

end OTServBR
