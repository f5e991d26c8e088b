import OTServBR.Network.Protocol

/-! # The write queue of a connection

A message that comes to an empty queue is written at once, and the others when
the one before them has been written. The front of the queue is the message that
is being written, so a connection that is closed while messages wait leaves its
socket open until the last of them is out.
-/

namespace OTServBR

inductive ConnectionState
  | disconnected | connectingStage1 | connectingStage2 | game | pending
  deriving DecidableEq, Repr

/-- A connection, with what came in and what went out so far. -/
structure Connection where
  connectionState : ConnectionState
  protocol : Protocol
  messageQueue : List OutputMessage := []
  /-- Whether the socket is open. -/
  isOpen : Bool := true
  accepted : List OutputMessage := []
  /-- The arguments of `onSendMessage`. -/
  passed : List OutputMessage := []
  /-- The writes that were started and have not completed. -/
  writing : List OutputMessage := []
  written : List OutputMessage := []

namespace Connection

section Model

variable (target : xtea.Target) (c : Connection)

/-- Write the front of the queue, which the protocol changes in place. -/
def internalSend (conMsg : OutputMessage) : Connection :=
  let r := Protocol.onSendMessage target c.protocol conMsg
  { c with
    protocol := r.2
    messageQueue := r.1 :: c.messageQueue.tail
    passed := c.passed ++ [conMsg]
    writing := c.writing ++ [r.1] }

def send (conMsg : OutputMessage) : Connection :=
  if c.connectionState = .disconnected then c
  else
    let noPendingWrite := c.messageQueue.isEmpty
    let c :=
      { c with
        messageQueue := c.messageQueue ++ [conMsg]
        accepted := c.accepted ++ [conMsg] }
    if noPendingWrite then c.internalSend target conMsg else c

def closeSocket : Connection := { c with isOpen := false }

/-- The first write completes without an error, if there is one. -/
def onWriteOperation : Connection :=
  match c.writing with
  | [] => c
  | conMsg :: writing =>
    let c :=
      { c with
        writing := writing
        written := c.written ++ [conMsg]
        messageQueue := c.messageQueue.tail }
    match c.messageQueue with
    | front :: _ => c.internalSend target front
    | [] => if c.connectionState = .disconnected then c.closeSocket else c

/-- `close` without force. -/
def close : Connection :=
  let c := { c with connectionState := .disconnected }
  if c.messageQueue.isEmpty then c.closeSocket else c

inductive Action
  | send (conMsg : OutputMessage)
  | onWriteOperation
  | close

def step : Action → Connection
  | .send conMsg => c.send target conMsg
  | .onWriteOperation => c.onWriteOperation target
  | .close => c.close

end Model

/-! ## One write after the other -/

variable {target : xtea.Target} {p : Protocol} {c : Connection} {msg : OutputMessage}
  {l : List OutputMessage}

/-- The protocol after the messages of a queue. -/
def protocolAfter (target : xtea.Target) (p : Protocol) (l : List OutputMessage) : Protocol :=
  l.foldl (fun p msg => (Protocol.onSendMessage target p msg).2) p

theorem sendQueue_append : Protocol.sendQueue target p (l ++ [msg]) =
    Protocol.sendQueue target p l ++
      [(Protocol.onSendMessage target (protocolAfter target p l) msg).1] := by
  induction l generalizing p with
  | nil => rfl
  | cons m l ih =>
    rw [List.cons_append, Protocol.sendQueue, Protocol.sendQueue, ih]
    rfl

theorem protocolAfter_append : protocolAfter target p (l ++ [msg]) =
    (Protocol.onSendMessage target (protocolAfter target p l) msg).2 := by
  rw [protocolAfter, List.foldl_append]
  rfl

/-- The write that is outstanding is the front of the queue, and what was accepted is what was
passed on and the rest of the queue. -/
structure Orderly (target : xtea.Target) (p : Protocol) (c : Connection) : Prop where
  writing : c.writing = c.messageQueue.take 1
  accepted : c.accepted = c.passed ++ c.messageQueue.tail
  passed : c.passed.length = c.written.length + c.writing.length
  sent : c.written ++ c.writing = Protocol.sendQueue target p c.passed
  protocol : c.protocol = protocolAfter target p c.passed
  closed : c.isOpen = false → c.connectionState = .disconnected ∧ c.messageQueue = []

/-- A connection between two writes: all that was passed on is written. -/
structure Idle (target : xtea.Target) (p : Protocol) (c : Connection) : Prop where
  writing : c.writing = []
  accepted : c.accepted = c.passed ++ c.messageQueue
  passed : c.passed.length = c.written.length
  sent : c.written = Protocol.sendQueue target p c.passed
  protocol : c.protocol = protocolAfter target p c.passed

namespace Idle

theorem internalSend (h : Idle target p c) {queue : List OutputMessage}
    (hqueue : c.messageQueue = msg :: queue) (hopen : c.isOpen = true) :
    Orderly target p (c.internalSend target msg) := by
  rw [Connection.internalSend]
  refine ⟨?_, ?_, ?_, ?_, ?_, fun hclosed => ?_⟩
  · dsimp only
    rw [h.writing]
    rfl
  · dsimp only
    rw [h.accepted, hqueue, List.append_assoc]
    rfl
  · dsimp only
    rw [h.writing, List.length_append, h.passed]
    rfl
  · dsimp only
    rw [sendQueue_append, ← h.protocol, ← h.sent, h.writing]
    rfl
  · dsimp only
    rw [protocolAfter_append, ← h.protocol]
  · rw [hopen] at hclosed
    cases hclosed

/-- Nothing waits, so the connection may be closed. -/
theorem orderly (h : Idle target p c) (hqueue : c.messageQueue = [])
    (hclosed : c.isOpen = false → c.connectionState = .disconnected) : Orderly target p c where
  writing := by rw [h.writing, hqueue]; rfl
  accepted := by rw [h.accepted, hqueue]; rfl
  passed := by rw [h.passed, h.writing]; rfl
  sent := by rw [h.writing, List.append_nil, h.sent]
  protocol := h.protocol
  closed h := ⟨hclosed h, hqueue⟩

end Idle

namespace Orderly

theorem idle (h : Orderly target p c) (hqueue : c.messageQueue = []) : Idle target p c := by
  have hwriting : c.writing = [] := by
    rw [h.writing, hqueue]
    rfl
  refine ⟨hwriting, ?_, ?_, ?_, h.protocol⟩
  · rw [h.accepted, hqueue]
    rfl
  · rw [h.passed, hwriting]
    rfl
  · rw [← h.sent, hwriting, List.append_nil]

theorem send (h : Orderly target p c) : Orderly target p (c.send target msg) := by
  rw [Connection.send]
  split
  · exact h
  next hstate =>
  have hopen : c.isOpen = true := eq_true_of_ne_false fun hclosed => hstate (h.closed hclosed).1
  dsimp only
  cases hqueue : c.messageQueue with
  | nil =>
    have hidle := h.idle hqueue
    have haccepted : c.accepted = c.passed := by
      rw [hidle.accepted, hqueue, List.append_nil]
    have hnext : Idle target p
        { c with messageQueue := [msg], accepted := c.accepted ++ [msg] } :=
      ⟨hidle.writing, by rw [haccepted], hidle.passed, hidle.sent, hidle.protocol⟩
    exact hnext.internalSend rfl hopen
  | cons front queue =>
    refine ⟨?_, ?_, h.passed, h.sent, h.protocol, fun hclosed => ?_⟩
    · rw [h.writing, hqueue]
      rfl
    · rw [h.accepted, hqueue, List.append_assoc]
      rfl
    · rw [hopen] at hclosed
      cases hclosed

theorem onWriteOperation (h : Orderly target p c) :
    Orderly target p (c.onWriteOperation target) := by
  rw [Connection.onWriteOperation]
  split
  · exact h
  next conMsg writing hwriting =>
  have htake := h.writing
  rw [hwriting] at htake
  cases hqueue : c.messageQueue with
  | nil =>
    rw [hqueue] at htake
    cases htake
  | cons front queue =>
    rw [hqueue] at htake
    cases htake
    have hopen : c.isOpen = true := eq_true_of_ne_false fun hclosed => by
      rw [(h.closed hclosed).2] at hqueue
      cases hqueue
    have hpassed := h.passed
    have hsent := h.sent
    rw [hwriting] at hpassed hsent
    have hidle : Idle target p
        { c with writing := [], written := c.written ++ [conMsg], messageQueue := queue } := by
      refine ⟨rfl, ?_, ?_, hsent, h.protocol⟩
      · dsimp only
        rw [h.accepted, hqueue]
        rfl
      · rw [hpassed, List.length_append]
        rfl
    dsimp only [List.tail_cons]
    cases queue with
    | cons next queue => exact hidle.internalSend rfl hopen
    | nil =>
      dsimp only
      split
      · next hstate =>
        have hclosed : Idle target p (closeSocket
            { c with writing := [], written := c.written ++ [conMsg], messageQueue := [] }) :=
          ⟨rfl, hidle.accepted, hidle.passed, hidle.sent, hidle.protocol⟩
        exact hclosed.orderly rfl fun _ => hstate
      · refine hidle.orderly rfl fun hclosed => ?_
        rw [hopen] at hclosed
        cases hclosed

theorem close (h : Orderly target p c) : Orderly target p c.close := by
  rw [Connection.close]
  dsimp only
  split
  · next hempty =>
    have hqueue : c.messageQueue = [] := List.isEmpty_iff.mp hempty
    exact ⟨h.writing, h.accepted, h.passed, h.sent, h.protocol, fun _ => ⟨rfl, hqueue⟩⟩
  · exact ⟨h.writing, h.accepted, h.passed, h.sent, h.protocol, fun hclosed =>
      ⟨rfl, (h.closed hclosed).2⟩⟩

theorem step (h : Orderly target p c) (a : Action) : Orderly target p (c.step target a) := by
  cases a with
  | send msg => exact h.send
  | onWriteOperation => exact h.onWriteOperation
  | close => exact h.close

theorem new {state : ConnectionState} :
    Orderly target p { connectionState := state, protocol := p } where
  writing := rfl
  accepted := rfl
  passed := rfl
  sent := rfl
  protocol := rfl
  closed h := by cases h

end Orderly

/-- What a connection does with its messages: those it accepted are passed on in order, each when
it comes to the front, and are written one at a time; the socket is closed when all are out. -/
structure Delivers (target : xtea.Target) (p : Protocol) (c : Connection) : Prop where
  passed : c.passed = c.accepted.take (c.written.length + c.writing.length)
  sent : c.written ++ c.writing = Protocol.sendQueue target p c.passed
  front : c.writing = c.messageQueue.take 1
  waiting : c.accepted.length = c.written.length + c.messageQueue.length
  closed : c.isOpen = false → c.written = Protocol.sendQueue target p c.accepted

theorem delivers (target : xtea.Target) (p : Protocol) (state : ConnectionState)
    (l : List Action) : Delivers target p
      (l.foldl (step target) { connectionState := state, protocol := p }) := by
  have h : Orderly target p
      (l.foldl (step target) { connectionState := state, protocol := p }) :=
    List.foldlRecOn l (step target) .new fun _ h a _ => h.step a
  generalize l.foldl (step target) { connectionState := state, protocol := p } = c at h
  refine ⟨?_, h.sent, h.writing, ?_, fun hclosed => ?_⟩
  · rw [← h.passed, h.accepted, List.take_left]
  · rw [h.accepted, List.length_append, h.passed, h.writing, List.length_tail, List.length_take]
    omega
  · have hidle := h.idle (h.closed hclosed).2
    rw [hidle.sent, hidle.accepted, (h.closed hclosed).2, List.append_nil]

end Connection

end OTServBR
