import OpenAFS.Lib.Numbered

namespace OpenAFS.Rx.Receive

open Lib.Numbered

def word (n : Nat) : Nat := n % 2 ^ 32

def short (n : Nat) : Nat := n % 2 ^ 16

/-- `last` and `requestAck` are flags of the header. -/
structure Packet where
  seq : Nat
  serial : Nat
  last : Bool
  requestAck : Bool
  seq_lt : seq < 2 ^ 32
  deriving DecidableEq, Repr

inductive AckReason where
  | requested
  | duplicate
  | outOfSequence
  | exceedsWindow
  | noSpace
  | ping
  | pingResponse
  | delay
  | idle
  deriving DecidableEq, Repr

inductive AckType where
  | nack
  | ack
  deriving DecidableEq, Repr

/-- An acknowledgement has the room for as many packets as a byte can count. -/
structure Settings where
  initReceiveWindow : Nat
  maxReceiveWindow : Nat
  softAckRate : Nat
  hardAckRate : Nat
  init_pos : 0 < initReceiveWindow
  init_le : initReceiveWindow ≤ maxReceiveWindow
  max_le : maxReceiveWindow ≤ 255

def Settings.default : Settings where
  initReceiveWindow := 16
  maxReceiveWindow := 64
  softAckRate := 1
  hardAckRate := 2
  init_pos := by decide
  init_le := by decide
  max_le := by decide

structure AckPacket where
  firstPacket : Nat
  previousPacket : Nat
  serial : Nat
  reason : AckReason
  acks : List AckType
  rwind : Nat
  deriving DecidableEq, Repr

def AckPacket.nAcks (ap : AckPacket) : Nat := ap.acks.length

/-- Why the queue could not be acknowledged: the number of a packet, or its offset, exceeds the window, or the byte with the offset
wraps around. -/
inductive Failure where
  | sequence
  | offset
  | wraps
  deriving DecidableEq, Repr

/-- The queue when an acknowledgement was built from it, and what became of it. -/
structure Built where
  rnext : Nat
  rwind : Nat
  rq : List Packet
  result : Except Failure AckPacket

/-- `connRwind` is what the connection keeps for the channel. `taken` are the packets that the reader took since the last reset, and
`built` has what `sendAck` built. -/
structure Call where
  rq : List Packet
  rnext : Nat
  rwind : Nat
  rprev : Nat
  haveLast : Bool
  receiveDone : Bool
  nSoftAcks : Nat
  nHardAcks : Nat
  lastAcked : Nat
  error : Int
  connRwind : Nat
  taken : List Packet
  built : List Built

def callDead : Int := -1

variable (w : Settings)

namespace Call

def reset (s : Call) : Call :=
  { s with
    rq := []
    rnext := 1
    rwind := s.connRwind
    rprev := 0
    haveLast := false
    receiveDone := false
    nSoftAcks := 0
    nHardAcks := 0
    lastAcked := 0
    error := 0
    taken := [] }

def callError (error : Int) (s : Call) : Call :=
  { s.reset with error := if s.error ≠ 0 then s.error else error }

end Call

/-- The inner loop of the scan. In each round `offset`, the number of marks so far, grows by one. -/
def nackUpTo (rnext seq : Nat) : Nat → List AckType → Except Failure (List AckType)
  | 0, _ => .error .wraps
  | rounds + 1, acks =>
    if word (rnext + acks.length) < seq then nackUpTo rnext seq rounds (acks ++ [.nack]) else .ok acks

def ackScan (rnext rwind : Nat) : List Packet → List AckType → Except Failure (List AckType)
  | [], acks => .ok acks
  | rqp :: rq, acks =>
    if word (rnext + rwind) < rqp.seq then .error .sequence
    else
      match nackUpTo rnext rqp.seq (256 - acks.length) acks with
      | .error failure => .error failure
      | .ok acks =>
        if acks.length = 255 then .error .wraps
        else if w.maxReceiveWindow % 256 < acks.length + 1 ∨ rwind < acks.length + 1 then .error .offset
        else ackScan rnext rwind rq (acks ++ [.ack])

namespace Call

def openWindow (s : Call) : Call :=
  if 1 < s.rnext then { s with rwind := w.maxReceiveWindow, connRwind := w.maxReceiveWindow } else s

def acksSent (s : Call) : Call := { s with nHardAcks := 0, nSoftAcks := 0, lastAcked := max s.lastAcked s.rnext }

def record (result : Except Failure AckPacket) (s : Call) : Call :=
  { s with built := s.built ++ [{ rnext := s.rnext, rwind := s.rwind, rq := s.rq, result := result }] }

/-- `rxi_SendAck`. Without `buffers` no acknowledgement is built. -/
def sendAck (serial : Nat) (reason : AckReason) (buffers : Bool) (s : Call) : Call :=
  let s := (s.openWindow w).acksSent
  if buffers = false then s
  else
    match ackScan w s.rnext s.rwind s.rq [] with
    | .error failure => (s.record (.error failure)).callError callDead
    | .ok acks =>
      s.record (.ok
        { firstPacket := s.rnext, previousPacket := s.rprev, serial := serial, reason := reason, acks := acks, rwind := s.rwind })

end Call

/-- A packet of a datagram, and whether there are buffers if it has to be acknowledged at once. -/
structure Arrival where
  packet : Packet
  buffers : Bool

structure Receiving where
  call : Call
  ackNeeded : Option AckReason
  newPackets : Bool

/-- Where the queue has the place of the packet, with its predecessor there, and whether packets are missing in front of it.
There is none for a packet that is in the queue. -/
def findPlace (p : Packet) : Nat → Bool → List Packet → Option (List Packet × Nat × Bool)
  | prev, missing, [] => some ([p], prev, missing)
  | prev, missing, tp :: rq =>
    if p.seq = tp.seq then none
    else if p.seq < tp.seq then some (p :: tp :: rq, prev, missing)
    else (findPlace p tp.seq (missing || tp.seq ≠ word (prev + 1)) rq).map fun found => (tp :: found.1, found.2)

/-- From `tseq` on, all packets up to the last one are in the queue. -/
def allReceived (tseq : Nat) (rq : List Packet) : Bool := closes Packet.seq Packet.last (2 ^ 32) tseq rq

namespace Receiving

def refuse (a : Arrival) (reason : AckReason) (r : Receiving) : Receiving :=
  { r with
    call := { r.call.sendAck w a.packet.serial reason a.buffers with rprev := a.packet.seq }
    ackNeeded := none }

def receiveNext (a : Arrival) (r : Receiving) : Receiving :=
  let p := a.packet
  let s := r.call
  if s.rq.head?.any (fun first => first.seq = p.seq) then r.refuse w a .duplicate
  else
    let haveLast := s.haveLast || p.last
    { call := { s with
        rq := p :: s.rq
        nSoftAcks := short (s.nSoftAcks + 1)
        haveLast := haveLast
        receiveDone := s.receiveDone || (haveLast && allReceived p.seq (p :: s.rq))
        rprev := p.seq }
      ackNeeded := if p.requestAck then some .requested else r.ackNeeded
      newPackets := true }

def receiveOther (a : Arrival) (r : Receiving) : Receiving :=
  let p := a.packet
  let s := r.call
  if p.seq < s.rnext then r.refuse w a .duplicate
  else if word (s.rnext + s.rwind) ≤ p.seq then r.refuse w a .exceedsWindow
  else
    match findPlace p (word (s.rnext + (2 ^ 32 - 1))) false s.rq with
    | none => r.refuse w a .duplicate
    | some (rq, prev, missing) =>
      let haveLast := s.haveLast || p.last
      { r with
        call := { s with
          rq := rq
          nSoftAcks := short (s.nSoftAcks + 1)
          haveLast := haveLast
          receiveDone := s.receiveDone || (haveLast && allReceived s.rnext rq)
          rprev := p.seq }
        ackNeeded :=
          if p.seq ≠ word (prev + 1) ∨ missing then some .outOfSequence
          else if p.requestAck then some .requested
          else r.ackNeeded }

def receivePacket (a : Arrival) (r : Receiving) : Receiving :=
  if a.packet.seq = r.call.rnext then r.receiveNext w a else r.receiveOther w a

/-- The packets of a datagram, and whether the loop came to its end. A call with an error is aborted instead. -/
def receivePackets : List Arrival → Receiving → Receiving × Bool
  | [], r => (r, true)
  | a :: arrivals, r => if r.call.error ≠ 0 then (r, false) else receivePackets arrivals (r.receivePacket w a)

end Receiving

namespace Call

def consume (p : Packet) (rq : List Packet) (s : Call) : Call :=
  { s with rq := rq, rnext := word (s.rnext + 1), nHardAcks := short (s.nHardAcks + 1), taken := s.taken ++ [p] }

/-- The loop of `rxi_FillReadVec`, with a result of `RXS_CheckPacket` for each packet that the vector has room for. The first flag tells
that packets were consumed, and the other one that a packet did not pass the check. -/
def fillVec : List Int → Bool → Call → Call × Bool × Bool
  | [], didConsume, s => (s, didConsume, false)
  | error :: checks, didConsume, s =>
    if s.error ≠ 0 then (s, didConsume, false)
    else
      match s.rq with
      | [] => (s, didConsume, false)
      | rp :: rq =>
        if rp.seq = s.rnext then
          if error ≠ 0 then ({ s with rq := rq }.callError error, didConsume, true)
          else fillVec checks true (s.consume rp rq)
        else (s, didConsume, false)

/-- `rxi_FillReadVec`, which tells whether an acknowledgement was sent. -/
def fillReadVec (serial : Nat) (checks : List Int) (buffers : Bool) (s : Call) : Call × Bool :=
  match s.fillVec checks false with
  | (s, _, true) => (s, true)
  | (s, didConsume, false) =>
    if didConsume && !s.receiveDone && decide (short w.hardAckRate < s.nHardAcks) then
      (s.sendAck w serial .delay buffers, true)
    else (s, false)

/-- `rxi_ReadProc` gets the next packet. The caller waits if there is none, or comes to the end. -/
def readProc (error : Int) (buffers : Bool) (s : Call) : Call :=
  if s.error ≠ 0 then s
  else
    match s.rq with
    | [] => s
    | rp :: rq =>
      if rp.seq = s.rnext then
        if error ≠ 0 then { s with rq := rq }.callError error
        else
          let s := s.consume rp rq
          if !s.receiveDone && decide (short w.hardAckRate < s.nHardAcks) then s.sendAck w 0 .delay buffers else s
      else s

/-- `rxi_ReceiveDataPacket` ends with an acknowledgement if one is needed or if there are enough packets. -/
def ackReceived (serial : Nat) (ackNeeded : Option AckReason) (buffers : Bool) (s : Call) : Call :=
  match ackNeeded with
  | some reason => s.sendAck w serial reason buffers
  | none => if short w.softAckRate < s.nSoftAcks then s.sendAck w serial .idle buffers else s

/-- `rxi_ReceiveDataPacket` for a datagram with the packets. `iovecWait` has the vector of a reader who waits with one. -/
def receiveDataPacket (first : Arrival) (others : List Arrival) (iovecWait : Option (List Int)) (vecBuffers buffers : Bool)
    (s : Call) : Call :=
  match Receiving.receivePackets w (first :: others) { call := s, ackNeeded := none, newPackets := false } with
  | (r, false) => r.call
  | (r, true) =>
    let serial := (others.getLastD first).packet.serial
    match r.newPackets, iovecWait with
    | true, some checks =>
      let filled := r.call.fillReadVec w serial checks vecBuffers
      if filled.1.error ≠ 0 then filled.1
      else filled.1.ackReceived w serial (if filled.2 then none else r.ackNeeded) buffers
    | _, _ => r.call.ackReceived w serial r.ackNeeded buffers

end Call

/-- What can happen to a call. Timers and pings send acknowledgements at any time, and any error can end the call. A call that is bound to
a connection gets the window of the channel, which earlier calls may have opened. -/
inductive Step where
  | receive (first : Arrival) (others : List Arrival) (iovecWait : Option (List Int)) (vecBuffers buffers : Bool)
  | read (error : Int) (buffers : Bool)
  | readv (checks : List Int) (buffers : Bool)
  | ack (serial : Nat) (reason : AckReason) (buffers : Bool)
  | error (error : Int)
  | reset
  | bind (opened : Bool)

namespace Call

def bound (opened : Bool) (s : Call) : Call :=
  { s with connRwind := if opened then w.maxReceiveWindow else w.initReceiveWindow }.reset

def step (s : Call) : Step → Call
  | .receive first others iovecWait vecBuffers buffers => s.receiveDataPacket w first others iovecWait vecBuffers buffers
  | .read error buffers => s.readProc w error buffers
  | .readv checks buffers => (s.fillReadVec w 0 checks buffers).1
  | .ack serial reason buffers => s.sendAck w serial reason buffers
  | .error error => s.callError error
  | .reset => s.reset
  | .bind opened => s.bound w opened

def run (steps : List Step) (s : Call) : Call := steps.foldl (step w) s

def new : Call :=
  { rq := [], rnext := 1, rwind := w.initReceiveWindow, rprev := 0, haveLast := false, receiveDone := false, nSoftAcks := 0
    nHardAcks := 0, lastAcked := 0, error := 0, connRwind := w.initReceiveWindow, taken := [], built := [] }

end Call

end OpenAFS.Rx.Receive
