import OpenAFS.Lib.Machine

namespace OpenAFS.Rx.Windows

open Function (update update_self update_of_ne)
open Lib

def short (n : Nat) : Nat := n % 2 ^ 16

def headerSize : Nat := 28
def jumboBufferSize : Nat := 1412
def jumboHeaderSize : Nat := 4
def udpHdrSize : Nat := 8
def ipv6FragHdrSize : Nat := 8
def maxPacketSize : Nat := 16384

/-- Variables of the program. Two packet sizes can be added in an `u_short`. -/
structure Globals where
  (maxSendWindow initSendWindow myMaxSendSize oldMaxPacketSize nSendFrags nRecvFrags nDgramPackets : Nat)
  (nackThreshold nDgramThreshold : Nat)
  windows : 2 ≤ maxSendWindow ∧ maxSendWindow < 2 ^ 16 ∧ 1 ≤ initSendWindow ∧ initSendWindow ≤ maxSendWindow
  sizes : 1 ≤ myMaxSendSize ∧ myMaxSendSize < 2 ^ 15 ∧ 1 ≤ oldMaxPacketSize ∧ oldMaxPacketSize < 2 ^ 15
  frags : 1 ≤ nSendFrags

structure Peer where
  (ifMTU natMTU maxMTU MTU ifDgramPackets maxDgramPackets nDgramPackets cwind congestSeq : Nat)

structure Call where
  (twind cwind nextCwind ssthresh nDgramPackets MTU nAcks nNacks nCwindAcks congestSeq : Nat)
  fastRecover : Bool

/-- A call with its peer and the window that its connection keeps for the channel. -/
structure Held where
  peer : Peer
  connTwind : Nat
  call : Call

variable (g : Globals)

def adjustIfMTU (mtu : Nat) : Nat :=
  let adjMTU := headerSize + jumboBufferSize + jumboHeaderSize
  if g.nRecvFrags = 1 ∧ g.nSendFrags = 1 ∨ mtu ≤ adjMTU then mtu
  else adjMTU + (mtu - adjMTU) / (jumboBufferSize + jumboHeaderSize) * (jumboBufferSize + jumboHeaderSize)

def adjustMaxMTU (mtu peerMaxMTU : Nat) : Nat := adjustIfMTU g (min (mtu * g.nSendFrags) peerMaxMTU)

def adjustDgramPackets (frags mtu : Nat) : Nat :=
  if mtu + ipv6FragHdrSize < jumboBufferSize + headerSize then 1
  else
    let maxMTU := min (frags * (mtu + udpHdrSize) - udpHdrSize) maxPacketSize
    let ends := headerSize + 2 * jumboBufferSize + jumboHeaderSize
    if maxMTU < ends then 1 else 2 + (maxMTU - ends) / (jumboBufferSize + jumboHeaderSize)

namespace Held

def setSizes (maxSize ifSize : Nat) (h : Held) : Held :=
  let natMTU := adjustIfMTU g (min ifSize h.peer.ifMTU)
  let tSize := adjustMaxMTU g natMTU (min maxSize g.myMaxSendSize)
  let peer := { h.peer with natMTU }
  if h.peer.maxMTU ≠ tSize then
    let congestSeq := if tSize < h.peer.maxMTU then short (h.peer.congestSeq + 1) else h.peer.congestSeq
    { h with
      peer := { peer with maxMTU := tSize, MTU := min tSize h.peer.MTU, congestSeq }
      call := { h.call with MTU := min h.call.MTU tSize } }
  else { h with peer }

def shrinkWindow (tSize : Nat) (h : Held) : Held :=
  let twind := short tSize
  { h with connTwind := twind, call := { h.call with twind, ssthresh := min twind h.call.ssthresh } }

def setWindow (tSize : Nat) (h : Held) : Held :=
  if tSize < h.call.twind then h.shrinkWindow tSize
  else if h.call.twind < tSize then { h with connTwind := short tSize, call := { h.call with twind := short tSize } }
  else h

/-- The number that a peer advertises is read as an `int`. -/
def maxDgramPackets (advertised : Nat) (peer : Peer) : Nat :=
  let most := min (min (if advertised < 2 ^ 31 then advertised else 0) g.nDgramPackets) peer.ifDgramPackets
  if peer.natMTU < peer.ifMTU then min most (adjustDgramPackets 1 peer.natMTU) else most

def setDgramPackets (advertised : Nat) (h : Held) : Held :=
  let maxDgramPackets := maxDgramPackets g advertised h.peer
  if 1 < maxDgramPackets then
    { h with peer := { h.peer with maxDgramPackets }, call := { h.call with MTU := jumboBufferSize + headerSize } }
  else { h with peer := { h.peer with maxDgramPackets := 1 }, call := { h.call with MTU := h.peer.natMTU } }

def noJumbograms (h : Held) : Held :=
  if 1 < h.peer.maxDgramPackets then { h with peer := { h.peer with maxDgramPackets := 1 } } else h

/-- What an ack packet says of the peer in the words behind its acks, as far as they go: the largest packet, the packets of its
interface, its window, and the packets of a jumbogram. -/
def readTrailer (h : Held) : List UInt32 → Held
  | [maxSize, ifSize] => (h.setSizes g maxSize.toNat ifSize.toNat).noJumbograms
  | [maxSize, ifSize, window] =>
    let h := h.setSizes g maxSize.toNat ifSize.toNat
    (if window.toNat < h.call.twind then h.shrinkWindow window.toNat else h).noJumbograms
  | maxSize :: ifSize :: window :: dgramPackets :: _ =>
    ((h.setSizes g maxSize.toNat ifSize.toNat).setWindow window.toNat).setDgramPackets g dgramPackets.toNat
  | _ =>
    if 1 < h.peer.maxDgramPackets ∨ h.peer.maxMTU ≠ g.oldMaxPacketSize then
      let MTU := g.oldMaxPacketSize
      let congestSeq := short (h.peer.congestSeq + 1)
      { h with
        peer := { h.peer with maxMTU := MTU, natMTU := MTU, MTU, maxDgramPackets := 1, nDgramPackets := 1, congestSeq }
        call := { h.call with MTU } }
    else h

end Held

namespace Call

/-- The packets that are missing, in datagrams, and the counts of the call. `none` is a division by zero. -/
def countAcks (nNacked newAckCount : Nat) (c : Call) : Option (Nat × Call) :=
  if nNacked ≠ 0 then
    if c.nDgramPackets = 0 then none
    else
      let nNacked := (nNacked + c.nDgramPackets - 1) / c.nDgramPackets
      let nNacks := short (c.nNacks + 1)
      some (nNacked, { c with nAcks := 0, nNacks := if nNacks < nNacked then short nNacked else nNacks })
  else some (0, { c with nAcks := short (c.nAcks + newAckCount), nNacks := 0 })

def growWindow (newAckCount : Nat) (c : Call) : Call :=
  if c.cwind < c.ssthresh then { c with cwind := min c.ssthresh (c.cwind + newAckCount), nCwindAcks := 0 }
  else
    let nCwindAcks := short (c.nCwindAcks + newAckCount)
    if c.cwind ≤ nCwindAcks then { c with nCwindAcks := 0, cwind := min (c.cwind + 1) g.maxSendWindow }
    else { c with nCwindAcks }

def growDatagrams (peer : Peer) (c : Call) : Call :=
  if g.nDgramThreshold < c.nAcks then
    if 1 < peer.maxDgramPackets then
      let nDgramPackets := if c.nDgramPackets < peer.maxDgramPackets then c.nDgramPackets + 1 else c.nDgramPackets
      { c with nDgramPackets, MTU := headerSize + jumboBufferSize, nAcks := 0 }
    else if c.MTU < peer.maxMTU then { c with MTU := min (short (c.MTU + peer.natMTU)) peer.maxMTU, nAcks := 0 }
    else { c with nAcks := 0 }
  else c

def clearTransmitQueue (c : Call) : Call :=
  if c.fastRecover then { c with fastRecover := false, cwind := c.nextCwind } else c

def setAcksInTransmitQueue (c : Call) : Call :=
  if c.fastRecover then { c with fastRecover := false, cwind := c.nextCwind, nextCwind := 0 } else c

end Call

def Peer.learn (newcall : Bool) (c : Call) (peer : Peer) : Peer :=
  if newcall = false ∧ c.congestSeq = peer.congestSeq then
    let nDgramPackets := max peer.nDgramPackets c.nDgramPackets
    { peer with cwind := max peer.cwind c.cwind, MTU := max peer.MTU c.MTU, nDgramPackets }
  else peer

def Call.inherit (peer : Peer) (c : Call) : Call :=
  { c with
    MTU := if 1 < peer.maxDgramPackets then headerSize + jumboBufferSize else peer.MTU
    cwind := min peer.cwind peer.nDgramPackets
    ssthresh := g.maxSendWindow, nDgramPackets := peer.nDgramPackets, congestSeq := peer.congestSeq }

structure Ack where
  trailer : List UInt32
  nNacked : Nat
  newAckCount : Nat

namespace Held

/-- `rxi_ReceiveAckPacket`. Where it enters the congestion recovery it may wait first; it goes on with `recover`. -/
def receiveAckPacket (ack : Ack) (h : Held) : Option Held :=
  let h := h.readTrailer g ack.trailer
  (h.call.countAcks ack.nNacked ack.newAckCount).map fun (nNacked, c) =>
    if c.fastRecover then
      if nNacked ≠ 0 then { h with call := { c with cwind := min (c.cwind + 1) g.maxSendWindow, nCwindAcks := 0 } }
      else { h with call := { c.setAcksInTransmitQueue with nAcks := 0, nCwindAcks := 0 } }
    else if nNacked ≠ 0 ∧ short g.nackThreshold ≤ c.nNacks then { h with call := c }
    else { h with call := (c.growWindow g ack.newAckCount).growDatagrams g h.peer }

def recover (h : Held) : Held :=
  let ssthresh := max 4 (min h.call.cwind h.call.twind) / 2
  let nDgramPackets := max 2 h.call.nDgramPackets / 2
  let congestSeq := short (h.peer.congestSeq + 1)
  { h with
    peer := { h.peer with MTU := h.call.MTU, cwind := ssthresh, nDgramPackets, congestSeq }
    call := { h.call with
      fastRecover := true, ssthresh, cwind := min (ssthresh + g.nackThreshold) g.maxSendWindow, nDgramPackets
      nextCwind := ssthresh, nAcks := 0, nNacks := 0, congestSeq } }

def resend (h : Held) : Held :=
  let MTU := if 1 < h.peer.maxDgramPackets then jumboBufferSize + headerSize else min h.peer.natMTU h.peer.maxMTU
  let congestSeq := short (h.peer.congestSeq + 1)
  { h with
    peer := { h.peer with MTU, cwind := 1, nDgramPackets := 1, congestSeq }
    call := { h.call with
      fastRecover := true, MTU, ssthresh := max 4 (min h.call.cwind h.call.twind) / 2, nDgramPackets := 1, cwind := 1
      nextCwind := 1, nAcks := 0, nNacks := 0, congestSeq } }

/-- `rxi_ResetCall`; `tqBusy` is `RX_CALL_TQ_BUSY` in `flags`. -/
def resetCall (newcall tqBusy : Bool) (h : Held) : Held :=
  let peer := h.peer.learn newcall h.call
  let c := h.call.inherit g peer
  let c := if tqBusy then { c with fastRecover := false } else c.clearTransmitQueue
  { h with peer, call := { c with twind := h.connTwind, nextCwind := 0, nAcks := 0, nNacks := 0, nCwindAcks := 0 } }

end Held

structure State where
  peer : Peer
  connTwind : Nat → Nat
  call : Nat → Option Call

inductive Step where
  /-- `rxi_NewCall`: the call is new, or has been reset when it was freed. -/
  | newCall
  | resetCall (newcall tqBusy : Bool)
  | ack (packet : Ack)
  | recover
  | resend
  | clearTransmitQueue
  | setAcksInTransmitQueue

def Held.step (h : Held) : Step → Option Held
  | .newCall => some (h.resetCall g true false)
  | .resetCall newcall tqBusy => some (h.resetCall g newcall tqBusy)
  | .ack packet => h.receiveAckPacket g packet
  | .recover => some (h.recover g)
  | .resend => some h.resend
  | .clearTransmitQueue => some { h with call := h.call.clearTransmitQueue }
  | .setAcksInTransmitQueue => some { h with call := h.call.setAcksInTransmitQueue }

def Step.subject (call : Option Call) : Step → Option Call
  | .newCall => some ⟨0, 0, 0, 0, 0, 0, 0, 0, 0, 0, false⟩
  | _ => call

def State.step (s : State) (a : Nat × Step) : Option State :=
  match a.2.subject (s.call a.1) with
  | some call => (Held.step g ⟨s.peer, s.connTwind a.1, call⟩ a.2).map fun h =>
      { peer := h.peer, connTwind := update s.connTwind a.1 h.connTwind, call := update s.call a.1 (some h.call) }
  | none => some s

structure State.Initial (s : State) : Prop where
  ifMTU : 1 ≤ s.peer.ifMTU ∧ s.peer.ifMTU ≤ g.myMaxSendSize
  natMTU : s.peer.natMTU = min s.peer.ifMTU g.oldMaxPacketSize
  maxMTU : s.peer.maxMTU = g.oldMaxPacketSize
  MTU : s.peer.MTU = min s.peer.natMTU s.peer.maxMTU
  nDgramPackets : s.peer.nDgramPackets = 1
  cwind : s.peer.cwind = 1
  connTwind : ∀ i, s.connTwind i = g.initSendWindow
  call : ∀ i, s.call i = none

def machine : Machine State (Nat × Step) where
  start := State.Initial g
  step := State.step g

/-- The sizes are not 0, and a window that is taken over is one of 1 to `W` packets. -/
def Advertised (W : Nat) : List UInt32 → Prop
  | [maxSize, ifSize] => maxSize ≠ 0 ∧ ifSize ≠ 0
  | [maxSize, ifSize, window] => maxSize ≠ 0 ∧ ifSize ≠ 0 ∧ window ≠ 0
  | maxSize :: ifSize :: window :: _ =>
    maxSize ≠ 0 ∧ ifSize ≠ 0 ∧ 1 ≤ short window.toNat ∧ short window.toNat ≤ W
  | _ => True

def Step.Advertises (W : Nat) : Step → Prop
  | .ack packet => Advertised W packet.trailer
  | _ => True

/-- The number of packets from `tfirst` on that `rxi_Start` may send, of which as many as `nSoftAcked` have been acked. -/
def Call.sends (nSoftAcked : Nat) (c : Call) : Nat := min (min c.twind c.cwind) (min c.twind (nSoftAcked + c.cwind))

structure Call.WellFormed (W : Nat) (c : Call) : Prop where
  cwind : 1 ≤ c.cwind ∧ c.cwind ≤ g.maxSendWindow
  twind : 1 ≤ c.twind ∧ c.twind ≤ W
  ssthresh : 1 ≤ c.ssthresh
  nDgramPackets : 1 ≤ c.nDgramPackets
  MTU : 1 ≤ c.MTU

structure Peer.Sound (p : Peer) : Prop where
  ifMTU : 1 ≤ p.ifMTU ∧ p.ifMTU < 2 ^ 15
  natMTU : 1 ≤ p.natMTU ∧ p.natMTU < 2 ^ 15
  maxMTU : 1 ≤ p.maxMTU ∧ p.maxMTU < 2 ^ 15
  MTU : 1 ≤ p.MTU
  nDgramPackets : 1 ≤ p.nDgramPackets
  cwind : 1 ≤ p.cwind ∧ p.cwind ≤ g.maxSendWindow

/-- `nextCwind` is the window that ends a recovery. -/
structure Call.Sound (W : Nat) (c : Call) : Prop extends c.WellFormed g W where
  limit : c.ssthresh ≤ g.maxSendWindow
  nextCwind : c.fastRecover → 1 ≤ c.nextCwind ∧ c.nextCwind ≤ g.maxSendWindow

structure Held.Sound (W : Nat) (h : Held) : Prop where
  peer : h.peer.Sound g
  window : 1 ≤ h.connTwind ∧ h.connTwind ≤ W
  call : h.call.Sound g W

variable {g} {W : Nat} {h : Held} {c : Call}

theorem adjustIfMTU_bounds (mtu : Nat) : adjustIfMTU g mtu ≤ mtu ∧ (1 ≤ mtu → 1 ≤ adjustIfMTU g mtu) := by
  unfold adjustIfMTU headerSize jumboBufferSize jumboHeaderSize
  dsimp only
  split
  · exact ⟨Nat.le_refl _, id⟩
  · omega

theorem jumbo_positive : 1 ≤ jumboBufferSize + headerSize := by decide

theorem positive {n : UInt32} (some : n ≠ 0) : 1 ≤ n.toNat := by
  by_contra none
  exact some (UInt32.toNat_inj.mp (by rw [UInt32.toNat_zero]; omega))

namespace Held

theorem Sound.setSizes (sound : h.Sound g W) {maxSize ifSize : Nat} (largest : 1 ≤ maxSize) (interface : 1 ≤ ifSize) :
    (h.setSizes g maxSize ifSize).Sound g W := by
  obtain ⟨peer, window, call⟩ := sound
  have sizes := g.sizes
  have nat := @adjustIfMTU_bounds g (min ifSize h.peer.ifMTU)
  have max := @adjustIfMTU_bounds g (min (adjustIfMTU g (min ifSize h.peer.ifMTU) * g.nSendFrags) (min maxSize g.myMaxSendSize))
  have ifMTU := peer.ifMTU
  have frags := Nat.mul_le_mul (nat.2 (by omega)) g.frags
  unfold Held.setSizes adjustMaxMTU
  dsimp only
  split
  · exact ⟨{ peer with natMTU := by dsimp only; omega, maxMTU := by dsimp only; omega, MTU := by have := peer.MTU; dsimp only; omega }, window,
      { call with MTU := by have := call.MTU; dsimp only; omega }⟩
  · exact ⟨{ peer with natMTU := by dsimp only; omega }, window, call⟩

theorem Sound.shrinkWindow (sound : h.Sound g W) {tSize : Nat} (least : 1 ≤ short tSize) (most : short tSize ≤ W) :
    (h.shrinkWindow tSize).Sound g W := by
  obtain ⟨peer, window, call⟩ := sound
  have limit : min (short tSize) h.call.ssthresh ≤ g.maxSendWindow := Nat.le_trans (Nat.min_le_right ..) call.limit
  exact ⟨peer, ⟨least, most⟩, { call with twind := ⟨least, most⟩, ssthresh := Nat.le_min.mpr ⟨least, call.ssthresh⟩, limit }⟩

theorem Sound.setWindow (sound : h.Sound g W) {tSize : Nat} (least : 1 ≤ short tSize) (most : short tSize ≤ W) :
    (h.setWindow tSize).Sound g W := by
  unfold Held.setWindow
  split
  · exact sound.shrinkWindow least most
  · split
    · exact ⟨sound.peer, ⟨least, most⟩, { sound.call with twind := ⟨least, most⟩ }⟩
    · exact sound

theorem Sound.setDgramPackets (sound : h.Sound g W) (advertised : Nat) : (h.setDgramPackets g advertised).Sound g W := by
  obtain ⟨peer, window, call⟩ := sound
  unfold Held.setDgramPackets
  dsimp only
  split
  · exact ⟨{ peer with }, window, { call with MTU := jumbo_positive }⟩
  · exact ⟨{ peer with }, window, { call with MTU := peer.natMTU.1 }⟩

theorem Sound.noJumbograms (sound : h.Sound g W) : h.noJumbograms.Sound g W := by
  unfold Held.noJumbograms
  split
  · exact ⟨{ sound.peer with }, sound.window, sound.call⟩
  · exact sound

theorem Sound.readTrailer (sound : h.Sound g W) (narrow : W < 2 ^ 16) {trailer : List UInt32} (fair : Advertised W trailer) :
    (h.readTrailer g trailer).Sound g W := by
  unfold Held.readTrailer
  split
  · exact (sound.setSizes (positive fair.1) (positive fair.2)).noJumbograms
  · next maxSize ifSize window =>
    obtain ⟨maxSize, ifSize, least⟩ := fair
    have sized := sound.setSizes (positive maxSize) (positive ifSize)
    have bounds := sized.call.twind
    have least := positive least
    refine Sound.noJumbograms ?_
    split
    · have same : short window.toNat = window.toNat := Nat.mod_eq_of_lt (by omega)
      exact sized.shrinkWindow (by omega) (by omega)
    · exact sized
  · obtain ⟨maxSize, ifSize, least, most⟩ := fair
    exact ((sound.setSizes (positive maxSize) (positive ifSize)).setWindow least most).setDgramPackets _
  · obtain ⟨peer, window, call⟩ := sound
    obtain ⟨-, -, old⟩ := g.sizes
    split
    · exact ⟨{ peer with natMTU := old, maxMTU := old, MTU := old.1, nDgramPackets := Nat.le_refl 1 }, window,
        { call with MTU := old.1 }⟩
    · exact ⟨peer, window, call⟩

end Held

namespace Call

theorem Sound.countAcks (sound : c.Sound g W) (nNacked newAckCount : Nat) :
    ∃ n c', c.countAcks nNacked newAckCount = some (n, c') ∧ c'.Sound g W := by
  unfold Call.countAcks
  have some := sound.nDgramPackets
  split
  · rw [if_neg (by omega)]
    exact ⟨_, _, rfl, { sound with }⟩
  · exact ⟨_, _, rfl, { sound with }⟩

theorem Sound.growWindow (sound : c.Sound g W) (newAckCount : Nat) : (c.growWindow g newAckCount).Sound g W := by
  have cwind := sound.cwind
  have limit := sound.limit
  unfold Call.growWindow
  dsimp only
  split
  · exact { sound with cwind := by dsimp only; omega }
  · split
    · exact { sound with cwind := by dsimp only; omega }
    · exact { sound with }

theorem Sound.growDatagrams (sound : c.Sound g W) {peer : Peer} (known : peer.Sound g) :
    (c.growDatagrams g peer).Sound g W := by
  obtain ⟨-, nat, max, -⟩ := known
  unfold Call.growDatagrams
  split
  · split
    · exact { sound with MTU := jumbo_positive, nDgramPackets := by dsimp only; split <;> omega }
    split
    · have sum : short (c.MTU + peer.natMTU) = c.MTU + peer.natMTU := Nat.mod_eq_of_lt (by omega)
      exact { sound with MTU := by dsimp only; omega }
    · exact { sound with }
  · exact sound

theorem Sound.clearTransmitQueue (sound : c.Sound g W) : c.clearTransmitQueue.Sound g W := by
  unfold Call.clearTransmitQueue
  split
  · next recovering => exact { sound with cwind := sound.nextCwind recovering, nextCwind := nofun }
  · exact sound

theorem Sound.setAcksInTransmitQueue (sound : c.Sound g W) : c.setAcksInTransmitQueue.Sound g W := by
  unfold Call.setAcksInTransmitQueue
  split
  · next recovering => exact { sound with cwind := sound.nextCwind recovering, nextCwind := nofun }
  · exact sound

end Call

namespace Held

theorem Sound.receiveAckPacket (sound : h.Sound g W) (narrow : W < 2 ^ 16) {ack : Ack} (fair : Advertised W ack.trailer) :
    ∃ h', h.receiveAckPacket g ack = some h' ∧ h'.Sound g W := by
  have read := sound.readTrailer narrow fair
  obtain ⟨peer, window, call⟩ := read
  obtain ⟨n, c, counted, kept⟩ := call.countAcks ack.nNacked ack.newAckCount
  unfold Held.receiveAckPacket
  dsimp only
  rw [counted]
  refine ⟨_, rfl, ?_⟩
  dsimp only
  have cwind := kept.cwind
  split
  · split
    · exact ⟨peer, window, { kept with cwind := by dsimp only; omega }⟩
    · exact ⟨peer, window, { kept.setAcksInTransmitQueue with }⟩
  · split
    · exact ⟨peer, window, kept⟩
    · exact ⟨peer, window, (kept.growWindow _).growDatagrams peer⟩

theorem Sound.recover (sound : h.Sound g W) : (h.recover g).Sound g W := by
  obtain ⟨peer, window, call⟩ := sound
  have windows := g.windows
  have cwind := call.cwind
  have limit : max 4 (min h.call.cwind h.call.twind) / 2 ≤ g.maxSendWindow := by omega
  have ssthresh : 1 ≤ max 4 (min h.call.cwind h.call.twind) / 2 := by omega
  have nDgramPackets : 1 ≤ max 2 h.call.nDgramPackets / 2 := by omega
  exact ⟨{ peer with MTU := call.MTU, cwind := ⟨ssthresh, limit⟩, nDgramPackets }, window,
    { call with ssthresh, limit, cwind := by unfold Held.recover; dsimp only; omega, nDgramPackets, nextCwind := fun _ => ⟨ssthresh, limit⟩ }⟩

theorem Sound.resend (sound : h.Sound g W) : h.resend.Sound g W := by
  obtain ⟨peer, window, call⟩ := sound
  have windows := g.windows
  have cwind := call.cwind
  have one : 1 ≤ 1 ∧ 1 ≤ g.maxSendWindow := by omega
  have nat := peer.natMTU
  have largest := peer.maxMTU
  have MTU : 1 ≤ h.resend.call.MTU := by
    unfold Held.resend
    dsimp only
    split
    · exact jumbo_positive
    · omega
  have limit : max 4 (min h.call.cwind h.call.twind) / 2 ≤ g.maxSendWindow := by omega
  have ssthresh : 1 ≤ max 4 (min h.call.cwind h.call.twind) / 2 := by omega
  exact ⟨{ peer with MTU, cwind := one, nDgramPackets := Nat.le_refl 1 }, window,
    { call with ssthresh, limit, cwind := one, nDgramPackets := Nat.le_refl 1, nextCwind := fun _ => one, MTU }⟩

theorem Sound.resetCall (peer : h.peer.Sound g) (window : 1 ≤ h.connTwind ∧ h.connTwind ≤ W) (cwind : h.call.cwind ≤ g.maxSendWindow)
    (nextCwind : h.call.fastRecover → 1 ≤ h.call.nextCwind ∧ h.call.nextCwind ≤ g.maxSendWindow) (newcall tqBusy : Bool) :
    (h.resetCall g newcall tqBusy).Sound g W := by
  have known : (h.peer.learn newcall h.call).Sound g := by
    have least := peer.cwind
    unfold Peer.learn
    split
    · exact { peer with
        cwind := by dsimp only; omega
        MTU := Nat.le_trans peer.MTU (Nat.le_max_left ..)
        nDgramPackets := Nat.le_trans peer.nDgramPackets (Nat.le_max_left ..) }
    · exact peer
  have first := known.cwind
  have nDgramPackets := known.nDgramPackets
  have inherited : Call.Sound g W { h.call.inherit g (h.peer.learn newcall h.call) with twind := h.connTwind } := by
    refine ⟨⟨?_, window, ?_, nDgramPackets, ?_⟩, Nat.le_refl _, nextCwind⟩ <;> unfold Call.inherit <;> dsimp only
    · omega
    · omega
    · split
      · exact jumbo_positive
      · exact known.MTU
  refine ⟨known, window, ?_⟩
  unfold Held.resetCall Call.clearTransmitQueue
  dsimp only
  split
  · exact { inherited with nextCwind := nofun }
  · split
    · next recovering => exact { inherited with cwind := nextCwind recovering, nextCwind := nofun }
    · next quiet => exact { inherited with nextCwind := fun on => absurd on quiet }

theorem Sound.step (sound : h.Sound g W) (narrow : W < 2 ^ 16) {a : Step} (fair : a.Advertises W) :
    ∃ h', h.step g a = some h' ∧ h'.Sound g W := by
  obtain ⟨peer, window, call⟩ := sound
  cases a with
  | newCall => exact ⟨_, rfl, .resetCall peer window call.cwind.2 call.nextCwind true false⟩
  | resetCall newcall tqBusy => exact ⟨_, rfl, .resetCall peer window call.cwind.2 call.nextCwind newcall tqBusy⟩
  | ack packet => exact Sound.receiveAckPacket ⟨peer, window, call⟩ narrow fair
  | recover => exact ⟨_, rfl, Sound.recover ⟨peer, window, call⟩⟩
  | resend => exact ⟨_, rfl, Sound.resend ⟨peer, window, call⟩⟩
  | clearTransmitQueue => exact ⟨_, rfl, ⟨peer, window, call.clearTransmitQueue⟩⟩
  | setAcksInTransmitQueue => exact ⟨_, rfl, ⟨peer, window, call.setAcksInTransmitQueue⟩⟩

end Held

namespace State

variable (g) in
structure Sound (W : Nat) (s : State) : Prop where
  peer : s.peer.Sound g
  window : ∀ i, 1 ≤ s.connTwind i ∧ s.connTwind i ≤ W
  call : ∀ i c, s.call i = some c → c.Sound g W

variable {s : State}

theorem Initial.sound (fresh : s.Initial g) (least : g.maxSendWindow ≤ W) : s.Sound g W := by
  obtain ⟨ifMTU, natMTU, maxMTU, MTU, nDgramPackets, cwind, connTwind, call⟩ := fresh
  have windows := g.windows
  have sizes := g.sizes
  refine ⟨⟨?_, ?_, ?_, ?_, ?_, ?_⟩, fun i => ?_, fun i c known => ?_⟩
  · omega
  · omega
  · omega
  · omega
  · omega
  · omega
  · rw [connTwind]
    omega
  · rw [call] at known
    cases known

theorem Sound.step (sound : s.Sound g W) (narrow : W < 2 ^ 16) {a : Nat × Step} (fair : a.2.Advertises W) :
    ∃ s', s.step g a = some s' ∧ s'.Sound g W := by
  obtain ⟨i, a⟩ := a
  unfold State.step
  cases subject : a.subject (s.call i) with
  | none => exact ⟨s, rfl, sound⟩
  | some call =>
    have stepped : ∃ h', (Held.mk s.peer (s.connTwind i) call).step g a = some h' ∧ h'.Sound g W := by
      cases a with
      | newCall =>
        cases subject
        exact ⟨_, rfl, .resetCall sound.peer (sound.window i) (Nat.zero_le _) (fun on => absurd on Bool.false_ne_true) true false⟩
      | _ => exact Held.Sound.step ⟨sound.peer, sound.window i, sound.call i call subject⟩ narrow fair
    obtain ⟨h', taken, kept⟩ := stepped
    dsimp only
    rw [taken]
    refine ⟨_, rfl, kept.peer, fun j => ?_, fun j c known => ?_⟩
    · dsimp only
      by_cases same : j = i
      · rw [same, update_self]
        exact kept.window
      · rw [update_of_ne same]
        exact sound.window j
    dsimp only at known
    by_cases same : j = i
    · rw [same, update_self] at known
      cases known
      exact kept.call
    · rw [update_of_ne same] at known
      exact sound.call j c known

end State

def defaults : Globals := ⟨64, 16, 8588, 1444, 4, 4, 6, 3, 4, by decide, by decide, by decide⟩

def start : State := ⟨⟨1444, 1444, 1444, 1444, 2, 1, 1, 1, 0⟩, fun _ => 16, fun _ => none⟩

theorem start_initial : start.Initial defaults := ⟨by decide, rfl, rfl, rfl, rfl, rfl, fun _ => rfl, fun _ => rfl⟩

def advertise (window : UInt32) : Nat × Step := (0, .ack ⟨[1444, 1444, window, 1], 0, 1⟩)

end OpenAFS.Rx.Windows
