import Mathlib.Data.List.Perm.Basic
import Mathlib.Data.UInt

namespace OpenAFS.Rx

open List

open Function (update update_self update_of_ne)

abbrev PacketId := Nat

inductive Base where
  | null
  | wirehead (p : PacketId)
  | localdata (p : PacketId)
  deriving DecidableEq, Repr

structure Iovec where
  base : Base
  len : Nat
  deriving DecidableEq, Repr

structure PacketHeader where
  epoch : UInt32
  cid : UInt32
  callNumber : UInt32
  seq : UInt32
  serial : UInt32
  type : UInt8
  flags : UInt8
  securityIndex : UInt8
  serviceId : UInt16
  spare : UInt16
  deriving DecidableEq, Repr

/-- `wirevec` is the array, of which `niovecs` elements are in use. Times that were never set are 0. -/
structure Packet where
  header : PacketHeader
  flags : UInt8
  backoff : UInt8
  retryTime : Nat
  firstSent : Nat
  length : Nat
  niovecs : Nat
  wirevec : List Iovec
  localdata : List UInt8
  deriving DecidableEq, Repr

def pktFlagAcked : UInt8 := 1
def pktFlagFree : UInt8 := 2
def pktFlagTq : UInt8 := 4
def pktFlagRq : UInt8 := 8
def pktFlagIovq : UInt8 := 16
def pktFlagCp : UInt8 := 32

def clientInitiated : UInt8 := 1
def lastPacket : UInt8 := 4
def packetTypeData : UInt8 := 1

/-- `preparePacket` is the operation of the security object, if it has one. -/
structure Connection where
  epoch : UInt32
  cid : UInt32
  serviceId : UInt16
  securityIndex : UInt8
  client : Bool
  securityHeaderSize : Nat
  preparePacket : Option (Packet → Packet)

/-- `callNumber` is the number in the connection that the call points to. -/
structure SendCall where
  conn : Connection
  channel : UInt32
  callNumber : UInt32
  tnext : UInt32

structure Packets where
  packet : PacketId → Packet
  freeQueue : List PacketId
  ownQueue : List PacketId

/-- How many packets a thread may have in its queue, and how many it passes on at once. -/
structure QueueLimits where
  localMax : Nat
  globSize : Nat
  three : 3 * globSize ≤ localMax

namespace Packets

variable (s : Packets)

def set (p : PacketId) (packet : Packet) : Packets := { s with packet := update s.packet p packet }

/-- `RX_FPQ_MARK_FREE`, which panics for a packet that is already free. -/
def markFree (p : PacketId) : Option Packets :=
  let packet := s.packet p
  if packet.flags &&& pktFlagFree ≠ 0 then none
  else some (s.set p { packet with
    flags := (packet.flags ||| pktFlagFree) &&& ~~~(pktFlagTq ||| pktFlagIovq ||| pktFlagRq ||| pktFlagCp)
    length := 0
    niovecs := 0 })

def checkIn (p : PacketId) : Option Packets := { s with ownQueue := p :: s.ownQueue }.markFree p

/-- `RX_TS_FPQ_LTOG`: the last packets of the own queue go to the front of the other one. -/
def localToGlobal (limits : QueueLimits) : Packets :=
  let tsize := s.ownQueue.length + 3 * limits.globSize - limits.localMax
  let kept := s.ownQueue.length - tsize
  { s with ownQueue := s.ownQueue.take kept, freeQueue := s.ownQueue.drop kept ++ s.freeQueue }

def freePacketNoLock (p : PacketId) : Option Packets :=
  (s.markFree p).map fun s => { s with freeQueue := s.freeQueue ++ [p] }

/-- The loop of `rxi_FreeDataBufsNoLock` and `rxi_FreeDataBufsTSFPQ`: each iovec points into the packet that it is the buffer of. -/
def freeBufs (free : Packets → PacketId → Option Packets) : List Iovec → Packets → Option Packets
  | [], s => some s
  | v :: rest, s =>
    match v.base with
    | .localdata cb => (free s cb).bind (freeBufs free rest)
    | _ => none

def emptied (p : PacketId) : Packets := s.set p { s.packet p with length := 0, niovecs := 0 }

def freeDataBufsNoLock (p : PacketId) (first : Nat) : Option Packets :=
  (freeBufs freePacketNoLock (((s.packet p).wirevec.take (s.packet p).niovecs).drop (max 2 first)) s).map (·.emptied p)

def freeDataBufsTsfpq (limits : QueueLimits) (p : PacketId) (first : Nat) (flushGlobal : Bool) : Option Packets :=
  (freeBufs checkIn (((s.packet p).wirevec.take (s.packet p).niovecs).drop (max 2 first)) s).map fun s =>
    let s := s.emptied p
    if flushGlobal ∧ limits.localMax < s.ownQueue.length then s.localToGlobal limits else s

/-- The one of the two that the program has; `tsfpq` has the limits if there are threads. -/
def freeDataBufs (tsfpq : Option QueueLimits) (p : PacketId) (first : Nat) : Option Packets :=
  match tsfpq with
  | some limits => s.freeDataBufsTsfpq limits p first true
  | none => s.freeDataBufsNoLock p first

end Packets

/-- The loop over the iovecs that hold data: how many bytes are left, and the index it stops at. -/
def trim (len : Int) (i : Nat) : List Iovec → Int × Nat
  | [] => (len, i)
  | v :: rest => if 0 < len then trim (len - v.len) (i + 1) rest else (len, i)

def stamp (call : SendCall) (last : Bool) (callNumber : UInt32) (packet : Packet) : Packet :=
  let conn := call.conn
  { packet with
    flags := packet.flags &&& ~~~pktFlagAcked
    header := { packet.header with
      cid := conn.cid ||| call.channel
      serviceId := conn.serviceId
      securityIndex := conn.securityIndex
      callNumber := callNumber
      seq := call.tnext
      epoch := conn.epoch
      type := packetTypeData
      flags := (if conn.client then clientInitiated else 0) ||| (if last then lastPacket else 0)
      spare := 0
      serial := 0 }
    retryTime := 0
    firstSent := 0
    backoff := 0 }

def adjust (len : Int) (i : Nat) (packet : Packet) : Packet :=
  if len ≠ 0 then { packet with wirevec := packet.wirevec.modify (i - 1) fun v => { v with len := (v.len + len).toNat } }
  else packet

/-- `rxi_PrepareSendPacket`; `none` is a panic. -/
def prepareSendPacket (tsfpq : Option QueueLimits) (call : SendCall) (p : PacketId) (last : Bool) (s : Packets) :
    Option (SendCall × Packets) :=
  -- No data packets on call 0.
  let callNumber := if call.callNumber = 0 then 1 else call.callNumber
  let packet := stamp call last callNumber (s.packet p)
  let s := s.set p packet
  let call := { call with callNumber := callNumber, tnext := call.tnext + 1 }
  let (len, i) := trim (packet.length + call.conn.securityHeaderSize) 1 ((packet.wirevec.take packet.niovecs).drop 1)
  if 0 < len then none
  else
    let freed :=
      if i < packet.niovecs then
        (s.freeDataBufs tsfpq p i).map fun s => s.set p { s.packet p with niovecs := i }
      else some s
    freed.map fun s => (call, s.set p ((call.conn.preparePacket.getD id) (adjust len i (s.packet p))))

def Base.buffer? : Base → Option PacketId
  | .localdata p => some p
  | _ => none

def buffers (vs : List Iovec) : List PacketId := vs.filterMap fun v => v.base.buffer?

def size (vs : List Iovec) : Nat := (vs.map Iovec.len).sum

def holding (n : Nat) : List Iovec → Nat
  | [] => 0
  | v :: rest => if n = 0 then 0 else holding (n - v.len) rest + 1

def cut (n : Nat) : List Iovec → List Iovec
  | [] => []
  | v :: rest => if n = 0 then [] else if n ≤ v.len then [{ v with len := n }] else v :: cut (n - v.len) rest

namespace Packets

variable (s : Packets) (p : PacketId)

def iovecs : List Iovec := (s.packet p).wirevec.take (s.packet p).niovecs
def dataIovecs : List Iovec := (s.iovecs p).drop 1

def bytes : Base → List UInt8
  | .localdata q => (s.packet q).localdata
  | _ => []

def contents (vs : List Iovec) : List UInt8 := vs.flatMap fun v => (s.bytes v.base).take v.len

def pool : List PacketId := s.freeQueue ++ s.ownQueue

def continuations : List PacketId := buffers ((s.dataIovecs p).drop 1)

def spare : List PacketId := buffers ((s.dataIovecs p).drop (max 1 (holding (s.packet p).length (s.dataIovecs p))))

/-- A packet as `rx_WriteProc` builds it: the first buffer is its own, the others are those of packets in use, and the data fit. -/
structure Built : Prop where
  two : 2 ≤ (s.iovecs p).length
  all : (s.iovecs p).length = (s.packet p).niovecs
  inside : ∀ v ∈ (s.dataIovecs p).drop 1, ∃ cb, v.base = .localdata cb
  used : ∀ cb ∈ s.continuations p, (s.packet cb).flags &&& pktFlagFree = 0
  distinct : (p :: s.continuations p ++ s.pool).Nodup
  fits : ∀ v ∈ s.dataIovecs p, v.len ≤ (s.bytes v.base).length
  room : (s.packet p).length ≤ size (s.dataIovecs p)

end Packets

structure Intact (headerSize : Nat) (p : PacketId) (s s' : Packets) : Prop where
  length : (s'.packet p).length = (s.packet p).length
  data : s'.contents (s'.dataIovecs p) = (s.contents (s.dataIovecs p)).take (s.packet p).length
  covers : size (s'.dataIovecs p) = (s.packet p).length + headerSize
  freed : s'.pool.Perm (s.spare p ++ s.pool)
  owned : (s'.continuations p ++ s'.pool).Perm (s.continuations p ++ s.pool)
  once : (s'.continuations p ++ s'.pool).Nodup

theorem size_cons (v : Iovec) (vs : List Iovec) : size (v :: vs) = v.len + size vs := rfl

theorem holding_le (n : Nat) (vs : List Iovec) : holding n vs ≤ vs.length := by
  induction vs generalizing n with
  | nil => exact Nat.le_refl 0
  | cons v vs ih =>
    have rest := ih (n - v.len)
    rw [holding, length_cons]
    split <;> omega

theorem holding_zero (vs : List Iovec) : holding 0 vs = 0 := by
  cases vs <;> rfl

theorem trim_eq (len : Int) (i : Nat) (vs : List Iovec) :
    trim len i vs = (len - size (vs.take (holding len.toNat vs)), i + holding len.toNat vs) := by
  induction vs generalizing len i with
  | nil => simp [trim, holding, size]
  | cons v vs ih =>
    by_cases more : 0 < len
    · have some : len.toNat ≠ 0 := by omega
      have left : (len - v.len).toNat = len.toNat - v.len := by omega
      rw [trim, if_pos more, ih, holding, if_neg some, take_succ_cons, size_cons, left]
      ext
      · omega
      · omega
    · have none : len.toNat = 0 := by omega
      rw [trim, if_neg more, holding, if_pos none]
      simp [size]

variable {n : Nat} {vs : List Iovec}

theorem le_size_holding (room : n ≤ size vs) : n ≤ size (vs.take (holding n vs)) := by
  induction vs generalizing n with
  | nil => exact room
  | cons v vs ih =>
    rw [size_cons] at room
    rw [holding]
    split
    · omega
    · have rest := ih (n := n - v.len) (by omega)
      rw [take_succ_cons, size_cons]
      omega

theorem modify_last (more : 0 < n) (room : n ≤ size vs) {d : Int} (left : d = n - size (vs.take (holding n vs))) :
    (vs.take (holding n vs)).modify (holding n vs - 1) (fun v => { v with len := (v.len + d).toNat }) = cut n vs := by
  induction vs generalizing n with
  | nil => exact absurd room (by simp [size]; omega)
  | cons v vs ih =>
    have some : n ≠ 0 := by omega
    rw [size_cons] at room
    rw [holding, if_neg some, take_succ_cons, size_cons] at left
    rw [holding, if_neg some, take_succ_cons, Nat.add_sub_cancel, cut, if_neg some]
    by_cases last : n ≤ v.len
    · have zero : n - v.len = 0 := by omega
      rw [zero, holding_zero] at left ⊢
      have len : ((v.len : Int) + d).toNat = n := by
        simp only [take_zero, size, map_nil, sum_nil] at left
        omega
      rw [if_pos last, take_zero]
      show [{ v with len := ((v.len : Int) + d).toNat }] = _
      rw [len]
    have rest := ih (n := n - v.len) (by omega) (by omega) (by push_cast at left ⊢; omega)
    have one : 1 ≤ holding (n - v.len) vs := by
      cases vs with
      | nil => exact absurd room (by simp [size]; omega)
      | cons w ws =>
        rw [holding, if_neg (by omega)]
        omega
    obtain ⟨k, k_eq⟩ : ∃ k, holding (n - v.len) vs = k + 1 := ⟨holding (n - v.len) vs - 1, by omega⟩
    rw [k_eq, Nat.add_sub_cancel] at rest
    rw [if_neg last, k_eq, ← rest]
    rfl

theorem adjust_fields (len : Int) (i : Nat) (packet : Packet) :
    (adjust len i packet).niovecs = packet.niovecs ∧ (adjust len i packet).length = packet.length ∧
      (adjust len i packet).localdata = packet.localdata := by
  unfold adjust
  split <;> exact ⟨rfl, rfl, rfl⟩

theorem iovecs_adjust {packet : Packet} {header : Iovec} {k : Nat} {d : Int} (k_eq : k = holding n vs)
    (room : n ≤ size vs) (count : packet.niovecs = 1 + k) (front : packet.wirevec.take packet.niovecs = header :: vs.take k)
    (left : d = n - size (vs.take k)) :
    (adjust d (1 + k) packet).wirevec.take (adjust d (1 + k) packet).niovecs = header :: cut n vs := by
  rw [(adjust_fields _ _ _).1]
  by_cases zero : n = 0
  · subst zero
    rw [holding_zero] at k_eq
    subst k_eq
    have none : d = 0 := by simpa [size] using left
    have nothing : cut 0 vs = [] := by cases vs <;> rfl
    unfold adjust
    rw [if_neg (not_not.2 none), front, nothing]
    rfl
  have modified : (adjust d (1 + k) packet).wirevec = packet.wirevec.modify k fun v => { v with len := (v.len + d).toNat } := by
    unfold adjust
    by_cases none : d = 0
    · rw [if_neg (not_not.2 none), none]
      exact (modify_id _ _).symm
    · rw [if_pos none, Nat.add_sub_cancel_left]
  have some : k = k - 1 + 1 := by
    rw [k_eq]
    cases vs with
    | nil => exact absurd room (by simp [size]; omega)
    | cons v vs => rw [holding, if_neg zero]; rfl
  rw [modified, take_modify, front, some, modify_succ_cons, ← some]
  subst k_eq
  rw [modify_last (by omega) room left]

theorem size_cut (room : n ≤ size vs) : size (cut n vs) = n := by
  induction vs generalizing n with
  | nil => exact (Nat.le_zero.1 room).symm
  | cons v vs ih =>
    rw [size_cons] at room
    rw [cut]
    split
    · next zero => exact zero.symm
    split
    · rfl
    · rw [size_cons, ih (by omega)]
      omega

theorem map_base_cut : (cut n vs).map Iovec.base = (vs.take (holding n vs)).map Iovec.base := by
  induction vs generalizing n with
  | nil => rfl
  | cons v vs ih =>
    rw [cut, holding]
    split
    · rfl
    split
    · next last =>
      have zero : n - v.len = 0 := by omega
      rw [zero, holding_zero]
      rfl
    · rw [take_succ_cons, map_cons, map_cons, ih]

theorem buffers_congr {ws : List Iovec} (same : vs.map Iovec.base = ws.map Iovec.base) : buffers vs = buffers ws := by
  have through (vs : List Iovec) : buffers vs = (vs.map Iovec.base).filterMap Base.buffer? := by
    rw [filterMap_map]
    rfl
  rw [through, through, same]

theorem Packets.contents_cut (s : Packets) (fits : ∀ v ∈ vs, v.len ≤ (s.bytes v.base).length) :
    s.contents (cut n vs) = (s.contents vs).take n := by
  induction vs generalizing n with
  | nil => exact List.take_nil.symm
  | cons v vs ih =>
    have full : ((s.bytes v.base).take v.len).length = v.len := by
      rw [length_take]
      exact Nat.min_eq_left (fits v mem_cons_self)
    have whole : s.contents (v :: vs) = (s.bytes v.base).take v.len ++ s.contents vs := rfl
    rw [cut, whole]
    split
    · next zero =>
      rw [zero]
      rfl
    split
    · next last =>
      rw [take_append_of_le_length (by omega), take_take, Nat.min_eq_left last]
      exact append_nil _
    · rw [take_append, full, take_of_length_le (i := n) (by omega), ← ih fun w later => fits w (mem_cons_of_mem v later)]
      rfl

namespace Packets

structure Freed (ids : List PacketId) (s s' : Packets) : Prop where
  pool : s'.pool.Perm (ids ++ s.pool)
  others : ∀ q ∉ ids, s'.packet q = s.packet q
  localdata : ∀ q, (s'.packet q).localdata = (s.packet q).localdata

theorem Freed.trans {ids ids' : List PacketId} {s t u : Packets} (first : Freed ids s t) (second : Freed ids' t u) :
    Freed (ids ++ ids') s u where
  pool := by
    refine second.pool.trans ((first.pool.append_left ids').trans ?_)
    rw [← append_assoc]
    exact List.perm_append_comm.append_right s.pool
  others q outside := by
    rw [mem_append, not_or] at outside
    rw [second.others q outside.2, first.others q outside.1]
  localdata q := (second.localdata q).trans (first.localdata q)

variable {s : Packets} {cb q : PacketId}

theorem packet_set (w : Packet) : (s.set cb w).packet cb = w := update_self ..

theorem packet_set_other (other : q ≠ cb) (w : Packet) : (s.set cb w).packet q = s.packet q := update_of_ne other ..

theorem localdata_set {w : Packet} (same : w.localdata = (s.packet cb).localdata) (q : PacketId) :
    ((s.set cb w).packet q).localdata = (s.packet q).localdata := by
  by_cases here : q = cb
  · rw [here, packet_set, same]
  · rw [packet_set_other here]

section

variable (used : (s.packet cb).flags &&& pktFlagFree = 0)
include used

theorem markFree_eq :
    ∃ t, s.markFree cb = some t ∧ t.freeQueue = s.freeQueue ∧ t.ownQueue = s.ownQueue ∧
      (∀ q, q ≠ cb → t.packet q = s.packet q) ∧ ∀ q, (t.packet q).localdata = (s.packet q).localdata :=
  ⟨_, if_neg (not_not.2 used), rfl, rfl, fun _ other => packet_set_other other _, localdata_set rfl⟩

theorem checkIn_freed : ∃ t, s.checkIn cb = some t ∧ Freed [cb] s t := by
  obtain ⟨t, run, free, own, others, same⟩ := markFree_eq (s := { s with ownQueue := cb :: s.ownQueue }) used
  refine ⟨t, run, ?_, fun q outside => others q (by simpa using outside), same⟩
  unfold pool
  rw [free, own]
  exact perm_middle

theorem freePacketNoLock_freed :
    ∃ t, s.freePacketNoLock cb = some t ∧ Freed [cb] s t := by
  obtain ⟨t, run, free, own, others, same⟩ := markFree_eq used
  refine ⟨{ t with freeQueue := t.freeQueue ++ [cb] }, by rw [freePacketNoLock, run]; rfl, ?_,
    fun q outside => others q (by simpa using outside), same⟩
  rw [free, own]
  exact List.perm_append_comm.append_right s.ownQueue

end

theorem freeBufs_freed {free : Packets → PacketId → Option Packets}
    (one : ∀ (s : Packets) cb, (s.packet cb).flags &&& pktFlagFree = 0 → ∃ t, free s cb = some t ∧ Freed [cb] s t)
    {vs : List Iovec} {s : Packets} (inside : ∀ v ∈ vs, ∃ cb, v.base = .localdata cb)
    (used : ∀ cb ∈ buffers vs, (s.packet cb).flags &&& pktFlagFree = 0) (distinct : (buffers vs).Nodup) :
    ∃ t, freeBufs free vs s = some t ∧ Freed (buffers vs) s t := by
  induction vs generalizing s with
  | nil => exact ⟨s, rfl, List.Perm.refl _, fun _ _ => rfl, fun _ => rfl⟩
  | cons v vs ih =>
    obtain ⟨cb, base⟩ := inside v mem_cons_self
    have split : buffers (v :: vs) = cb :: buffers vs := by
      unfold buffers
      rw [filterMap_cons, base]
      rfl
    rw [split] at used distinct ⊢
    obtain ⟨outside, distinct⟩ := List.nodup_cons.1 distinct
    obtain ⟨t, run, first⟩ := one s cb (used cb mem_cons_self)
    have still : ∀ q ∈ buffers vs, (t.packet q).flags &&& pktFlagFree = 0 := fun q member => by
      rw [first.others q (by rw [mem_singleton]; rintro rfl; exact outside member)]
      exact used q (mem_cons_of_mem cb member)
    obtain ⟨u, rest, second⟩ := ih (fun w later => inside w (mem_cons_of_mem v later)) still distinct
    refine ⟨u, ?_, first.trans second⟩
    rw [freeBufs, base]
    show (free s cb).bind _ = _
    rw [run]
    exact rest

theorem pool_localToGlobal (s : Packets) (limits : QueueLimits) : (s.localToGlobal limits).pool.Perm s.pool := by
  unfold pool localToGlobal
  refine (List.perm_append_comm.append_right _).trans ?_
  rw [append_assoc]
  refine List.Perm.append_left s.freeQueue ?_
  refine List.perm_append_comm.trans ?_
  rw [take_append_drop]

theorem dataBufs_freed (tsfpq : Option QueueLimits) {s : Packets} {p : PacketId} {first : Nat} {vs : List Iovec}
    (behind : (s.iovecs p).drop (max 2 first) = vs) (inside : ∀ v ∈ vs, ∃ cb, v.base = .localdata cb)
    (used : ∀ cb ∈ buffers vs, (s.packet cb).flags &&& pktFlagFree = 0) (distinct : (p :: buffers vs).Nodup) :
    ∃ t, s.freeDataBufs tsfpq p first = some t ∧
      t.pool.Perm (buffers vs ++ s.pool) ∧ t.packet p = { s.packet p with length := 0, niovecs := 0 } ∧
        ∀ q, (t.packet q).localdata = (s.packet q).localdata := by
  obtain ⟨outside, distinct⟩ := List.nodup_cons.1 distinct
  have emptied_eq {t : Packets} (freed : Freed (buffers vs) s t) :
      (t.emptied p).packet p = { s.packet p with length := 0, niovecs := 0 } := by
    rw [emptied, packet_set, freed.others p outside]
  have emptied_localdata {t : Packets} (freed : Freed (buffers vs) s t) (q : PacketId) :
      ((t.emptied p).packet q).localdata = (s.packet q).localdata :=
    (localdata_set (by rfl) q).trans (freed.localdata q)
  cases tsfpq with
  | some limits =>
    obtain ⟨t, run, freed⟩ := freeBufs_freed (fun _ _ => checkIn_freed) inside used distinct
    have result : s.freeDataBufs (some limits) p first =
        some (if true ∧ limits.localMax < (t.emptied p).ownQueue.length then (t.emptied p).localToGlobal limits else t.emptied p) := by
      unfold freeDataBufs freeDataBufsTsfpq
      unfold iovecs at behind
      rw [behind, run]
      rfl
    refine ⟨_, result, ?_⟩
    split
    · exact ⟨((t.emptied p).pool_localToGlobal limits).trans freed.pool, emptied_eq freed, emptied_localdata freed⟩
    · exact ⟨freed.pool, emptied_eq freed, emptied_localdata freed⟩
  | none =>
    obtain ⟨t, run, freed⟩ := freeBufs_freed (fun _ _ => freePacketNoLock_freed) inside used distinct
    have result : s.freeDataBufs none p first = some (t.emptied p) := by
      unfold freeDataBufs freeDataBufsNoLock
      unfold iovecs at behind
      rw [behind, run, Option.map_some]
    exact ⟨_, result, freed.pool, emptied_eq freed, emptied_localdata freed⟩

end Packets

section

variable {s : Packets} {p : PacketId} {call : SendCall}

theorem prepareSendPacket_eq (tsfpq : Option QueueLimits) (last : Bool) (built : s.Built p)
    (noHeader : call.conn.securityHeaderSize = 0) (noOperation : call.conn.preparePacket = none) :
    ∃ call' t, prepareSendPacket tsfpq call p last s = some (call', t) ∧ t.pool.Perm (s.spare p ++ s.pool) ∧
      t.iovecs p = (s.iovecs p).take 1 ++ cut (s.packet p).length (s.dataIovecs p) ∧
      ((t.packet p).length = if holding (s.packet p).length (s.dataIovecs p) < (s.dataIovecs p).length then 0
        else (s.packet p).length) ∧
      ∀ q, (t.packet q).localdata = (s.packet q).localdata := by
  have two := built.two
  have all := built.all
  have room := built.room
  obtain ⟨header, vs, split⟩ : ∃ header vs, s.iovecs p = header :: vs := exists_cons_of_length_pos (by omega)
  have data : s.dataIovecs p = vs := by
    unfold Packets.dataIovecs
    rw [split]
    rfl
  have length : vs.length + 1 = (s.packet p).niovecs := by rw [← all, split, length_cons]
  rw [data] at room ⊢
  have few := holding_le (s.packet p).length vs
  have enough := le_size_holding room
  obtain ⟨k, k_eq⟩ : ∃ k, k = holding (s.packet p).length vs := ⟨_, rfl⟩
  rw [← k_eq] at few enough ⊢
  have front : (s.packet p).wirevec.take (1 + k) = header :: vs.take k := by
    have less : 1 + k ≤ (s.packet p).niovecs := by omega
    rw [← Nat.min_eq_left less, ← take_take, Nat.add_comm]
    show (s.iovecs p).take _ = _
    rw [split, take_succ_cons]
  obtain ⟨d, left⟩ : ∃ d : Int, d = (s.packet p).length - size (vs.take k) := ⟨_, rfl⟩
  let packet := stamp call last (if call.callNumber = 0 then 1 else call.callNumber) (s.packet p)
  let t := s.set p packet
  have here : t.packet p = packet := Packets.packet_set _
  have trimmed : trim (packet.length + call.conn.securityHeaderSize) 1 ((packet.wirevec.take packet.niovecs).drop 1) =
      (d, 1 + k) := by
    rw [noHeader]
    show trim ((s.packet p).length : Int) 1 (s.dataIovecs p) = _
    rw [trim_eq, Int.toNat_natCast, data, ← k_eq, left]
  -- What is left to do is the same whether or not buffers were freed.
  have finish (u : Packets) (count : (u.packet p).niovecs = 1 + k) (array : (u.packet p).wirevec = (s.packet p).wirevec)
      (same : ∀ q, (u.packet q).localdata = (s.packet q).localdata) {w : Packet} (w_eq : w = adjust d (1 + k) (u.packet p)) :
      (u.set p w).iovecs p = (s.iovecs p).take 1 ++ cut (s.packet p).length vs ∧
        ((u.set p w).packet p).length = (u.packet p).length ∧ ∀ q, ((u.set p w).packet q).localdata = (s.packet q).localdata := by
    obtain ⟨-, fields, localdata⟩ := w_eq ▸ adjust_fields d (1 + k) (u.packet p)
    refine ⟨?_, by rw [Packets.packet_set, fields], fun q => (Packets.localdata_set localdata q).trans (same q)⟩
    rw [Packets.iovecs, Packets.packet_set, w_eq, iovecs_adjust k_eq room count (by rw [count, array, front]) left, split]
    rfl
  have same : ∀ q, (t.packet q).localdata = (s.packet q).localdata := Packets.localdata_set rfl
  have spare_eq : s.spare p = buffers (vs.drop (max 1 k)) := by rw [Packets.spare, data, k_eq]
  have through : prepareSendPacket tsfpq call p last s = (if 1 + k < packet.niovecs then
        (t.freeDataBufs tsfpq p (1 + k)).map fun u => u.set p { u.packet p with niovecs := 1 + k }
      else some t).map fun u =>
        ({ call with callNumber := if call.callNumber = 0 then 1 else call.callNumber, tnext := call.tnext + 1 },
          u.set p (adjust d (1 + k) (u.packet p))) := by
    unfold prepareSendPacket
    dsimp only
    rw [trimmed]
    rw [if_neg (by omega), noOperation, Option.getD_none]
    rfl
  rw [through, spare_eq]
  have count : packet.niovecs = (s.packet p).niovecs := rfl
  by_cases more : k < vs.length
  · rw [if_pos (by omega : 1 + k < packet.niovecs), if_pos more]
    have behind : (t.iovecs p).drop (max 2 (1 + k)) = vs.drop (max 1 k) := by
      have place : max 2 (1 + k) = max 1 k + 1 := by omega
      unfold Packets.iovecs
      rw [here, place]
      show (s.iovecs p).drop _ = _
      rw [split, drop_succ_cons]
    have part : vs.drop (max 1 k) = (vs.drop 1).drop (max 1 k - 1) := by
      rw [drop_drop]
      congr 1
      omega
    have inside := built.inside
    have used := built.used
    have distinct := built.distinct
    unfold Packets.continuations at used distinct
    rw [data] at inside used distinct
    have sub : (buffers (vs.drop (max 1 k))).Sublist (buffers (vs.drop 1)) := by
      rw [part]
      exact (drop_sublist ..).filterMap _
    have own : (p :: buffers (vs.drop (max 1 k))).Nodup :=
      distinct.sublist ((sub.cons_cons p).trans (sublist_append_left _ _))
    obtain ⟨u, run, free, packet_eq, localdata⟩ := Packets.dataBufs_freed tsfpq behind
      (fun v member => inside v (mem_of_mem_drop (part ▸ member)))
      (fun cb member => by
        have other : cb ≠ p := fun same => (List.nodup_cons.1 own).1 (same ▸ member)
        rw [Packets.packet_set_other other]
        exact used cb (sub.subset member))
      own
    rw [run, Option.map_some, Option.map_some]
    obtain ⟨cut_eq, length_eq, localdata_eq⟩ := finish (u.set p { u.packet p with niovecs := 1 + k })
      (by rw [Packets.packet_set]) (by rw [Packets.packet_set, packet_eq, here]; rfl)
      (fun q => (Packets.localdata_set (by rfl) q).trans ((localdata q).trans (same q))) rfl
    refine ⟨_, _, rfl, free, cut_eq, ?_, localdata_eq⟩
    rw [length_eq, Packets.packet_set, packet_eq]
  · rw [if_neg (by omega : ¬1 + k < packet.niovecs), if_neg more]
    have whole : max 1 k = vs.length := by omega
    obtain ⟨cut_eq, length_eq, localdata_eq⟩ := finish t (by rw [here, count]; omega) (by rw [here]; rfl) same rfl
    refine ⟨_, _, rfl, ?_, cut_eq, ?_, localdata_eq⟩
    · rw [whole, drop_length]
      exact List.Perm.refl _
    · rw [length_eq, here]
      rfl

theorem buffers_append (vs ws : List Iovec) : buffers (vs ++ ws) = buffers vs ++ buffers ws := filterMap_append

theorem buffers_eq_nil {vs : List Iovec} (inside : ∀ v ∈ vs, ∃ cb, v.base = .localdata cb) : buffers vs = [] ↔ vs = [] := by
  refine ⟨fun none => List.eq_nil_iff_forall_not_mem.2 fun v member => ?_, fun none => none ▸ rfl⟩
  obtain ⟨cb, base⟩ := inside v member
  have found : v.base.buffer? = some cb := by
    rw [base]
    rfl
  exact absurd (List.filterMap_eq_nil_iff.1 none v member) (by rw [found]; exact Option.some_ne_none cb)

theorem kept_append_spare (s : Packets) (p : PacketId) :
    buffers (((s.dataIovecs p).take (holding (s.packet p).length (s.dataIovecs p))).drop 1) ++ s.spare p = s.continuations p := by
  unfold Packets.spare Packets.continuations
  generalize holding (s.packet p).length (s.dataIovecs p) = k
  cases k with
  | zero => rfl
  | succ k =>
    have place : max 1 (k + 1) = 1 + k := by omega
    rw [← buffers_append, drop_take, place, ← drop_drop, Nat.add_sub_cancel, take_append_drop]

/-- A packet of the null security object is made ready without losing anything exactly if it is empty or has no buffer beyond its
    data. -/
theorem payload_kept (tsfpq : Option QueueLimits) (last : Bool) (built : s.Built p)
    (noHeader : call.conn.securityHeaderSize = 0) (noOperation : call.conn.preparePacket = none) :
    (∃ call' t, prepareSendPacket tsfpq call p last s = some (call', t) ∧ Intact call.conn.securityHeaderSize p s t) ↔
      (s.packet p).length = 0 ∨ s.spare p = [] := by
  obtain ⟨call', t, run, free, iovecs, length, localdata⟩ := prepareSendPacket_eq tsfpq last built noHeader noOperation
  have two := built.two
  have room := built.room
  have first : ((s.iovecs p).take 1).length = 1 := by
    rw [length_take]
    omega
  have after : t.dataIovecs p = cut (s.packet p).length (s.dataIovecs p) := by
    unfold Packets.dataIovecs
    rw [iovecs, drop_left' first]
    rfl
  have bytes (b : Base) : t.bytes b = s.bytes b := by
    cases b with
    | localdata q => exact localdata q
    | null => rfl
    | wirehead q => rfl
  have contents : t.contents (t.dataIovecs p) = (s.contents (s.dataIovecs p)).take (s.packet p).length := by
    rw [← s.contents_cut built.fits, after]
    unfold Packets.contents
    simp only [bytes]
  have stays : t.continuations p = buffers (((s.dataIovecs p).take (holding (s.packet p).length (s.dataIovecs p))).drop 1) := by
    unfold Packets.continuations
    rw [after]
    refine buffers_congr ?_
    rw [map_drop, map_base_cut, map_drop]
  have owned : (t.continuations p ++ t.pool).Perm (s.continuations p ++ s.pool) := by
    rw [stays, ← kept_append_spare, append_assoc]
    exact free.append_left _
  have distinct : (s.continuations p ++ s.pool).Nodup := (List.nodup_cons.1 built.distinct).2
  have length_iff : (t.packet p).length = (s.packet p).length ↔ (s.packet p).length = 0 ∨ s.spare p = [] := by
    have inside : ∀ v ∈ (s.dataIovecs p).drop (max 1 (holding (s.packet p).length (s.dataIovecs p))), ∃ cb, v.base = .localdata cb :=
      fun v member => built.inside v (by
        have more : max 1 (holding (s.packet p).length (s.dataIovecs p)) =
            1 + (max 1 (holding (s.packet p).length (s.dataIovecs p)) - 1) := by omega
        rw [more, ← drop_drop] at member
        exact mem_of_mem_drop member)
    have one : 1 ≤ (s.dataIovecs p).length := by
      unfold Packets.dataIovecs
      rw [length_drop]
      omega
    have some_holding : (s.packet p).length ≠ 0 → 1 ≤ holding (s.packet p).length (s.dataIovecs p) := by
      obtain ⟨v, vs, split⟩ := exists_cons_of_length_pos one
      rw [split]
      intro some
      rw [holding, if_neg some]
      omega
    unfold Packets.spare
    rw [length, buffers_eq_nil inside, drop_eq_nil_iff]
    split
    · next more => omega
    · next whole => exact iff_of_true rfl (.inr (by omega))
  rw [← length_iff]
  constructor
  · rintro ⟨call'', t', run', intact⟩
    rw [run] at run'
    cases run'
    exact intact.length
  · intro same
    exact ⟨call', t, run, same, contents, by rw [after, size_cut room, noHeader]; rfl, free, owned, owned.nodup_iff.2 distinct⟩

end

def twoBuffers (length : Nat) : Packets where
  packet q :=
    { header :=
        { epoch := 0, cid := 0, callNumber := 0, seq := 0, serial := 0, type := 0, flags := 0, securityIndex := 0
          serviceId := 0, spare := 0 }
      flags := if q = 0 then pktFlagCp else 0
      backoff := 0
      retryTime := 0
      firstSent := 0
      length := if q = 0 then length else 0
      niovecs := if q = 0 then 3 else 2
      wirevec :=
        if q = 0 then [⟨.wirehead 0, 28⟩, ⟨.localdata 0, 1416⟩, ⟨.localdata 1, 1416⟩]
        else [⟨.wirehead q, 28⟩, ⟨.localdata q, 1416⟩]
      localdata := List.replicate 1416 7 }
  freeQueue := []
  ownQueue := []

def nullCall : SendCall where
  conn :=
    { epoch := 1
      cid := 4
      serviceId := 1
      securityIndex := 0
      client := true
      securityHeaderSize := 0
      preparePacket := none }
  channel := 0
  callNumber := 1
  tnext := 1

theorem twoBuffers_built {length : Nat} (room : length ≤ 2832) : (twoBuffers length).Built 0 where
  two := by
    show 2 ≤ 3
    decide
  all := rfl
  inside v member := by
    exact ⟨1, by rw [List.mem_singleton.1 member]⟩
  used cb member := by
    rw [List.mem_singleton.1 member]
    show (0 : UInt8) &&& pktFlagFree = 0
    decide
  distinct := by
    show [0, 1].Nodup
    decide
  fits v member := by
    have here : (twoBuffers length).dataIovecs 0 = [⟨.localdata 0, 1416⟩, ⟨.localdata 1, 1416⟩] := rfl
    have full (q : PacketId) : ((twoBuffers length).bytes (.localdata q)).length = 1416 := length_replicate
    rw [here, mem_cons, mem_singleton] at member
    rcases member with rfl | rfl
    · exact Nat.le_of_eq (full 0).symm
    · exact Nat.le_of_eq (full 1).symm
  room := room

theorem payload_kept_twoBuffers : (∃ call' t, prepareSendPacket none nullCall 0 true (twoBuffers 2000) = some (call', t) ∧
        Intact nullCall.conn.securityHeaderSize 0 (twoBuffers 2000) t) ↔
      ((twoBuffers 2000).packet 0).length = 0 ∨ (twoBuffers 2000).spare 0 = [] :=
  payload_kept none true (twoBuffers_built (by decide)) rfl rfl

/-- With 100 bytes the second buffer is spare, and the length is lost. -/
theorem length_lost :
    (twoBuffers 100).Built 0 ∧ (prepareSendPacket none nullCall 0 true (twoBuffers 100)).map (fun r => (r.2.packet 0).length) = some 0 ∧
      ((twoBuffers 100).packet 0).length = 100 :=
  ⟨twoBuffers_built (by decide), by decide +kernel, rfl⟩

end OpenAFS.Rx
