import OpenAFS.Rx.ReceiveQueue

namespace OpenAFS.Rx.Receive

open Lib.Numbered

/-- Of the packets that have arrived, in the order of their numbers, one is the last packet of the call, and none is missing before it. -/
def Complete (arrived : List Packet) : Prop := Closed Packet.seq Packet.last (2 ^ 32) 1 arrived

/-- An acknowledgement is exact. None is refused for an offset beyond the window; the number of a packet is only found to be beyond it
where the window reaches the greatest word. -/
def Built.Exact (b : Built) : Prop :=
  match b.result with
  | .ok ap =>
    ap.firstPacket = b.rnext ∧ ap.nAcks ≤ b.rwind ∧ (∀ i < ap.nAcks, ap.acks[i]? = some .ack ↔ ∃ p ∈ b.rq, p.seq = b.rnext + i) ∧
      ∀ p ∈ b.rq, p.seq < b.rnext + ap.nAcks
  | .error failure => failure = .sequence ∧ 2 ^ 32 ≤ b.rnext + b.rwind

structure Held (w : Settings) (s : Call) : Prop where
  rwind_pos : 0 < s.rwind
  rwind_le : s.rwind ≤ w.maxReceiveWindow
  conn_pos : 0 < s.connRwind
  conn_le : s.connRwind ≤ w.maxReceiveWindow
  counts : Counts Packet.seq (2 ^ 32) 1 s.taken
  rnext : s.rnext = word (1 + s.taken.length)
  increasing : s.rq.Pairwise (fun p q => p.seq < q.seq)
  window : ∀ p ∈ s.rq, s.rnext ≤ p.seq ∧ p.seq < s.rnext + s.rwind
  last : (s.taken ++ s.rq).any Packet.last = true → s.haveLast = true
  done : s.receiveDone = (s.taken.any Packet.last || allReceived s.rnext s.rq)
  built : ∀ b ∈ s.built, b.Exact

variable {w : Settings}

theorem nackUpTo_eq {rnext seq rounds : Nat} {acks : List AckType} (small : seq < 2 ^ 32) (start : rnext + acks.length ≤ seq)
    (enough : seq < rnext + acks.length + rounds) :
    nackUpTo rnext seq rounds acks = .ok (acks ++ List.replicate (seq - (rnext + acks.length)) .nack) := by
  induction rounds generalizing acks with
  | zero => omega
  | succ rounds ih =>
    have exact_sum : word (rnext + acks.length) = rnext + acks.length := Nat.mod_eq_of_lt (by omega)
    rw [nackUpTo, exact_sum]
    by_cases more : rnext + acks.length < seq
    · have longer : (acks ++ [AckType.nack]).length = acks.length + 1 := List.length_append
      have left : seq - (rnext + acks.length) = seq - (rnext + (acks.length + 1)) + 1 := by omega
      rw [if_pos more, ih (by rw [longer]; omega) (by rw [longer]; omega), longer, left, List.replicate_succ, List.append_assoc,
        List.singleton_append]
    · have none_left : seq - (rnext + acks.length) = 0 := by omega
      rw [if_neg more, none_left, List.replicate_zero, List.append_nil]

theorem ackScan_cases {rnext rwind : Nat} {rq : List Packet} {acks : List AckType} (fits : rwind ≤ w.maxReceiveWindow)
    (increasing : rq.Pairwise (fun p q => p.seq < q.seq))
    (low : ∀ p ∈ rq, rnext + acks.length ≤ p.seq) (high : ∀ p ∈ rq, p.seq < rnext + rwind) :
    ackScan w rnext rwind rq acks = .ok (acks ++ marks .nack .ack (rnext + acks.length) (rq.map Packet.seq)) ∨
      ackScan w rnext rwind rq acks = .error .sequence ∧ 2 ^ 32 ≤ rnext + rwind := by
  induction rq generalizing acks with
  | nil => simp [ackScan, marks]
  | cons rqp rq ih =>
    have byte := w.max_le
    have first_low := low rqp List.mem_cons_self
    have first_high := high rqp List.mem_cons_self
    have small := rqp.seq_lt
    by_cases beyond : word (rnext + rwind) < rqp.seq
    · refine .inr ⟨by rw [ackScan, if_pos beyond], ?_⟩
      by_contra below
      have exact_sum : word (rnext + rwind) = rnext + rwind := Nat.mod_eq_of_lt (by omega)
      omega
    rw [List.pairwise_cons] at increasing
    let gap := rqp.seq - (rnext + acks.length)
    have inner : nackUpTo rnext rqp.seq (256 - acks.length) acks = .ok (acks ++ List.replicate gap .nack) :=
      nackUpTo_eq small first_low (by omega)
    have count : (acks ++ List.replicate gap AckType.nack).length = rqp.seq - rnext := by
      rw [List.length_append, List.length_replicate]
      omega
    have unfolded : ackScan w rnext rwind (rqp :: rq) acks =
        ackScan w rnext rwind rq (acks ++ List.replicate gap AckType.nack ++ [AckType.ack]) := by
      rw [ackScan, if_neg beyond, inner]
      simp only [count]
      rw [if_neg (by omega), if_neg (by omega)]
    have now : (acks ++ List.replicate gap AckType.nack ++ [AckType.ack]).length = rqp.seq - rnext + 1 := by
      rw [List.length_append, count, List.length_singleton]
    have later : rnext + (rqp.seq - rnext + 1) = rqp.seq + 1 := by omega
    have rest := @ih (acks ++ List.replicate gap AckType.nack ++ [AckType.ack]) increasing.2
      (fun p member => by rw [now, later]; exact increasing.1 p member)
      (fun p member => high p (List.mem_cons_of_mem rqp member))
    rw [now, later] at rest
    rw [unfolded]
    refine rest.imp_left fun scanned => ?_
    rw [scanned, List.map_cons, marks, List.append_assoc, List.append_assoc, List.singleton_append]

section Building

variable {s : Call}

variable (held : Held w s)
include held

theorem Held.scan : ackScan w s.rnext s.rwind s.rq [] = .ok (marks .nack .ack s.rnext (s.rq.map Packet.seq)) ∨
      ackScan w s.rnext s.rwind s.rq [] = .error .sequence ∧ 2 ^ 32 ≤ s.rnext + s.rwind := by
  have low : ∀ p ∈ s.rq, s.rnext + ([] : List AckType).length ≤ p.seq := fun p member => (held.window p member).1
  simpa using ackScan_cases held.rwind_le held.increasing low fun p member => (held.window p member).2

theorem Held.marks_exact (previous serial : Nat) (reason : AckReason) : Built.Exact
      { rnext := s.rnext, rwind := s.rwind, rq := s.rq
        result := .ok
          { firstPacket := s.rnext, previousPacket := previous, serial := serial, reason := reason
            acks := marks .nack .ack s.rnext (s.rq.map Packet.seq), rwind := s.rwind } } := by
  have increasing : (s.rq.map Packet.seq).Pairwise (· < ·) := List.pairwise_map.mpr held.increasing
  have above : ∀ n ∈ s.rq.map Packet.seq, s.rnext ≤ n :=
    List.forall_mem_map.mpr fun p member => (held.window p member).1
  have below : ∀ n ∈ s.rq.map Packet.seq, n < s.rnext + s.rwind :=
    List.forall_mem_map.mpr fun p member => (held.window p member).2
  refine ⟨rfl, marks_length_le increasing above below, fun i _ => ?_, fun p member => ?_⟩
  · rw [marks_hit (by decide) increasing above i, List.mem_map]
  · exact marks_beyond increasing above p.seq (List.mem_map_of_mem member)

theorem Held.record {result : Except Failure AckPacket}
    (right : Built.Exact { rnext := s.rnext, rwind := s.rwind, rq := s.rq, result := result }) : Held w (s.record result) where
  __ := held
  built b member := by
    rcases List.mem_append.mp member with old | new
    · exact held.built b old
    · rw [List.mem_singleton.mp new]
      exact right

theorem Held.reset : Held w s.reset where
  rwind_pos := held.conn_pos
  rwind_le := held.conn_le
  conn_pos := held.conn_pos
  conn_le := held.conn_le
  counts i within := absurd within (Nat.not_lt_zero i)
  rnext := rfl
  increasing := List.Pairwise.nil
  window _ member := absurd member List.not_mem_nil
  last found := absurd found Bool.false_ne_true
  done := rfl
  built := held.built

theorem Held.callError (error : Int) : Held w (s.callError error) where
  __ := held.reset

theorem Held.openWindow : Held w (s.openWindow w) := by
  rw [Call.openWindow]
  split
  · have positive : 0 < w.maxReceiveWindow := Nat.lt_of_lt_of_le w.init_pos w.init_le
    have wider := held.rwind_le
    exact
      { held with
        rwind_pos := positive
        rwind_le := Nat.le_refl _
        conn_pos := positive
        conn_le := Nat.le_refl _
        window := fun p member => ⟨(held.window p member).1, by have := (held.window p member).2; dsimp only; omega⟩ }
  · exact held

theorem Held.sendAck (serial : Nat) (reason : AckReason) (buffers : Bool) :
    Held w (s.sendAck w serial reason buffers) := by
  have opened : Held w (s.openWindow w).acksSent := { held.openWindow with }
  rw [Call.sendAck]
  generalize (s.openWindow w).acksSent = s at opened
  split
  · exact opened
  rcases opened.scan with scanned | ⟨scanned, wraps⟩
  · rw [scanned]
    exact opened.record (opened.marks_exact s.rprev serial reason)
  · rw [scanned]
    have failed : Held w (s.record (.error .sequence)) := opened.record ⟨rfl, wraps⟩
    exact failed.callError callDead

theorem Held.accept {p : Packet} {before after : List Packet} (parts : s.rq = before ++ after)
    (low : s.rnext ≤ p.seq) (room : p.seq < s.rnext + s.rwind)
    (less : ∀ q ∈ before, q.seq < p.seq) (more : ∀ q ∈ after, p.seq < q.seq) (nSoftAcks rprev : Nat) :
    Held w { s with
      rq := before ++ p :: after
      nSoftAcks := nSoftAcks
      haveLast := s.haveLast || p.last
      receiveDone := s.receiveDone || ((s.haveLast || p.last) && allReceived s.rnext (before ++ p :: after))
      rprev := rprev } := by
  have members : ∀ q, q ∈ before ++ p :: after ↔ q = p ∨ q ∈ s.rq := by
    intro q
    rw [parts]
    simp only [List.mem_append, List.mem_cons]
    tauto
  have anyLast : (before ++ p :: after).any Packet.last = (p.last || s.rq.any Packet.last) := by
    rw [parts, List.any_append, List.any_append, List.any_cons, Bool.or_left_comm]
  have lastKept : (s.taken.any Packet.last || s.rq.any Packet.last) = true → s.haveLast = true := by
    have kept := held.last
    rwa [List.any_append] at kept
  have stays : allReceived s.rnext s.rq = true → allReceived s.rnext (before ++ p :: after) = true := by
    rw [parts]
    exact closes_insert low p.seq_lt less more
  have found : allReceived s.rnext (before ++ p :: after) = true → (s.haveLast || p.last) = true := by
    intro all
    have some_last := any_of_closes all
    rw [anyLast] at some_last
    cases own : p.last
    · rw [own, Bool.false_or] at some_last
      simp [lastKept (by simp [some_last])]
    · simp
  exact
    { held with
      increasing := by
        have sorted := held.increasing
        rw [parts, List.pairwise_append] at sorted
        have cross : ∀ q ∈ before, ∀ r ∈ p :: after, q.seq < r.seq := by
          intro q left r right
          rcases List.mem_cons.mp right with rfl | right
          · exact less q left
          · exact sorted.2.2 q left r right
        exact List.pairwise_append.mpr ⟨sorted.1, List.pairwise_cons.mpr ⟨more, sorted.2.1⟩, cross⟩
      window := by
        intro q member
        rcases (members q).mp member with rfl | member
        · exact ⟨low, room⟩
        · exact held.window q member
      last := by
        intro any
        rw [List.any_append, anyLast] at any
        cases own : p.last
        · simpa using lastKept (by simpa [own] using any)
        · simp
      done := by
        have before_done := held.done
        rw [before_done]
        cases taken : s.taken.any Packet.last
        · cases all : allReceived s.rnext (before ++ p :: after)
          · have none_before : allReceived s.rnext s.rq = false := by
              by_contra received
              rw [stays (by simpa using received)] at all
              exact absurd all (by decide)
            simp [none_before]
          · simp [found all]
        · simp }

theorem Held.consume {p : Packet} {rq : List Packet} (queue : s.rq = p :: rq) (next : p.seq = s.rnext) :
    Held w (s.consume p rq) := by
  have sorted := held.increasing
  rw [queue, List.pairwise_cons] at sorted
  have within : ∀ q ∈ rq, s.rnext < q.seq ∧ q.seq < s.rnext + s.rwind := by
    intro q member
    have window := held.window q (by rw [queue]; exact List.mem_cons_of_mem p member)
    exact ⟨next ▸ sorted.1 q member, window.2⟩
  have arrived : s.taken ++ s.rq = (s.taken ++ [p]) ++ rq := by rw [queue, List.append_assoc, List.singleton_append]
  have number : p.seq = (1 + s.taken.length) % 2 ^ 32 := next.trans held.rnext
  have nextNumber : word (s.rnext + 1) = word (1 + (s.taken ++ [p]).length) := by
    rw [held.rnext, List.length_append, List.length_singleton, word, word, word, Nat.mod_add_mod, Nat.add_assoc]
  exact
    { held with
      counts := held.counts.snoc number
      rnext := nextNumber
      increasing := sorted.2
      window := by
        intro q member
        have inside := within q member
        have bound := q.seq_lt
        have up : word (s.rnext + 1) = s.rnext + 1 := Nat.mod_eq_of_lt (by omega)
        simp only [Call.consume, up]
        omega
      last := by
        intro any
        refine held.last ?_
        rw [arrived]
        exact any
      done := by
        have one : (1 : Nat) < 2 ^ 32 := by decide
        have old := held.done
        rw [allReceived, held.rnext, word, ← held.counts.closes_append one, arrived,
          (held.counts.snoc number).closes_append one] at old
        simp only [Call.consume, allReceived, nextNumber]
        exact old }

end Building

theorem findPlace_spec {p : Packet} {prev : Nat} {missing : Bool} {rq : List Packet} {found : List Packet × Nat × Bool}
    (increasing : rq.Pairwise (fun p q => p.seq < q.seq)) (place : findPlace p prev missing rq = some found) :
    ∃ before after, rq = before ++ after ∧ found.1 = before ++ p :: after ∧
      (∀ q ∈ before, q.seq < p.seq) ∧ ∀ q ∈ after, p.seq < q.seq := by
  induction rq generalizing prev missing found with
  | nil =>
    cases place
    exact ⟨[], [], rfl, rfl, by simp, by simp⟩
  | cons tp rq ih =>
    rw [List.pairwise_cons] at increasing
    rw [findPlace] at place
    split at place
    · cases place
    split at place
    · rename_i higher
      cases place
      refine ⟨[], tp :: rq, rfl, rfl, by simp, ?_⟩
      intro q member
      rcases List.mem_cons.mp member with rfl | member
      · exact higher
      · exact Nat.lt_trans higher (increasing.1 q member)
    rename_i differs notHigher
    obtain ⟨rest, restPlace, rfl⟩ := Option.map_eq_some_iff.mp place
    obtain ⟨before, after, parts, result, less, more⟩ := ih increasing.2 restPlace
    refine ⟨tp :: before, after, by rw [parts, List.cons_append], by rw [result, List.cons_append], ?_, more⟩
    intro q member
    rcases List.mem_cons.mp member with rfl | member
    · omega
    · exact less q member

namespace Receiving

variable {a : Arrival} {r : Receiving}

variable (held : Held w r.call)
include held

theorem refuse_held (reason : AckReason) : Held w (r.refuse w a reason).call :=
  { held.sendAck a.packet.serial reason a.buffers with }

theorem receiveNext_held (next : a.packet.seq = r.call.rnext) : Held w (r.receiveNext w a).call := by
  rw [receiveNext]
  split
  · exact refuse_held held .duplicate
  rename_i fresh
  have above : ∀ q ∈ r.call.rq, a.packet.seq < q.seq := by
    cases queue : r.call.rq with
    | nil => simp
    | cons first rq =>
      have low := (held.window first (by simp [queue])).1
      have differs : first.seq ≠ a.packet.seq := by simpa [queue] using fresh
      have sorted := held.increasing
      rw [queue, List.pairwise_cons] at sorted
      intro q member
      rcases List.mem_cons.mp member with rfl | member
      · omega
      · have further := sorted.1 q member
        omega
  have room : a.packet.seq < r.call.rnext + r.call.rwind := by
    have positive := held.rwind_pos
    omega
  rw [next]
  exact held.accept (List.nil_append _).symm (Nat.le_of_eq next.symm) room (by simp) above _ _

theorem receiveOther_held : Held w (r.receiveOther w a).call := by
  rw [receiveOther]
  split
  · exact refuse_held held .duplicate
  rename_i notRead
  split
  · exact refuse_held held .exceedsWindow
  rename_i inWindow
  split
  · exact refuse_held held .duplicate
  rename_i rq prev missing place
  obtain ⟨before, after, parts, rfl, less, more⟩ := findPlace_spec held.increasing place
  have low : r.call.rnext ≤ a.packet.seq := Nat.le_of_not_lt notRead
  have room : a.packet.seq < r.call.rnext + r.call.rwind :=
    Nat.lt_of_lt_of_le (Nat.lt_of_not_le inWindow) (Nat.mod_le _ _)
  exact held.accept parts low room less more _ _

theorem receivePacket_held : Held w (r.receivePacket w a).call := by
  rw [receivePacket]
  split
  · rename_i next
    exact receiveNext_held held next
  · exact receiveOther_held held

theorem receivePackets_held {arrivals : List Arrival} : Held w (receivePackets w arrivals r).1.call := by
  induction arrivals generalizing r with
  | nil => exact held
  | cons a arrivals ih =>
    rw [receivePackets]
    split
    · exact held
    · exact ih (receivePacket_held held)

end Receiving

section Running

variable {s : Call}

section

variable (held : Held w s)
include held

theorem Held.fillVec (checks : List Int) (didConsume : Bool) : Held w (s.fillVec checks didConsume).1 := by
  induction checks generalizing s didConsume with
  | nil => exact held
  | cons error checks ih =>
    rw [Call.fillVec]
    split
    · exact held
    split
    · exact held
    rename_i rp rq queue
    split
    · rename_i next
      split
      · exact { held.reset with }
      · exact ih (held.consume queue next) true
    · exact held

theorem Held.fillReadVec (serial : Nat) (checks : List Int) (buffers : Bool) :
    Held w (s.fillReadVec w serial checks buffers).1 := by
  have filled := held.fillVec checks false
  rw [Call.fillReadVec]
  split
  · rename_i call _ result
    rw [result] at filled
    exact filled
  rename_i call _ result
  rw [result] at filled
  split
  · exact filled.sendAck serial .delay buffers
  · exact filled

theorem Held.readProc (error : Int) (buffers : Bool) : Held w (s.readProc w error buffers) := by
  rw [Call.readProc]
  split
  · exact held
  split
  · exact held
  rename_i rp rq queue
  split
  · rename_i next
    split
    · exact { held.reset with }
    have consumed := held.consume queue next
    dsimp only
    split
    · exact consumed.sendAck 0 .delay buffers
    · exact consumed
  · exact held

theorem Held.ackReceived (serial : Nat) (ackNeeded : Option AckReason) (buffers : Bool) :
    Held w (s.ackReceived w serial ackNeeded buffers) := by
  cases ackNeeded with
  | some reason => exact held.sendAck serial reason buffers
  | none =>
    rw [Call.ackReceived]
    split
    · exact held.sendAck serial .idle buffers
    · exact held

theorem Held.receiveDataPacket (first : Arrival) (others : List Arrival) (iovecWait : Option (List Int))
    (vecBuffers buffers : Bool) : Held w (s.receiveDataPacket w first others iovecWait vecBuffers buffers) := by
  have received : Held w (Receiving.receivePackets w (first :: others) ⟨s, none, false⟩).1.call :=
    Receiving.receivePackets_held held
  rw [Call.receiveDataPacket]
  split
  · rename_i r result
    rw [result] at received
    exact received
  rename_i r result
  rw [result] at received
  dsimp only
  split
  · rename_i checks _
    have filled := received.fillReadVec (others.getLastD first).packet.serial checks vecBuffers
    split
    · exact filled
    · exact filled.ackReceived _ _ buffers
  · exact received.ackReceived _ r.ackNeeded buffers

theorem Held.bound (opened : Bool) : Held w (s.bound w opened) := by
  have positive := w.init_pos
  have ordered := w.init_le
  have window : Held w { s with connRwind := if opened then w.maxReceiveWindow else w.initReceiveWindow } :=
    { held with
      conn_pos := by dsimp only; split <;> omega
      conn_le := by dsimp only; split <;> omega }
  exact window.reset

theorem Held.step (step : Step) : Held w (s.step w step) := by
  cases step with
  | receive first others iovecWait vecBuffers buffers => exact held.receiveDataPacket first others iovecWait vecBuffers buffers
  | read error buffers => exact held.readProc error buffers
  | readv checks buffers => exact held.fillReadVec 0 checks buffers
  | ack serial reason buffers => exact held.sendAck serial reason buffers
  | error error => exact held.callError error
  | reset => exact held.reset
  | bind opened => exact held.bound opened

theorem Held.run (steps : List Step) : Held w (s.run w steps) := by
  induction steps generalizing s with
  | nil => exact held
  | cons step steps ih => exact ih (held.step step)

end

theorem Held.new : Held w (Call.new w) where
  rwind_pos := w.init_pos
  rwind_le := w.init_le
  conn_pos := w.init_pos
  conn_le := w.init_le
  counts i within := absurd within (Nat.not_lt_zero i)
  rnext := rfl
  increasing := List.Pairwise.nil
  window _ member := absurd member List.not_mem_nil
  last found := absurd found Bool.false_ne_true
  done := rfl
  built _ member := absurd member List.not_mem_nil

theorem Held.complete_iff (held : Held w s) : s.receiveDone = true ↔ Complete (s.taken ++ s.rq) := by
  have one : (1 : Nat) < 2 ^ 32 := by decide
  rw [Complete, ← closes_iff one, held.counts.closes_append one, held.done, allReceived, held.rnext, word]

end Running

end OpenAFS.Rx.Receive
