import OpenAFS.Rx.ReceiveExact

namespace OpenAFS.Rx.Receive

def Step.Brings (G : Packet → Prop) : Step → Prop
  | .receive first others _ _ _ => ∀ a ∈ first :: others, G a.packet
  | _ => True

/-- What is in the queue or has been taken is as it was sent. -/
def Genuine (G : Packet → Prop) (s : Call) : Prop := (∀ p ∈ s.rq, G p) ∧ ∀ p ∈ s.taken, G p

section

variable {w : Settings} {G : Packet → Prop} {s : Call} {a : Arrival} {r : Receiving} {arrivals : List Arrival}

theorem Genuine.callError (error : Int) : Genuine G (s.callError error) := by
  simp [Genuine, Call.callError, Call.reset]

theorem mem_findPlace {p q : Packet} {prev : Nat} {missing : Bool} {rq : List Packet} {found : List Packet × Nat × Bool}
    (place : findPlace p prev missing rq = some found) (inside : q ∈ found.1) : q = p ∨ q ∈ rq := by
  induction rq generalizing prev missing found with
  | nil =>
    cases place
    exact .inl (List.mem_singleton.mp inside)
  | cons tp rq ih =>
    rw [findPlace] at place
    split at place
    · cases place
    split at place
    · cases place
      exact List.mem_cons.mp inside
    obtain ⟨rest, later, rfl⟩ := Option.map_eq_some_iff.mp place
    rcases List.mem_cons.mp inside with rfl | inside
    · exact .inr List.mem_cons_self
    · exact (ih later inside).imp_right (List.mem_cons_of_mem tp)

variable (good : Genuine G s)
include good

theorem Genuine.sendAck (serial : Nat) (reason : AckReason) (buffers : Bool) : Genuine G (s.sendAck w serial reason buffers) := by
  have opened : Genuine G ((s.openWindow w).acksSent) := by
    unfold Call.openWindow
    split <;> exact good
  unfold Call.sendAck
  generalize (s.openWindow w).acksSent = s at opened
  dsimp only
  split
  · exact opened
  split
  · exact .callError callDead
  · exact opened

theorem Genuine.consume {p : Packet} {rq : List Packet} (queue : s.rq = p :: rq) : Genuine G (s.consume p rq) := by
  obtain ⟨here, taken⟩ := good
  rw [queue, List.forall_mem_cons] at here
  exact ⟨here.2, List.forall_mem_append.mpr ⟨taken, List.forall_mem_singleton.mpr here.1⟩⟩

theorem Genuine.fillVec (checks : List Int) (didConsume : Bool) : Genuine G (s.fillVec checks didConsume).1 := by
  induction checks generalizing s didConsume with
  | nil => exact good
  | cons error checks ih =>
    rw [Call.fillVec]
    split
    · exact good
    split
    · exact good
    next queue =>
    split
    · split
      · exact .callError error
      · exact ih (good.consume queue) true
    · exact good

theorem Genuine.fillReadVec (serial : Nat) (checks : List Int) (buffers : Bool) :
    Genuine G (s.fillReadVec w serial checks buffers).1 := by
  have filled := good.fillVec checks false
  unfold Call.fillReadVec
  split
  · next done => rwa [done] at filled
  next done =>
  rw [done] at filled
  split
  · exact filled.sendAck _ _ _
  · exact filled

theorem Genuine.readProc (error : Int) (buffers : Bool) : Genuine G (s.readProc w error buffers) := by
  unfold Call.readProc
  split
  · exact good
  split
  · exact good
  next queue =>
  split
  · split
    · exact .callError error
    dsimp only
    split
    · exact (good.consume queue).sendAck _ _ _
    · exact good.consume queue
  · exact good

theorem Genuine.ackReceived (serial : Nat) (ackNeeded : Option AckReason) (buffers : Bool) :
    Genuine G (s.ackReceived w serial ackNeeded buffers) := by
  unfold Call.ackReceived
  split
  · exact good.sendAck _ _ _
  split
  · exact good.sendAck _ _ _
  · exact good

omit good in
theorem receivePacket_genuine (good : Genuine G r.call) (sent : G a.packet) : Genuine G (r.receivePacket w a).call := by
  unfold Receiving.receivePacket Receiving.receiveNext Receiving.receiveOther Receiving.refuse
  dsimp only
  split
  · split
    · exact good.sendAck _ _ _
    · exact ⟨List.forall_mem_cons.mpr ⟨sent, good.1⟩, good.2⟩
  split
  · exact good.sendAck _ _ _
  split
  · exact good.sendAck _ _ _
  split
  · exact good.sendAck _ _ _
  next place =>
  refine ⟨fun q inside => ?_, good.2⟩
  rcases mem_findPlace place inside with rfl | inside
  · exact sent
  · exact good.1 q inside

omit good in
theorem receivePackets_genuine (good : Genuine G r.call) (sent : ∀ a ∈ arrivals, G a.packet) :
    Genuine G (Receiving.receivePackets w arrivals r).1.call := by
  induction arrivals generalizing r with
  | nil => exact good
  | cons a arrivals ih =>
    rw [List.forall_mem_cons] at sent
    rw [Receiving.receivePackets]
    split
    · exact good
    · exact ih (receivePacket_genuine good sent.1) sent.2

theorem Genuine.step {step : Step} (sent : step.Brings G) : Genuine G (s.step w step) := by
  cases step with
  | receive first others iovecWait vecBuffers buffers =>
    have received := receivePackets_genuine (w := w) (r := ⟨s, none, false⟩) good sent
    unfold Call.step Call.receiveDataPacket
    dsimp only
    split
    · next done => rwa [done] at received
    next done =>
    rw [done] at received
    split
    · have filled := received.fillReadVec (w := w)
      split
      · exact filled _ _ _
      · exact (filled _ _ _).ackReceived _ _ _
    · exact received.ackReceived _ _ _
  | read error buffers => exact good.readProc error buffers
  | readv checks buffers => exact good.fillReadVec 0 checks buffers
  | ack serial reason buffers => exact good.sendAck serial reason buffers
  | error error => exact .callError error
  | reset => simp [Call.step, Call.reset, Genuine]
  | bind opened => simp [Call.step, Call.bound, Call.reset, Genuine]

theorem Genuine.run {steps : List Step} (sent : ∀ step ∈ steps, step.Brings G) : Genuine G (s.run w steps) := by
  induction steps generalizing s with
  | nil => exact good
  | cons step steps ih =>
    rw [List.forall_mem_cons] at sent
    exact ih (good.step sent.1) sent.2

end

/-- Whatever is lost, comes twice or in another order: what the reader takes is what the sender has put into the packets from the
first one on. -/
theorem stream_delivered {β : Type} (w : Settings) (steps : List Step) (carries : Packet → β) (sent : Nat → β)
    (genuine : ∀ step ∈ steps, step.Brings fun p => carries p = sent p.seq) : let s := (Call.new w).run w steps
    s.taken.map carries = (List.range s.taken.length).map fun i => sent (word (1 + i)) := by
  have held := Held.new.run (w := w) steps
  have good : Genuine (fun p => carries p = sent p.seq) ((Call.new w).run w steps) :=
    Genuine.run (by simp [Genuine, Call.new]) genuine
  refine List.ext_getElem (by simp) fun i inside inside' => ?_
  rw [List.length_map] at inside
  rw [List.getElem_map, List.getElem_map, List.getElem_range, good.2 _ (List.getElem_mem inside)]
  exact congrArg sent (held.counts i inside)

theorem stream_delivered_disordered :
    let arrive : Nat → (seq : Nat) → seq < 2 ^ 32 → Step := fun serial seq small =>
      .receive ⟨⟨seq, serial, false, false, small⟩, true⟩ [] none true true
    let s := (Call.new .default).run .default
      [arrive 3 2 (by decide), arrive 4 2 (by decide), arrive 5 1 (by decide), .read 0 true, .read 0 true]
    s.taken.map Packet.seq = (List.range s.taken.length).map fun i => word (1 + i) :=
  stream_delivered .default _ Packet.seq id (by simp [Step.Brings])

end OpenAFS.Rx.Receive
