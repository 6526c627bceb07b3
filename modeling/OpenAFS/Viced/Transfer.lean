import OpenAFS.Viced.StoreData

namespace OpenAFS.Viced

open Lib List

variable {o : Options} {req : StoreRequest} {fate : StoreFate}

def reached (o : Options) (req : StoreRequest) (fate : StoreFate) : Nat → Nat
  | 0 => 0
  | i + 1 => reached o req fate i + received o req fate i (reached o req fate i)

def Arrive (o : Options) (req : StoreRequest) (fate : StoreFate) (count : Nat) : Prop :=
  ∀ i < count, reached o req fate i < req.length ∧ received o req fate i (reached o req fate i) ≠ 0 ∧ fate.shortWrites i = none

def Complete (o : Options) (req : StoreRequest) (fate : StoreFate) : Prop :=
  ∃ count, Arrive o req fate count ∧ req.length ≤ reached o req fate count

/-- A piece does not arrive or is not written in full, when `kept` bytes are in the inode. -/
inductive Stops (o : Options) (req : StoreRequest) (fate : StoreFate) (kept : Nat) : Prop where
  | read (i : Nat) (before : Arrive o req fate i) (more : reached o req fate i < req.length)
      (none : received o req fate i (reached o req fate i) = 0) (size : kept = reached o req fate i)
  | write (i written : Nat) (before : Arrive o req fate i) (more : reached o req fate i < req.length)
      (some : received o req fate i (reached o req fate i) ≠ 0) (short : fate.shortWrites i = Option.some written)
      (size : kept = reached o req fate i + min written (received o req fate i (reached o req fate i) - 1))

theorem Arrive.next {i : Nat} (before : Arrive o req fate i) (more : reached o req fate i < req.length)
    (some : received o req fate i (reached o req fate i) ≠ 0) (full : fate.shortWrites i = none) :
    Arrive o req fate (i + 1) := by
  intro j early
  rcases Nat.lt_succ_iff_lt_or_eq.mp early with earlier | rfl
  · exact before j earlier
  · exact ⟨more, some, full⟩

variable {kept : Nat} {file : List UInt8}

theorem Stops.at (stops : Stops o req fate kept) : ∃ i, Arrive o req fate i ∧ reached o req fate i < req.length ∧
      ¬ (received o req fate i (reached o req fate i) ≠ 0 ∧ fate.shortWrites i = none) ∧
      kept = reached o req fate i +
        ((fate.shortWrites i).elim 0 fun written => min written (received o req fate i (reached o req fate i) - 1)) := by
  cases stops with
  | read i before more none size =>
    refine ⟨i, before, more, fun both => both.1 none, ?_⟩
    rw [size, none]
    cases fate.shortWrites i <;> simp
  | write i written before more some short size =>
    refine ⟨i, before, more, fun both => ?_, ?_⟩
    · rw [short] at both
      exact absurd both.2 (Option.some_ne_none written)
    · rw [size, short]
      rfl

theorem Arrive.unique {i j : Nat} (first : Arrive o req fate i) (second : Arrive o req fate j)
    (stopped : reached o req fate i < req.length → ¬ (received o req fate i (reached o req fate i) ≠ 0 ∧ fate.shortWrites i = none))
    (stops : reached o req fate j < req.length → ¬ (received o req fate j (reached o req fate j) ≠ 0 ∧ fate.shortWrites j = none)) :
    i = j := by
  rcases Nat.lt_trichotomy i j with before | same | after
  · exact absurd (second i before).2 (stopped (second i before).1)
  · exact same
  · exact absurd (first j after).2 (stops (first j after).1)

theorem Stops.unique {kept' : Nat} (stops : Stops o req fate kept) (stops' : Stops o req fate kept') : kept = kept' := by
  obtain ⟨i, before, -, stopped, size⟩ := stops.at
  obtain ⟨j, before', -, stopped', size'⟩ := stops'.at
  have same := before.unique before' (fun _ => stopped) fun _ => stopped'
  subst same
  rw [size, size']

theorem Complete.not_stops (complete : Complete o req fate) : ¬ Stops o req fate kept := by
  rintro stops
  obtain ⟨i, before, more, stopped, -⟩ := stops.at
  obtain ⟨count, arrive, all⟩ := complete
  have same := before.unique arrive (fun _ => stopped) fun less => absurd less (Nat.not_lt.mpr all)
  subst same
  exact absurd more (Nat.not_lt.mpr all)

theorem rlen_le (left : Nat) : rlen o left ≤ left := by
  have wide : (left : Int).bmod (2 ^ 64) ≤ left ∧ (0 ≤ (left : Int).bmod (2 ^ 64) ∨ (2 ^ 63 : Int) ≤ left) := by
    rw [Int.bmod_def]
    split <;> omega
  have narrow : ((left : Int).bmod (2 ^ 64)).bmod (2 ^ 32) ≤ left := by
    rw [Int.bmod_def (_ : Int) (2 ^ 32)]
    split <;> omega
  unfold rlen
  dsimp only
  split <;> omega

theorem received_le (i done : Nat) :
    received o req fate i done ≤ req.length - done ∧ received o req fate i done ≤ fate.stream.length - done :=
  ⟨(Nat.min_le_left _ _).trans ((Nat.min_le_right _ _).trans (rlen_le _)), Nat.min_le_right _ _⟩

theorem reached_le (i : Nat) : reached o req fate i ≤ req.length ∧ reached o req fate i ≤ fate.stream.length := by
  induction i with
  | zero => exact ⟨Nat.zero_le _, Nat.zero_le _⟩
  | succ i ih =>
    have piece := @received_le o req fate i (reached o req fate i)
    unfold reached
    omega

theorem Complete.sent (complete : Complete o req fate) : req.length ≤ fate.stream.length := by
  obtain ⟨count, -, all⟩ := complete
  exact all.trans (reached_le count).2

theorem Stops.lt (stops : Stops o req fate kept) : kept < req.length ∧ kept ≤ fate.stream.length := by
  cases stops with
  | read i before more none size =>
    have most := @reached_le o req fate i
    omega
  | write i written before more some short size =>
    have piece := @received_le o req fate i (reached o req fate i)
    omega

theorem pwrite_piece (file : List UInt8) (pos i n : Nat) :
    pwrite (pwrite file pos (fate.stream.take (reached o req fate i))) (pos + reached o req fate i)
        (pread fate.stream (reached o req fate i) n) =
      pwrite file pos (fate.stream.take (reached o req fate i + n)) := by
  have length : (fate.stream.take (reached o req fate i)).length = reached o req fate i := by
    rw [length_take]
    exact Nat.min_eq_left (reached_le i).2
  have both := pwrite_append file pos (fate.stream.take (reached o req fate i))
    (pread fate.stream (reached o req fate i) n)
  rw [length] at both
  rw [both, take_add]
  rfl

inductive LoopEnd (o : Options) (req : StoreRequest) (fate : StoreFate) (file : List UInt8) (pos : Nat) :
    List UInt8 × Int → Prop where
  | complete (all : Complete o req fate) : LoopEnd o req fate file pos (pwrite file pos (fate.stream.take req.length), 0)
  | stops (kept : Nat) (code : Int) (stops : Stops o req fate kept) (failure : code ≠ 0) :
      LoopEnd o req fate file pos (pwrite file pos (fate.stream.take kept), code)

theorem storePieces_from (file : List UInt8) (pos rounds i : Nat) (before : Arrive o req fate i)
    (enough : req.length ≤ reached o req fate i + rounds) :
    LoopEnd o req fate file pos (storePieces o req fate pos rounds i (reached o req fate i)
      (pwrite file pos (fate.stream.take (reached o req fate i)))) := by
  have ended (all : req.length ≤ reached o req fate i) :
      LoopEnd o req fate file pos (pwrite file pos (fate.stream.take (reached o req fate i)), 0) := by
    rw [Nat.le_antisymm (reached_le i).1 all]
    exact .complete ⟨i, before, all⟩
  induction rounds generalizing i with
  | zero => exact ended enough
  | succ rounds ih =>
    unfold storePieces
    split
    · rename_i all
      exact ended all
    rename_i more
    have more := Nat.lt_of_not_le more
    dsimp only
    split
    · rename_i none
      exact .stops _ _ (.read i before more none rfl) (by decide)
    rename_i some
    split
    · rename_i written short
      unfold pread
      rw [take_take, ← pread, pwrite_piece]
      refine .stops _ _ (.write i written before more some short ?_) (by decide)
      congr 1
      omega
    rename_i full
    rw [pwrite_piece]
    have next := before.next more some full
    refine ih (i + 1) next ?_ fun all => ?_
    · unfold reached
      omega
    · rw [Nat.le_antisymm (reached_le (i + 1)).1 all]
      exact .complete ⟨i + 1, next, all⟩

theorem storePieces_end (file : List UInt8) (pos : Nat) :
    LoopEnd o req fate file pos (storePieces o req fate pos req.length 0 0 file) :=
  storePieces_from file pos req.length 0 (fun _ early => absurd early (Nat.not_lt_zero _)) (Nat.le_add_left _ _)

/-- What a store is to make of a file: the old bytes are cut, and the bytes of the client written over them. -/
def wanted (old : List UInt8) (req : StoreRequest) (stream : List UInt8) : List UInt8 :=
  let cut := old.take req.fileLength
  pwrite (cut ++ List.replicate (req.pos - cut.length) 0) req.pos (stream.take req.length)

theorem length_wanted (old : List UInt8) {stream : List UInt8} (sent : req.length ≤ stream.length) :
    (wanted old req stream).length = max (min old.length req.fileLength) (req.pos + req.length) := by
  unfold wanted
  rw [length_pwrite, length_append, length_replicate, length_take, length_take, Nat.min_eq_left sent]
  split
  · rename_i nothing
    have none := congrArg List.length nothing
    rw [length_take, length_nil] at none
    omega
  · omega

theorem byteAt_wanted (old stream : List UInt8) (sent : req.length ≤ stream.length) (p : Nat) : byteAt (wanted old req stream) p =
      if req.pos ≤ p ∧ p < req.pos + req.length then byteAt stream (p - req.pos)
      else if p < req.fileLength then byteAt old p else 0 := by
  unfold wanted
  rw [byteAt_pwrite, length_take, Nat.min_eq_left sent]
  split
  · rename_i inside
    rw [byteAt_take, if_pos (by omega)]
  rw [byteAt_append, byteAt_take, byteAt_replicate, length_take]
  by_cases kept : p < req.fileLength
  · split
    · rfl
    · exact (byteAt_of_length_le (by omega)).symm
  · rw [if_neg kept, ite_self]

/-- A store of no bytes behind the end of the file, which makes the inode longer by writing a single byte. -/
def Lengthens (req : StoreRequest) (dataLength : Nat) : Prop :=
  req.length = 0 ∧ min dataLength req.fileLength < req.pos

instance (dataLength : Nat) : Decidable (Lengthens req dataLength) :=
  inferInstanceAs (Decidable (_ ∧ _))

def cutLength (req : StoreRequest) (fate : StoreFate) (dataLength : Nat) : Nat :=
  if req.fileLength < dataLength ∧ fate.truncates then req.fileLength else dataLength

/-- The transfer does all that was asked for. Where the cut has failed, the bytes must hide that. -/
inductive Done (o : Options) (req : StoreRequest) (fate : StoreFate) (dataLength : Nat) : Prop where
  | lengthened (byte : UInt8) (lengthens : Lengthens req dataLength) (cut : req.fileLength < dataLength → fate.truncates)
      (written : fate.byteWrite = .wrote byte) (sets : fate.setsLength) (small : req.pos < 2 ^ 63)
  | stored (lengthens : ¬ Lengthens req dataLength) (complete : Complete o req fate) (small : req.pos < 2 ^ 63)
      (cut : req.fileLength < dataLength → fate.truncates ∨ req.pos ≤ req.fileLength ∧ dataLength ≤ req.pos + req.length)

inductive Leaves (o : Options) (req : StoreRequest) (fate : StoreFate) (dataLength size : Nat) : Prop where
  | noByte (lengthens : Lengthens req dataLength) (failed : fate.byteWrite = .failed)
      (left : size = cutLength req fate dataLength)
  | byteTooMany (byte : UInt8) (lengthens : Lengthens req dataLength) (written : fate.byteWrite = .wrote byte)
      (failed : ¬ (fate.setsLength ∧ req.pos < 2 ^ 63)) (left : size = max (cutLength req fate dataLength) (seek req.pos + 1))
  | stopped (kept : Nat) (lengthens : ¬ Lengthens req dataLength) (stops : Stops o req fate kept)
      (left : size = if kept = 0 then cutLength req fate dataLength
        else max (cutLength req fate dataLength) (seek req.pos + kept))

theorem length_cutFile (file : List UInt8) : (cutFile req fate file).length = cutLength req fate file.length := by
  unfold cutFile cutLength
  split
  · rw [length_take]
    omega
  · rfl

inductive TransferEnd (o : Options) (req : StoreRequest) (fate : StoreFate) (file : List UInt8) :
    List UInt8 × Int → Prop where
  | noByte (lengthens : Lengthens req file.length) (failed : fate.byteWrite = .failed) :
      TransferEnd o req fate file (cutFile req fate file, -1)
  | nothing (lengthens : Lengthens req file.length) (nothing : fate.byteWrite = .nothing) :
      TransferEnd o req fate file (cutFile req fate file, 0)
  | byteTooMany (byte : UInt8) (lengthens : Lengthens req file.length) (written : fate.byteWrite = .wrote byte)
      (failed : ¬ (fate.setsLength ∧ req.pos < 2 ^ 63)) :
      TransferEnd o req fate file (pwrite (cutFile req fate file) (seek req.pos) [byte], -1)
  | lengthened (byte : UInt8) (lengthens : Lengthens req file.length) (written : fate.byteWrite = .wrote byte)
      (sets : fate.setsLength) (small : req.pos < 2 ^ 63) :
      TransferEnd o req fate file (ftruncate (pwrite (cutFile req fate file) req.pos [byte]) req.pos, 0)
  | complete (lengthens : ¬ Lengthens req file.length) (all : Complete o req fate) :
      TransferEnd o req fate file (pwrite (cutFile req fate file) (seek req.pos) (fate.stream.take req.length), 0)
  | stopped (kept : Nat) (code : Int) (lengthens : ¬ Lengthens req file.length) (stops : Stops o req fate kept)
      (failure : code ≠ 0) :
      TransferEnd o req fate file (pwrite (cutFile req fate file) (seek req.pos) (fate.stream.take kept), code)

theorem transfer_end (file : List UInt8) : TransferEnd o req fate file (transfer o req fate file) := by
  unfold transfer
  dsimp only
  split
  · rename_i lengthens
    split
    · rename_i failed
      exact .noByte lengthens failed
    · rename_i nothing
      exact .nothing lengthens nothing
    rename_i byte written
    split
    · rename_i sets
      unfold seek
      rw [if_pos sets.2]
      exact .lengthened byte lengthens written sets.1 sets.2
    · rename_i failed
      exact .byteTooMany byte lengthens written failed
  · rename_i lengthens
    have ended := @storePieces_end o req fate (cutFile req fate file) (seek req.pos)
    generalize storePieces o req fate (seek req.pos) req.length 0 0 (cutFile req fate file) = r at ended
    cases ended with
    | complete all => exact .complete lengthens all
    | stops kept code stops failure => exact .stopped kept code lengthens stops failure

theorem length_kept (file : List UInt8) (pos : Nat) (stops : Stops o req fate kept) :
    (pwrite file pos (fate.stream.take kept)).length = if kept = 0 then file.length else max file.length (pos + kept) := by
  rw [length_pwrite, length_take, Nat.min_eq_left stops.lt.2]
  cases kept with
  | zero => rfl
  | succ kept =>
    have some : fate.stream.take (kept + 1) ≠ [] := by
      intro nothing
      have none := congrArg List.length nothing
      rw [length_take, Nat.min_eq_left stops.lt.2] at none
      cases none
    rw [if_neg some, if_neg (Nat.succ_ne_zero kept)]

theorem transfer_fails (fails : (transfer o req fate file).2 ≠ 0) :
    Leaves o req fate file.length (transfer o req fate file).1.length := by
  have ended := @transfer_end o req fate file
  generalize transfer o req fate file = r at ended fails
  cases ended with
  | noByte lengthens failed => exact .noByte lengthens failed (length_cutFile file)
  | nothing lengthens nothing => exact absurd rfl fails
  | byteTooMany byte lengthens written failed =>
    refine .byteTooMany byte lengthens written failed ?_
    rw [length_pwrite, if_neg (cons_ne_nil byte []), length_cutFile]
    rfl
  | lengthened byte lengthens written sets small => exact absurd rfl fails
  | complete lengthens all => exact absurd rfl fails
  | stopped kept code lengthens stops failure =>
    refine .stopped kept lengthens stops ?_
    rw [length_kept _ _ stops, length_cutFile]

theorem transfer_of_lengthens (lengthens : Lengthens req file.length) : transfer o req fate file = match fate.byteWrite with
      | .failed => (cutFile req fate file, -1)
      | .nothing => (cutFile req fate file, 0)
      | .wrote byte =>
        let file := pwrite (cutFile req fate file) (seek req.pos) [byte]
        if fate.setsLength ∧ req.pos < 2 ^ 63 then (ftruncate file req.pos, 0) else (file, -1) :=
  if_pos lengthens

theorem transfer_of_not_lengthens (lengthens : ¬ Lengthens req file.length) :
    transfer o req fate file = storePieces o req fate (seek req.pos) req.length 0 0 (cutFile req fate file) :=
  if_neg lengthens

theorem Leaves.fails {size : Nat} (leaves : Leaves o req fate file.length size) :
    (transfer o req fate file).2 ≠ 0 ∧ (transfer o req fate file).1.length = size := by
  have minusOne : (-1 : Int) ≠ 0 := by decide
  cases leaves with
  | noByte lengthens failed left =>
    rw [transfer_of_lengthens lengthens, failed]
    exact ⟨minusOne, (length_cutFile file).trans left.symm⟩
  | byteTooMany byte lengthens written failed left =>
    rw [transfer_of_lengthens lengthens, written]
    dsimp only
    rw [if_neg failed]
    refine ⟨minusOne, ?_⟩
    rw [length_pwrite, if_neg (cons_ne_nil byte []), length_cutFile]
    exact left.symm
  | stopped kept lengthens stops left =>
    rw [transfer_of_not_lengthens lengthens]
    have ended := @storePieces_end o req fate (cutFile req fate file) (seek req.pos)
    generalize storePieces o req fate (seek req.pos) req.length 0 0 (cutFile req fate file) = r at ended
    cases ended with
    | complete all => exact absurd stops all.not_stops
    | stops kept' code stops' failure =>
      refine ⟨failure, ?_⟩
      rw [length_kept _ _ stops', length_cutFile, stops'.unique stops]
      exact left.symm

theorem byteAt_cutFile (file : List UInt8) (p : Nat) : byteAt (cutFile req fate file) p =
      if p < req.fileLength ∨ ¬ (req.fileLength < file.length ∧ fate.truncates) then byteAt file p else 0 := by
  unfold cutFile
  split
  · rename_i cut
    rw [byteAt_take]
    by_cases inside : p < req.fileLength
    · rw [if_pos inside, if_pos (.inl inside)]
    · rw [if_neg inside, if_neg (by tauto)]
  · rename_i cut
    rw [if_pos (.inr cut)]

theorem Done.wanted (done : Done o req fate file.length) :
    transfer o req fate file = (wanted file req fate.stream, 0) ∧ req.length ≤ fate.stream.length := by
  cases done with
  | lengthened byte lengthens cut written sets small =>
    have sent : req.length ≤ fate.stream.length := by rw [lengthens.1]; exact Nat.zero_le _
    refine ⟨?_, sent⟩
    rw [transfer_of_lengthens lengthens, written]
    dsimp only
    rw [if_pos ⟨sets, small⟩, seek, if_pos small]
    obtain ⟨nothing, behind⟩ := lengthens
    congr 1
    apply ext_byteAt
    · rw [length_ftruncate, length_wanted file sent]
      omega
    intro p
    have nowhere : ¬ (req.pos ≤ p ∧ p < req.pos + req.length) := by omega
    rw [byteAt_ftruncate, byteAt_wanted file _ sent, byteAt_pwrite, byteAt_cutFile, if_neg nowhere]
    by_cases inside : p < req.pos
    · have before : ¬ (req.pos ≤ p ∧ p < req.pos + [byte].length) := by omega
      rw [if_pos inside, if_neg before]
      by_cases kept : p < req.fileLength
      · rw [if_pos (.inl kept), if_pos kept]
      split
      · rename_i uncut
        refine byteAt_of_length_le ?_
        by_contra inFile
        exact uncut.elim kept fun not => not ⟨by omega, cut (by omega)⟩
      · rfl
    · rw [if_neg inside]
      split
      · exact (byteAt_of_length_le (by omega)).symm
      · rfl
  | stored lengthens complete small cut =>
    have sent := complete.sent
    refine ⟨?_, sent⟩
    rw [transfer_of_not_lengthens lengthens]
    have ended := @storePieces_end o req fate (cutFile req fate file) (seek req.pos)
    generalize storePieces o req fate (seek req.pos) req.length 0 0 (cutFile req fate file) = r at ended
    cases ended with
    | stops kept code stops failure => exact absurd stops complete.not_stops
    | complete all =>
      rw [seek, if_pos small]
      congr 1
      apply ext_byteAt
      · rw [length_wanted file sent, length_pwrite, length_take, Nat.min_eq_left sent, length_cutFile]
        unfold cutLength Lengthens at *
        split
        · rename_i empty
          have none := congrArg List.length empty
          split <;> grind
        · split <;> grind
      intro p
      rw [byteAt_pwrite, byteAt_wanted file _ sent, length_take, Nat.min_eq_left sent, byteAt_cutFile, byteAt_take]
      by_cases here : req.pos ≤ p ∧ p < req.pos + req.length
      · rw [if_pos here, if_pos here, if_pos (by omega)]
      rw [if_neg here, if_neg here]
      by_cases kept : p < req.fileLength
      · rw [if_pos (.inl kept), if_pos kept]
      split
      · rename_i uncut
        refine byteAt_of_length_le ?_
        by_contra inside
        rcases cut (by omega) with truncates | hidden
        · exact uncut.elim kept fun not => not ⟨by omega, truncates⟩
        · omega
      · rfl

theorem byteAt_constant (n : Nat) (c : UInt8) {p : Nat} (inside : p < n) : byteAt (List.replicate n c) p = c := by
  unfold byteAt
  rw [getD_eq_getElem _ _ (by rw [length_replicate]; exact inside), getElem_replicate]

theorem cutLength_le (dataLength : Nat) : cutLength req fate dataLength ≤ dataLength := by
  unfold cutLength
  split
  · rename_i cut
    exact cut.1.le
  · exact le_rfl

theorem not_wanted {dataLength : Nat} (notDone : ¬ Done o req fate dataLength) (small : dataLength < 2 ^ 63)
    (sum : req.pos + req.length < 2 ^ 64) (sent : req.length ≤ fate.stream.length) {c : UInt8} (nonzero : c ≠ 0)
    (other : c ≠ byteAt fate.stream (req.length - 1)) :
    (transfer o req fate (List.replicate dataLength c)).1 ≠ wanted (List.replicate dataLength c) req fate.stream := by
  have size : (List.replicate dataLength c).length = dataLength := length_replicate
  have ended := @transfer_end o req fate (List.replicate dataLength c)
  have wantedLength := length_wanted (List.replicate dataLength c) sent
  have wantedAt := byteAt_wanted (List.replicate dataLength c) fate.stream sent
  have kept {p : Nat} (inside : p < dataLength) : byteAt (List.replicate dataLength c) p = c := byteAt_constant _ _ inside
  have cutSize := @length_cutFile req fate (List.replicate dataLength c)
  have cutAt := @byteAt_cutFile req fate (List.replicate dataLength c)
  have cutBound := @cutLength_le req fate dataLength
  generalize List.replicate dataLength c = old at *
  subst size
  generalize transfer o req fate old = r at ended
  intro same
  have sameLength := congrArg List.length same
  have sameAt (p : Nat) := congrArg (fun file => byteAt file p) same
  simp only [wantedAt] at sameAt
  -- a cut that has failed shows at the first byte behind it
  have shows (long : req.fileLength < old.length) (uncut : ¬ fate.truncates) :
      byteAt (cutFile req fate old) req.fileLength = c := by
    rw [cutAt, if_pos (.inr fun cut => uncut cut.2), kept long]
  have failedCut (long : cutLength req fate old.length ≠ min old.length req.fileLength) :
      req.fileLength < old.length ∧ ¬ fate.truncates := by
    unfold cutLength at long
    split at long <;> grind
  have noCut (long : req.fileLength < old.length) (uncut : ¬ fate.truncates) : cutLength req fate old.length = old.length :=
    if_neg fun cut => uncut cut.2
  have lengthensAt (lengthens : Lengthens req old.length) (long : req.fileLength < old.length) :
      (if req.pos ≤ req.fileLength ∧ req.fileLength < req.pos + req.length then
        byteAt fate.stream (req.fileLength - req.pos)
      else if req.fileLength < req.fileLength then byteAt old req.fileLength else 0) = 0 := by
    have nothing := lengthens.1
    rw [if_neg (by omega), if_neg (lt_irrefl _)]
  have unlengthened (lengthens : Lengthens req old.length) (left : cutFile req fate old = wanted old req fate.stream) :
      False := by
    have cutIs := (congrArg List.length left).trans wantedLength
    have here := (congrArg (fun file => byteAt file req.fileLength) left).trans (wantedAt req.fileLength)
    obtain ⟨nothing, behind⟩ := lengthens
    obtain ⟨long, uncut⟩ := failedCut (by omega)
    rw [lengthensAt ⟨nothing, behind⟩ long] at here
    exact nonzero ((shows long uncut).symm.trans here)
  cases ended with
  | noByte lengthens failed => exact unlengthened lengthens same
  | nothing lengthens nothing => exact unlengthened lengthens same
  | byteTooMany byte lengthens written failed =>
    obtain ⟨nothing, behind⟩ := lengthens
    rw [length_pwrite, if_neg (cons_ne_nil byte []), length_singleton] at sameLength
    unfold seek at sameLength
    split at sameLength <;> omega
  | lengthened byte lengthens written sets small =>
    have cut : ¬ (req.fileLength < old.length → fate.truncates) := fun cut =>
      notDone (.lengthened byte lengthens cut written sets small)
    rw [Classical.not_imp] at cut
    obtain ⟨long, uncut⟩ := cut
    have behind := lengthens.2
    have here := sameAt req.fileLength
    rw [lengthensAt lengthens long, byteAt_ftruncate, if_pos (by omega), byteAt_pwrite, if_neg (by omega),
      shows long uncut] at here
    exact nonzero here
  | complete lengthens all =>
    rw [length_pwrite, length_take, Nat.min_eq_left sent, cutSize] at sameLength
    by_cases small : req.pos < 2 ^ 63
    · have cut : ¬ (req.fileLength < old.length →
          fate.truncates ∨ req.pos ≤ req.fileLength ∧ old.length ≤ req.pos + req.length) := fun cut =>
        notDone (.stored lengthens all small cut)
      push Not at cut
      obtain ⟨long, uncut, shown⟩ := cut
      rw [noCut long uncut, seek, if_pos small] at sameLength
      by_cases early : req.pos ≤ req.fileLength
      · split at sameLength <;> omega
      have here := sameAt req.fileLength
      rw [seek, if_pos small, byteAt_pwrite, if_neg (by omega), shows long uncut, if_neg (by omega),
        if_neg (lt_irrefl _)] at here
      exact nonzero here
    · rw [seek, if_neg small] at sameLength
      split at sameLength <;> omega
  | stopped kept' code lengthens stops failure =>
    have less := stops.lt
    rw [length_kept _ _ stops, cutSize] at sameLength
    by_cases small : req.pos < 2 ^ 63
    · rw [seek, if_pos small] at sameLength
      by_cases inside : req.pos + req.length - 1 < cutLength req fate old.length
      · have here := sameAt (req.pos + req.length - 1)
        have inCut : req.pos + req.length - 1 < req.fileLength ∨ ¬ (req.fileLength < old.length ∧ fate.truncates) := by
          unfold cutLength at inside
          split at inside
          · exact .inl inside
          · rename_i uncut
            exact .inr uncut
        have last : req.pos + req.length - 1 - req.pos = req.length - 1 := by omega
        rw [seek, if_pos small, byteAt_pwrite, length_take, Nat.min_eq_left less.2, if_neg (by omega), cutAt,
          if_pos inCut, kept (by omega), if_pos (by omega), last] at here
        exact other here
      · split at sameLength <;> omega
    · rw [seek, if_neg small] at sameLength
      split at sameLength <;> omega

end OpenAFS.Viced
