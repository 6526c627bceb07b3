import OpenAFS.Vol.CloneLinks

namespace OpenAFS.Vol

open Lib List

variable {a : CloneArgs} {old index data : Bytes} {off n : Nat} {c : CloneState}

section

variable {size : Nat}

theorem records_length (some : 0 < size) (file : Bytes) : ∀ v ∈ records size file, v.length = size := by
  induction length : file.length / size generalizing file with
  | zero =>
    intro v inside
    unfold records at inside
    rw [length] at inside
    cases inside
  | succ m ih =>
    have within : size ≤ file.length := by
      by_contra short
      rw [Nat.div_eq_of_lt (Nat.not_le.mp short)] at length
      cases length
    rw [records_cons some within]
    intro v inside
    rcases List.mem_cons.mp inside with rfl | later
    · rw [length_take]
      omega
    refine ih (file.drop size) ?_ v later
    rw [length_drop]
    rw [Nat.div_eq_sub_div some within] at length
    omega

theorem flatten_length {vs : List Bytes} (all : ∀ v ∈ vs, v.length = size) : vs.flatten.length = vs.length * size := by
  induction vs with
  | nil => exact (Nat.zero_mul _).symm
  | cons v vs ih =>
    rw [flatten_cons, length_append, length_cons, Nat.succ_mul, all v mem_cons_self,
      ih fun w inside => all w (mem_cons_of_mem _ inside)]
    omega

theorem records_drop (some : 0 < size) (file : Bytes) (n : Nat) :
    records size (file.drop (n * size)) = (records size file).drop n := by
  induction n generalizing file with
  | zero => rw [Nat.zero_mul, drop_zero, drop_zero]
  | succ n ih =>
    by_cases within : size ≤ file.length
    · rw [records_cons some within, drop_succ_cons, ← ih, drop_drop]
      congr 2
      rw [Nat.succ_mul]
      omega
    have short := Nat.not_le.mp within
    rw [records_nil short, drop_nil]
    apply records_nil
    rw [length_drop]
    omega

theorem records_flatten (some : 0 < size) {vs : List Bytes} {rest : Bytes} (all : ∀ v ∈ vs, v.length = size)
    (short : rest.length < size) : records size (vs.flatten ++ rest) = vs := by
  induction vs with
  | nil => exact records_nil short
  | cons v vs ih =>
    have length := all v mem_cons_self
    rw [flatten_cons, append_assoc, records_cons some (by rw [length_append]; omega), take_left' length,
      drop_left' length, ih fun w inside => all w (mem_cons_of_mem _ inside)]

end

def junk (a : CloneArgs) (vs : List VnodeDiskObject) : List (BitVec 64) :=
  (vs.filter fun v => v.type a.host ≠ vNull ∧ v.ino a.host ≠ 0).map fun v => v.ino a.host

theorem junk_cons (v : VnodeDiskObject) (vs : List VnodeDiskObject) : junk a (v :: vs) = junk a [v] ++ junk a vs := by
  unfold junk
  rw [← singleton_append, filter_append, map_append]

theorem junkLoop_queues (fuel : Nat) (fine : c.os.Fine) (reading : Reading c.os c.clfilein off)
    (enough : ((c.os.file c.clfilein.fd).drop off).length < fuel) :
    ∃ os s, c.junkLoop a fuel = .ok { c with
        os
        clfilein := s
        items := c.items ++ junk a (records a.vcp.diskSize ((c.os.file c.clfilein.fd).drop off)) } ∧
      os.file = c.os.file ∧ os.outcome = c.os.outcome ∧ s.direction ≠ .write := by
  induction fuel generalizing c off with
  | zero => exact absurd enough (Nat.not_lt_zero _)
  | succ fuel ih =>
    obtain ⟨os, s, done, on⟩ := streamRead_reads a.vcp.diskSize fine reading
    have direction : s.direction = .read := on.direction
    have file : os.file = c.os.file := on.file
    have read : c.readClone a.vcp.diskSize =
        .ok ({ c with os, clfilein := s }, ((c.os.file c.clfilein.fd).drop off).take a.vcp.diskSize) :=
      except_bind_eq_ok.mpr ⟨_, done, rfl⟩
    by_cases within : a.vcp.diskSize ≤ ((c.os.file c.clfilein.fd).drop off).length
    · have length : (((c.os.file c.clfilein.fd).drop off).take a.vcp.diskSize).length = a.vcp.diskSize := by
        rw [length_take]
        omega
      have positive := a.some
      have fd : s.fd = c.clfilein.fd := on.fd
      have next : (os.file s.fd).drop (off + a.vcp.diskSize) = ((c.os.file c.clfilein.fd).drop off).drop a.vcp.diskSize := by
        rw [file, fd, drop_drop]
      have fewer : ((os.file s.fd).drop (off + a.vcp.diskSize)).length < fuel := by
        rw [next, length_drop]
        omega
      have reading' : Reading os s (off + a.vcp.diskSize) := on.reading within
      rw [records_cons a.some within]
      generalize taken : ((c.os.file c.clfilein.fd).drop off).take a.vcp.diskSize = v at *
      have queue : (if VnodeDiskObject.type a.host v ≠ vNull ∧ VnodeDiskObject.ino a.host v ≠ 0 then
          { c with os, clfilein := s, items := c.items ++ [VnodeDiskObject.ino a.host v] } else { c with os, clfilein := s }) =
          { c with os, clfilein := s, items := c.items ++ junk a [v] } := by
        by_cases counts : VnodeDiskObject.type a.host v ≠ vNull ∧ VnodeDiskObject.ino a.host v ≠ 0
        · simp [junk, counts.1, show ¬ VnodeDiskObject.ino a.host v = 0#64 from counts.2]
        · simp only [junk, filter_cons, filter_nil, decide_eq_true_eq, if_neg counts, map_nil, append_nil]
      obtain ⟨os', s', rest, file', outcome', direction'⟩ := @ih (off + a.vcp.diskSize)
        { c with os, clfilein := s, items := c.items ++ junk a [v] } (fun n => (congrFun on.outcome n).trans (fine n)) reading' fewer
      refine ⟨os', s', except_bind_eq_ok.mpr ⟨_, read, (if_neg (not_not.mpr length)).trans ?_⟩, file'.trans file,
        outcome'.trans on.outcome, direction'⟩
      refine (congrArg (fun c => CloneState.junkLoop a c fuel) queue).trans (rest.trans ?_)
      have items : (c.items ++ junk a [v]) ++ junk a (records a.vcp.diskSize ((os.file s.fd).drop (off + a.vcp.diskSize))) =
          c.items ++ junk a (v :: records a.vcp.diskSize (((c.os.file c.clfilein.fd).drop off).drop a.vcp.diskSize)) := by
        rw [next, append_assoc, ← junk_cons]
      exact congrArg (fun items => Except.ok { c with os := os', clfilein := s', items }) items
    · have part : (((c.os.file c.clfilein.fd).drop off).take a.vcp.diskSize).length ≠ a.vcp.diskSize := by
        rw [length_take]
        omega
      refine ⟨os, s, except_bind_eq_ok.mpr ⟨_, read, (if_pos part).trans ?_⟩, file, on.outcome, ?_⟩
      · rw [records_nil (Nat.not_le.mp within)]
        simp [junk]
      · rw [direction]
        simp

def CloneState.start (os : Os) (links : BitVec 64 → Nat) : CloneState := { os, links }

variable {os : Os} {links : BitVec 64 → Nat}

theorem streamSeek_first (os : Os) (fine : os.Fine) (fd : Bool) (offset : Nat) :
    ∃ os' s', streamSeek os { fd } offset = (os', s', true) ∧ Os.Only fd (os.file fd) os os' ∧ s'.fd = fd ∧ s'.error = false ∧
      Reading os' s' offset ∧ Writing (os.file fd) offset [] os' s' := by
  have drained : drain os { fd } = (os, 0, true) := drain_reading os (by simp)
  exact streamSeek_moves offset ⟨os, 0, drained, Os.Only.itself os fd⟩ fine

theorem openIndexes_at (a : CloneArgs) (fine : os.Fine) (links : BitVec 64 → Nat) :
    ∃ c, (CloneState.start os links).openIndexes a = (c, none) ∧
      At a (os.file true) (os.file false) [] a.vcp.diskSize c ∧ Reading c.os c.rwfile a.vcp.diskSize ∧ c.links = links ∧
      c.items = [] := by
  obtain ⟨os₂, rwfile, sought₂, only₂, fd₂, -, reading₂, -⟩ := streamSeek_first { os with calls := os.calls + 1 } fine false
    a.vcp.diskSize
  have fine₂ : os₂.Fine := only₂.fine fine
  have clone₂ : os₂.file true = os.file true := only₂.others true (by decide)
  obtain ⟨os₄, clfileout, sought₄, only₄, fd₄, error₄, -, writing₄⟩ := streamSeek_first { os₂ with calls := os₂.calls + 1 } fine₂
    true a.vcp.diskSize
  have fine₄ : os₄.Fine := only₄.fine fine₂
  have rw₄ : os₄.file false = os.file false := (only₄.others false (by decide)).trans only₂.here
  have writing : Writing (os.file true) a.vcp.diskSize [] os₄ clfileout := by
    rw [← clone₂]
    exact writing₄
  have readingRw : Reading os₄ rwfile a.vcp.diskSize := by
    refine reading₂.congr ?_
    rw [fd₂, rw₄, only₂.here]
  unfold CloneState.openIndexes CloneState.seekRw
  simp only [CloneState.start, fine.attempt, sought₂, fine₂.attempt, sought₄, fine₄.attempt, Bool.true_eq_false, if_false]
  by_cases reclone : a.reclone = true
  · obtain ⟨os₆, clfilein, sought₆, only₆, fd₆, -, reading₆, -⟩ := streamSeek_first { os₄ with calls := os₄.calls + 1 } fine₄
      true a.vcp.diskSize
    have rw₆ : os₆.file false = os₄.file false := only₆.others false (by decide)
    refine ⟨_, by rw [if_pos reclone, sought₆], ⟨only₆.fine fine₄, fd₂, fd₆, fd₄, rw₆.trans rw₄, readingRw.direction, ?_,
      Nat.le_refl _, reading₆.direction, fun _ => .inl ⟨reading₆.eof, reading₆⟩, error₄⟩, ?_, rfl, rfl⟩
    · refine writing.congr ?_
      rw [fd₄]
      exact only₆.here
    · refine readingRw.congr ?_
      rw [fd₂, rw₆]
  · refine ⟨_, if_neg reclone, ⟨fine₄, fd₂, rfl, fd₄, rw₄, readingRw.direction, writing, Nat.le_refl _, by simp,
      fun yes => absurd yes reclone, error₄⟩, readingRw, rfl, rfl⟩

theorem At.mainLoop (here : At a old index [] a.vcp.diskSize c) (reading : Reading c.os c.rwfile a.vcp.diskSize)
    (short : index.length < 2 ^ 31) (fuel : Nat) (enough : index.length < fuel) {rws : List VnodeDiskObject}
    (recs : records a.vcp.diskSize (index.drop a.vcp.diskSize) = rws) :
    (∀ code, cloneSlots a rws (olds a old a.vcp.diskSize) c.links c.items = .error code →
      ∃ c' offset, c.cloneLoop a a.vcp.diskSize fuel = .ok (c', offset, some code)) ∧
    (∀ links items, cloneSlots a rws (olds a old a.vcp.diskSize) c.links c.items = .ok (links, items) →
      ∃ c', c.cloneLoop a a.vcp.diskSize fuel =
          .ok (c', ((a.vcp.diskSize + (rws.map fun v => v.setCloned a.host false).flatten.length : Nat) : Int), none) ∧
        At a old (index.take a.vcp.diskSize ++ (rws.map (marked a)).flatten ++ index.drop (a.vcp.diskSize + rws.flatten.length))
          ((rws.map fun v => v.setCloned a.host false).flatten)
          (a.vcp.diskSize + (rws.map fun v => v.setCloned a.host false).flatten.length) c' ∧
        c'.links = links ∧ c'.items = items) := by
  have same : (rws.map fun v => v.setCloned a.host false).flatten.length = rws.flatten.length := by
    have all := records_length a.some (index.drop a.vcp.diskSize)
    rw [recs] at all
    have all' : ∀ v ∈ rws.map fun v => v.setCloned a.host false, v.length = a.vcp.diskSize := by
      intro v inside
      obtain ⟨w, member, rfl⟩ := List.mem_map.mp inside
      rw [VnodeDiskObject.length_setCloned]
      exact all w member
    rw [flatten_length all, flatten_length all', length_map]
  rw [same]
  by_cases within : a.vcp.diskSize ≤ index.length
  · have length : (index.take a.vcp.diskSize).length = a.vcp.diskSize := by
      rw [length_take]
      omega
    have split : index.take a.vcp.diskSize ++ index.drop a.vcp.diskSize = index := take_append_drop ..
    have start : At a old (index.take a.vcp.diskSize ++ index.drop a.vcp.diskSize) [] (index.take a.vcp.diskSize).length c := by
      rw [split, length]
      exact here
    have loop := start.cloneLoop fuel (by rw [length]; exact reading) (by rw [length]; rfl)
      (by rw [length_drop]; omega) (by rw [split]; exact short)
    rw [length, recs] at loop
    refine ⟨loop.1, fun links items fine => ?_⟩
    obtain ⟨c', rest, done, after, here', links', items'⟩ := loop.2 links items fine
    refine ⟨c', done, ?_, links', items'⟩
    have rest' : rest = index.drop (a.vcp.diskSize + rws.flatten.length) := by
      rw [← drop_drop, after, drop_left]
    rw [← rest']
    exact here'
  have none : rws = [] := by
    rw [← recs]
    apply records_nil
    rw [length_drop]
    omega
  subst none
  obtain ⟨fuel, rfl⟩ := Nat.exists_eq_succ_of_ne_zero (Nat.ne_of_gt (Nat.lt_of_le_of_lt (Nat.zero_le _) enough))
  obtain ⟨c₁, read, here₁, -, links₁, items₁⟩ := here.readRw reading
  have part : (pread index a.vcp.diskSize a.vcp.diskSize).length ≠ a.vcp.diskSize := by
    rw [length_pread]
    omega
  refine ⟨?_, fun links items fine => ?_⟩
  · exact fun code no => nomatch no
  cases fine
  refine ⟨c₁, except_bind_eq_ok.mpr ⟨_, read, if_pos part⟩, ?_, links₁, items₁⟩
  have whole : index.take a.vcp.diskSize ++ (([] : List VnodeDiskObject).map (marked a)).flatten ++
      index.drop (a.vcp.diskSize + ([] : List VnodeDiskObject).flatten.length) = index := by
    simp
  rw [whole]
  exact here₁

theorem unlink_items (items : List (BitVec 64)) (fine : c.os.Fine) :
    ∃ calls, items.foldl (fun c ino => (CloneState.ihDec c ino).1) c = { c with
        os := { c.os with calls }
        links := fun ino => c.links ino - items.count ino } := by
  induction items generalizing c with
  | nil => exact ⟨c.os.calls, rfl⟩
  | cons ino items ih =>
    have first : (c.ihDec ino).1 = { c with
        os := { c.os with calls := c.os.calls + 1 }
        links := Function.update c.links ino (c.links ino - 1) } := by
      unfold CloneState.ihDec
      rw [fine.attempt]
    rw [foldl_cons, first]
    obtain ⟨calls, done⟩ := @ih { c with
        os := { c.os with calls := c.os.calls + 1 }
        links := Function.update c.links ino (c.links ino - 1) } fine
    refine ⟨calls, done.trans ?_⟩
    have counts : (fun i => Function.update c.links ino (c.links ino - 1) i - items.count i) =
        fun i => c.links i - (ino :: items).count i := by
      funext i
      by_cases same : i = ino
      · subst same
        rw [Function.update_self, count_cons_self]
        omega
      · rw [Function.update_of_ne same, count_cons_of_ne (Ne.symm same)]
    exact congrArg (fun links => { c with os := { c.os with calls }, links }) counts

theorem finish_done (a : CloneArgs) (fine : c.os.Fine) (rwDirection : c.rwfile.direction ≠ .write)
    (inDirection : c.clfilein.direction ≠ .write) (outFd : c.clfileout.fd = true)
    (writing : Writing old a.vcp.diskSize data c.os c.clfileout) (n : Nat) :
    ∃ c', c.finish a n none = (c', 0) ∧ c'.os.file false = c.os.file false ∧
      c'.os.file true = (if a.reclone then ftruncate (pwrite old a.vcp.diskSize data) n else pwrite old a.vcp.diskSize data) ∧
      c'.links = fun ino => c.links ino - c.items.count ino := by
  obtain ⟨os₁, pos, drained, only⟩ := drain_writing fine writing
  rw [outFd] at only
  have fine₁ : os₁.Fine := only.fine fine
  unfold CloneState.finish streamClose
  simp only [drain_reading c.os rwDirection, drain_reading c.os inDirection, drained, fine₁.attempt, Bool.true_eq_false, if_false]
  by_cases reclone : a.reclone = true
  · obtain ⟨os₂, cut, only₂⟩ := @Os.Fine.trunc { os₁ with calls := os₁.calls + 1 } fine₁ true n
    simp only [reclone, if_true, cut]
    obtain ⟨calls, done⟩ := unlink_items (c := { c with os := os₂ }) c.items (only₂.fine fine₁)
    refine ⟨_, rfl, ?_⟩
    rw [done]
    refine ⟨(only₂.others false (by decide)).trans (only.others false (by decide)), only₂.here.trans ?_, rfl⟩
    rw [← only.here]
  · simp only [reclone, Bool.false_eq_true, if_false]
    obtain ⟨calls, done⟩ := unlink_items (c := { c with os := { os₁ with calls := os₁.calls + 1 } }) c.items fine₁
    refine ⟨_, rfl, ?_⟩
    rw [done]
    exact ⟨only.others false (by decide), only.here, rfl⟩

theorem finish_error (c : CloneState) (a : CloneArgs) (offset code : Int) : (c.finish a offset (some code)).2 = code := by
  unfold CloneState.finish
  simp only []
  split
  · rfl
  · rfl

def CloneArgs.rwRecords (a : CloneArgs) (os : Os) : List VnodeDiskObject :=
  records a.vcp.diskSize ((os.file false).drop a.vcp.diskSize)

def CloneArgs.clRecords (a : CloneArgs) (os : Os) : List VnodeDiskObject :=
  records a.vcp.diskSize ((os.file true).drop a.vcp.diskSize)

def CloneArgs.Fresh (a : CloneArgs) (os : Os) : Prop := a.reclone = false → a.clRecords os = []

theorem CloneArgs.Fresh.olds {a : CloneArgs} (fresh : a.Fresh os) : olds a (os.file true) a.vcp.diskSize = a.clRecords os := by
  unfold OpenAFS.Vol.olds
  by_cases reclone : a.reclone = true
  · exact if_pos reclone
  · rw [if_neg reclone, fresh (by simpa using reclone)]

theorem doCloneIndex_refused (fine : os.Fine) (short : (os.file false).length < 2 ^ 31) (fresh : a.Fresh os)
    (refused : ¬ Accepted a (a.rwRecords os) (a.clRecords os) links) :
    ∃ c' code, (CloneState.start os links).doCloneIndex a = .ok (c', code) ∧ code ≠ 0 := by
  obtain ⟨c, opened, here, reading, rfl, items⟩ := openIndexes_at a fine links
  obtain ⟨code, failed, nonzero⟩ := cloneSlots_refused [] refused
  have enough : (os.file false).length < c.fuel := by
    unfold CloneState.fuel
    rw [here.rwIndex]
    omega
  rw [← items, ← fresh.olds] at failed
  obtain ⟨c₁, offset, done⟩ := (here.mainLoop reading short c.fuel enough rfl).1 code failed
  refine ⟨(c₁.finish a offset (some code)).1, code, ?_, nonzero⟩
  unfold CloneState.doCloneIndex
  rw [opened]
  exact except_bind_eq_ok.mpr ⟨_, except_bind_eq_ok.mpr ⟨_, done, rfl⟩, congrArg Except.ok (Prod.ext rfl (finish_error c₁ a offset code))⟩

theorem At.cloneRecords (here : At a old index [] a.vcp.diskSize c) (reading : Reading c.os c.rwfile a.vcp.diskSize)
    (short : index.length < 2 ^ 31) {rws : List VnodeDiskObject}
    (recs : records a.vcp.diskSize (index.drop a.vcp.diskSize) = rws)
    (accepted : Accepted a rws (olds a old a.vcp.diskSize) c.links) (none : c.items = []) :
    ∃ c', c.cloneRecords a =
        .ok (c', ((a.vcp.diskSize + (rws.map fun v => v.setCloned a.host false).flatten.length : Nat) : Int), Option.none) ∧
      c'.os.Fine ∧ c'.rwfile.direction ≠ .write ∧ c'.clfilein.direction ≠ .write ∧ c'.clfileout.fd = true ∧
      Writing old a.vcp.diskSize ((rws.map fun v => v.setCloned a.host false).flatten) c'.os c'.clfileout ∧
      c'.os.file false = index.take a.vcp.diskSize ++ (rws.map (marked a)).flatten ++
        index.drop (a.vcp.diskSize + rws.flatten.length) ∧
      (c'.links = fun ino => c.links ino + (linked a rws (olds a old a.vcp.diskSize)).count ino) ∧
      c'.items = queued a rws (olds a old a.vcp.diskSize) ++
        if a.reclone then junk a (records a.vcp.diskSize (old.drop (a.vcp.diskSize +
          (rws.map fun v => v.setCloned a.host false).flatten.length))) else [] := by
  have enough : index.length < c.fuel := by
    unfold CloneState.fuel
    rw [here.rwIndex]
    omega
  have slots : cloneSlots a rws (olds a old a.vcp.diskSize) c.links c.items = .ok (_, _) := cloneSlots_accepted accepted
  rw [none, nil_append] at slots
  have loop := here.mainLoop reading short c.fuel enough recs
  rw [none] at loop
  obtain ⟨c₁, done, here₁, links₁, items₁⟩ := loop.2 _ _ slots
  generalize a.vcp.diskSize + (rws.map fun v => v.setCloned a.host false).flatten.length = off at done here₁ ⊢
  by_cases reclone : a.reclone = true
  · have drained := drain_reading c₁.os here₁.inDirection
    obtain ⟨os₂, s₂, sought, only, fd₂, -, reading₂, -⟩ := streamSeek_moves off
      ⟨c₁.os, _, drained, Os.Only.itself c₁.os c₁.clfilein.fd⟩ here₁.fine
    rw [here₁.inFd] at only fd₂
    have clone : (os₂.file s₂.fd).drop off = old.drop off := by
      rw [fd₂, only.here]
      exact here₁.clone_drop
    have fuel₂ : ((os₂.file s₂.fd).drop off).length < CloneState.fuel { c₁ with os := os₂, clfilein := s₂ } := by
      rw [fd₂, length_drop]
      change _ < (os₂.file false).length + (os₂.file true).length + 1
      omega
    obtain ⟨os₃, s₃, done₃, file₃, outcome₃, direction₃⟩ := @junkLoop_queues a off { c₁ with os := os₂, clfilein := s₂ } _
      (only.fine here₁.fine) reading₂ fuel₂
    have rw₃ : os₃.file false = c₁.os.file false := by
      rw [file₃]
      exact only.others false (by decide)
    have clone₃ : os₃.file true = c₁.os.file true := by
      rw [file₃]
      exact only.here
    refine ⟨{ c₁ with
        os := os₃
        clfilein := s₃
        items := c₁.items ++ junk a (records a.vcp.diskSize ((os₂.file s₂.fd).drop off)) },
      except_bind_eq_ok.mpr ⟨_, done, ?_⟩, ?_, here₁.rwDirection, direction₃, here₁.outFd, here₁.writing.congr ?_,
      rw₃.trans here₁.rwIndex, links₁, ?_⟩
    · simp only [here₁.error, Bool.false_eq_true, if_false, reclone, if_true, sought]
      exact except_bind_eq_ok.mpr ⟨_, done₃, rfl⟩
    · exact fun n => (congrFun outcome₃ n).trans (only.fine here₁.fine n)
    · rw [here₁.outFd]
      exact clone₃
    · rw [if_pos reclone, ← clone, ← items₁]
  · refine ⟨c₁, except_bind_eq_ok.mpr ⟨_, done, ?_⟩, here₁.fine, here₁.rwDirection, here₁.inDirection, here₁.outFd, here₁.writing,
      here₁.rwIndex, links₁, ?_⟩
    · simp only [here₁.error, Bool.false_eq_true, if_false, reclone]
    · rw [if_neg reclone, append_nil]
      exact items₁

theorem doCloneIndex_accepted (fine : os.Fine) (short : (os.file false).length < 2 ^ 31) (fresh : a.Fresh os)
    (accepted : Accepted a (a.rwRecords os) (a.clRecords os) links) :
    ∃ c', (CloneState.start os links).doCloneIndex a = .ok (c', 0) ∧
      a.clRecords c'.os = (a.rwRecords os).map (fun v => v.setCloned a.host false) ∧
      c'.os.file false = (os.file false).take a.vcp.diskSize ++ ((a.rwRecords os).map (marked a)).flatten ++
        (os.file false).drop (a.vcp.diskSize + (a.rwRecords os).flatten.length) ∧
      c'.links = fun ino => links ino + (linked a (a.rwRecords os) (a.clRecords os)).count ino -
        (queued a (a.rwRecords os) (a.clRecords os) ++ junk a ((a.clRecords os).drop (a.rwRecords os).length)).count ino := by
  obtain ⟨c, opened, here, reading, rfl, items⟩ := openIndexes_at a fine links
  rw [← fresh.olds] at accepted
  have recs : records a.vcp.diskSize ((os.file false).drop a.vcp.diskSize) = a.rwRecords os := rfl
  obtain ⟨c₁, done, fine₁, rwDirection, inDirection, outFd, writing, index₁, links₁, items₁⟩ :=
    here.cloneRecords reading short recs accepted items
  obtain ⟨c₂, finished, index₂, clone₂, links₂⟩ := finish_done a fine₁ rwDirection inDirection outFd writing
    (a.vcp.diskSize + ((a.rwRecords os).map fun v => v.setCloned a.host false).flatten.length)
  have all : ∀ v ∈ (a.rwRecords os).map fun v => v.setCloned a.host false, v.length = a.vcp.diskSize := by
    intro v inside
    obtain ⟨w, member, rfl⟩ := List.mem_map.mp inside
    rw [VnodeDiskObject.length_setCloned]
    exact records_length a.some _ w member
  refine ⟨c₂, ?_, ?_, index₂.trans index₁, ?_⟩
  · unfold CloneState.doCloneIndex
    rw [opened]
    exact except_bind_eq_ok.mpr ⟨_, done, congrArg Except.ok finished⟩
  · unfold CloneArgs.clRecords
    rw [clone₂]
    by_cases reclone : a.reclone = true
    · rw [if_pos reclone, drop_ftruncate, drop_pwrite_start, ftruncate_append]
      have whole := @records_flatten a.vcp.diskSize a.some _ [] all a.some
      rwa [append_nil] at whole
    rw [if_neg reclone, drop_pwrite_start]
    refine records_flatten a.some all ?_
    have none := fresh (by simpa using reclone)
    by_contra long
    unfold CloneArgs.clRecords at none
    rw [records_cons a.some] at none
    · cases none
    · rw [length_drop] at long ⊢
      omega
  · rw [links₂, links₁, items₁, ← fresh.olds]
    funext ino
    congr 3
    by_cases reclone : a.reclone = true
    · rw [if_pos reclone, flatten_length all, length_map]
      unfold olds
      rw [if_pos reclone, ← records_drop a.some, drop_drop]
    rw [if_neg reclone]
    unfold olds
    rw [if_neg reclone, drop_nil]
    rfl

theorem count_junk {ino : BitVec 64} (some : ino ≠ 0) (vs : List VnodeDiskObject) : (junk a vs).count ino = naming a ino vs := by
  unfold junk naming List.count
  rw [countP_map, countP_filter]
  apply countP_congr
  intro v _
  simp only [Function.comp_apply, Bool.and_eq_true, beq_iff_eq, decide_eq_true_eq]
  constructor
  · rintro ⟨same, used, -⟩
    exact ⟨used, same⟩
  · rintro ⟨used, rfl⟩
    exact ⟨rfl, used, some⟩

/-- What the call is to do: the clone's index is that of the original without the marks, the directories of a writeable original
are marked and nothing else of it is different, and the links have followed the references. -/
structure Cloned (a : CloneArgs) (os : Os) (links : BitVec 64 → Nat) (c : CloneState) : Prop where
  clone : a.clRecords c.os = (a.rwRecords os).map fun v => v.setCloned a.host false
  original : c.os.file false = (os.file false).take a.vcp.diskSize ++ ((a.rwRecords os).map (marked a)).flatten ++
    (os.file false).drop (a.vcp.diskSize + (a.rwRecords os).flatten.length)
  links : ∀ ino ≠ 0, c.links ino + naming a ino (a.clRecords os) = links ino + naming a ino (a.clRecords c.os)

def CloneArgs.Counted (a : CloneArgs) (os : Os) (links : BitVec 64 → Nat) : Prop :=
  ∀ ino ≠ 0, (a.clRecords os).countP (fun v => v.ino a.host = ino) ≤ links ino

/-- No record of the old clone that is not in use and that lies beside a record of the original names an inode. -/
def CloneArgs.Clean (a : CloneArgs) (os : Os) : Prop :=
  ∀ v ∈ (a.clRecords os).take (a.rwRecords os).length, v.type a.host = vNull → v.ino a.host = 0

/-- An index of small vnodes with one record, all of it zero but for the low byte of its inode. -/
def oneRecord (ino : UInt8) : Bytes := List.replicate 64 0 ++ (List.replicate 16 0 ++ ino :: List.replicate 47 0)

def oneEach (rw cl : UInt8) : Os := { file := fun fd => oneRecord (if fd then cl else rw) }

def smallReclone : CloneArgs := ⟨.little, vSmall, true, true⟩

theorem oneEach_counted (rw cl : UInt8) : smallReclone.Counted (oneEach rw cl) fun _ => 1 := by
  intro ino _
  have one : (smallReclone.clRecords (oneEach rw cl)).length = 1 := by
    simp [CloneArgs.clRecords, oneEach, oneRecord, smallReclone, vSmall, records, chunks]
  exact Nat.le_trans countP_le_length (Nat.le_of_eq one)

end OpenAFS.Vol
