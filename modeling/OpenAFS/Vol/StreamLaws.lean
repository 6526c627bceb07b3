import OpenAFS.Vol.Streams

namespace OpenAFS.Vol

open Lib List

def Os.Fine (os : Os) : Prop := ∀ n, os.outcome n = .done

structure Os.Only (fd : Bool) (file : Bytes) (os os' : Os) : Prop where
  here : os'.file fd = file
  others : ∀ fd', fd' ≠ fd → os'.file fd' = os.file fd'
  outcome : os'.outcome = os.outcome

variable {os os' : Os} {fd : Bool} {s s' : StreamHandle}

theorem Os.Fine.call (fine : os.Fine) : os.call = ({ os with calls := os.calls + 1 }, .done) := by
  unfold Os.call
  rw [fine]

theorem Os.Fine.read (fine : os.Fine) (fd : Bool) (pos n : Nat) :
    os.read fd pos n = ({ os with calls := os.calls + 1 }, some (pread (os.file fd) pos n)) := by
  unfold Os.read
  rw [fine.call]

theorem Os.Fine.write (fine : os.Fine) (fd : Bool) (pos : Nat) (data : Bytes) :
    ∃ os', os.write fd pos data = (os', some data.length) ∧ Os.Only fd (pwrite (os.file fd) pos data) os os' := by
  unfold Os.write
  rw [fine.call]
  exact ⟨_, rfl, Function.update_self .., fun fd' other => Function.update_of_ne other .., rfl⟩

theorem Os.Fine.attempt (fine : os.Fine) : os.attempt = ({ os with calls := os.calls + 1 }, true) := by
  unfold Os.attempt
  rw [fine.call]

theorem Os.Fine.trunc (fine : os.Fine) (fd : Bool) (length : Nat) :
    ∃ os', os.trunc fd length = (os', true) ∧ Os.Only fd (ftruncate (os.file fd) length) os os' := by
  unfold Os.trunc
  rw [fine.call]
  exact ⟨_, if_neg (by omega), Function.update_self .., fun fd' other => Function.update_of_ne other .., rfl⟩

namespace Os.Only

theorem fine {file : Bytes} (only : Os.Only fd file os os') (fine : os.Fine) : os'.Fine := fun n => by
  rw [only.outcome]
  exact fine n

theorem again {file file' : Bytes} {os'' : Os} (first : Os.Only fd file os os') (second : Os.Only fd file' os' os'') :
    Os.Only fd file' os os'' where
  here := second.here
  others := fun fd' other => (second.others fd' other).trans (first.others fd' other)
  outcome := second.outcome.trans first.outcome

theorem itself (os : Os) (fd : Bool) : Os.Only fd (os.file fd) os os := ⟨rfl, fun _ _ => rfl, rfl⟩

end Os.Only

structure Reading (os : Os) (s : StreamHandle) (off : Nat) : Prop where
  pos : s.pos = off + s.buffer.length
  buffer : s.buffer <+: (os.file s.fd).drop off
  direction : s.direction ≠ .write
  fresh : s.direction = .none → s.buffer = []
  eof : s.eof = false

theorem Reading.congr {off : Nat} (reading : Reading os s off) (same : (os'.file s.fd).drop off = (os.file s.fd).drop off) :
    Reading os' s off :=
  ⟨reading.pos, same ▸ reading.buffer, reading.direction, reading.fresh, reading.eof⟩

theorem prefix_drop {α : Type} {l l' : List α} (before : l <+: l') (n : Nat) (few : n ≤ l.length) :
    l.take n = l'.take n ∧ l.drop n <+: l'.drop n := by
  obtain ⟨rest, rfl⟩ := before
  refine ⟨(take_append_of_le_length few).symm, rest, ?_⟩
  rw [drop_append_of_le_length few]

structure ReadOn (os : Os) (s : StreamHandle) (off nbytes : Nat) (os' : Os) (s' : StreamHandle) : Prop where
  file : os'.file = os.file
  outcome : os'.outcome = os.outcome
  fd : s'.fd = s.fd
  error : s'.error = s.error
  reading : nbytes ≤ ((os.file s.fd).drop off).length → Reading os' s' (off + nbytes)
  ended : ((os.file s.fd).drop off).length < nbytes → s'.eof = true
  direction : s'.direction = s.direction

theorem readLoop_reads (fuel nbytes : Nat) {off : Nat} (got : Bytes) (fine : os.Fine) (reading : Reading os s off)
    (started : s.direction = .read) (enough : nbytes ≤ fuel) :
    ∃ os' s', readLoop os s got nbytes fuel = (os', s', got ++ ((os.file s.fd).drop off).take nbytes) ∧
      ReadOn os s off nbytes os' s' := by
  induction fuel generalizing os s off nbytes got with
  | zero =>
    obtain rfl := Nat.le_zero.mp enough
    refine ⟨os, s, by simp [readLoop], rfl, rfl, rfl, rfl, fun _ => reading, fun no => absurd no (Nat.not_lt_zero _), rfl⟩
  | succ fuel ih =>
    by_cases stop : nbytes = 0
    · subst stop
      refine ⟨os, s, by simp [readLoop], rfl, rfl, rfl, rfl, fun _ => reading, fun no => absurd no (Nat.not_lt_zero _), rfl⟩
    have goes : ¬ (nbytes = 0 ∨ s.eof = true) := by
      rw [reading.eof]
      simpa using stop
    -- a buffer that is not empty: some of it is taken
    have copy (os₁ : Os) (s₁ : StreamHandle) (reading₁ : Reading os₁ s₁ off) (fine₁ : os₁.Fine) (file : os₁.file = os.file)
        (outcome : os₁.outcome = os.outcome) (fd : s₁.fd = s.fd) (error : s₁.error = s.error)
        (direction : s₁.direction = .read) (some : s₁.buffer ≠ []) :
        ∃ os' s', readLoop os₁ { s₁ with buffer := s₁.buffer.drop nbytes } (got ++ s₁.buffer.take nbytes)
            (nbytes - s₁.buffer.length) fuel = (os', s', got ++ ((os.file s.fd).drop off).take nbytes) ∧
          ReadOn os s off nbytes os' s' := by
      have long : 0 < s₁.buffer.length := length_pos_of_ne_nil some
      obtain ⟨taken, left⟩ := prefix_drop reading₁.buffer (min nbytes s₁.buffer.length) (Nat.min_le_right _ _)
      have sizes := reading₁.buffer.length_le
      rw [file, fd] at taken left sizes
      have dropped : s₁.buffer.drop (min nbytes s₁.buffer.length) = s₁.buffer.drop nbytes := by
        by_cases few : nbytes ≤ s₁.buffer.length
        · rw [Nat.min_eq_left few]
        · rw [Nat.min_eq_right (by omega), drop_of_length_le (by omega), drop_of_length_le (by omega)]
      have took : s₁.buffer.take (min nbytes s₁.buffer.length) = s₁.buffer.take nbytes := by
        rw [← take_take, take_length]
      have next : Reading os₁ { s₁ with buffer := s₁.buffer.drop nbytes } (off + min nbytes s₁.buffer.length) := by
        refine ⟨?_, ?_, reading₁.direction, ?_, reading₁.eof⟩
        · change s₁.pos = _ + (s₁.buffer.drop nbytes).length
          rw [reading₁.pos, length_drop]
          omega
        · change s₁.buffer.drop nbytes <+: (os₁.file s₁.fd).drop _
          rw [file, fd, ← drop_drop, ← dropped]
          exact left
        · intro none
          rw [direction] at none
          cases none
      obtain ⟨os', s', done, on⟩ := ih (nbytes - s₁.buffer.length) (got ++ s₁.buffer.take nbytes) fine₁ next direction
        (by omega)
      have file' : (os₁.file s₁.fd).drop (off + min nbytes s₁.buffer.length) =
          ((os.file s.fd).drop off).drop (min nbytes s₁.buffer.length) := by
        rw [file, fd, drop_drop]
      have rest := on.reading
      have ended := on.ended
      change _ ≤ ((os₁.file s₁.fd).drop _).length → _ at rest
      change ((os₁.file s₁.fd).drop _).length < _ → _ at ended
      rw [file', length_drop] at rest ended
      refine ⟨os', s', done.trans ?_, on.file.trans file, on.outcome.trans outcome, on.fd.trans fd, on.error.trans error,
        fun within => ?_, fun beyond => ended (by omega), on.direction.trans (direction.trans started.symm)⟩
      · change (os', s', got ++ s₁.buffer.take nbytes ++ ((os₁.file s₁.fd).drop _).take _) = _
        rw [file', append_assoc, ← took, taken]
        have split : nbytes = min nbytes s₁.buffer.length + (nbytes - s₁.buffer.length) := by omega
        conv_rhs => rw [split, take_add]
      · have rest := rest (by omega)
        rwa [show off + min nbytes s₁.buffer.length + (nbytes - s₁.buffer.length) = off + nbytes by omega] at rest
    unfold readLoop
    rw [if_neg goes]
    by_cases empty : s.buffer = []
    · have here : s.pos = off := by
        rw [reading.pos, empty]
        rfl
      rw [if_pos empty, fine.read]
      cases chunk : pread (os.file s.fd) s.pos streamHandleBufsize with
      | nil =>
        have short : (os.file s.fd).drop off = [] := by
          rw [here] at chunk
          exact (List.take_eq_nil_iff.mp chunk).resolve_left (by decide)
        refine ⟨{ os with calls := os.calls + 1 }, { s with eof := true }, ?_, rfl, rfl, rfl, rfl, fun within => ?_, fun _ => rfl, rfl⟩
        · rw [short, take_nil, append_nil]
        · rw [short] at within
          exact absurd (Nat.le_zero.mp within) stop
      | cons b rest =>
        refine copy { os with calls := os.calls + 1 } { s with pos := s.pos + (b :: rest).length, buffer := b :: rest }
          ⟨?_, ?_, ?_, ?_, reading.eof⟩ fine rfl rfl rfl rfl started (cons_ne_nil _ _)
        · change s.pos + _ = off + _
          rw [here]
        · change b :: rest <+: (os.file s.fd).drop off
          rw [← chunk, here]
          exact take_prefix _ _
        · exact reading.direction
        · intro none
          exact absurd (none.symm.trans started) (by decide)
    · rw [if_neg empty]
      exact copy os s reading fine rfl rfl rfl rfl started empty

theorem streamRead_reads {off : Nat} (size : Nat) (fine : os.Fine) (reading : Reading os s off) :
    ∃ os' s', streamRead os s size = .ok (os', s', pread (os.file s.fd) off size) ∧
      ReadOn os { s with direction := .read } off size os' s' := by
  have buffer : (if s.direction = .none then [] else s.buffer) = s.buffer := by
    split
    · rename_i none
      exact (reading.fresh none).symm
    · rfl
  have started : Reading os { s with direction := .read } off :=
    ⟨reading.pos, reading.buffer, by simp, (fun none => by cases none), reading.eof⟩
  obtain ⟨os', s', done, on⟩ := readLoop_reads size size [] fine started rfl (Nat.le_refl _)
  refine ⟨os', s', except_bind_eq_ok.mpr ⟨(), ensure_eq_ok.mpr reading.direction, ?_⟩, on⟩
  rw [buffer]
  exact congrArg Except.ok done

structure Writing (old : Bytes) (base : Nat) (data : Bytes) (os : Os) (s : StreamHandle) : Prop where
  split : ∃ flushed, data = flushed ++ s.buffer ∧ os.file s.fd = pwrite old base flushed ∧ s.pos = base + flushed.length
  room : s.buffer.length ≤ streamHandleBufsize
  direction : s.direction ≠ .read
  fresh : s.direction = .none → s.buffer = []

namespace Writing

variable {old data : Bytes} {base : Nat}

theorem congr (writing : Writing old base data os s) (same : os'.file s.fd = os.file s.fd) : Writing old base data os' s :=
  ⟨by rw [same]; exact writing.split, writing.room, writing.direction, writing.fresh⟩

theorem drop (writing : Writing old base data os s) {n : Nat} (behind : base + data.length ≤ n) :
    (os.file s.fd).drop n = old.drop n := by
  obtain ⟨flushed, rfl, file, -⟩ := writing.split
  rw [length_append] at behind
  rw [file, drop_pwrite (by omega)]

theorem loop (fuel : Nat) (p : Bytes) (written : Nat) (fine : os.Fine) (writing : Writing old base data os s)
    (started : s.direction = .write) (enough : p.length ≤ fuel) :
    ∃ os' s', writeLoop os s p written fuel = (os', s', written + p.length) ∧ Writing old base (data ++ p) os' s' ∧
      Os.Only s.fd (os'.file s.fd) os os' ∧ s'.fd = s.fd ∧ s'.error = s.error := by
  induction fuel generalizing os s data p written with
  | zero =>
    obtain rfl := eq_nil_of_length_eq_zero (Nat.le_zero.mp enough)
    exact ⟨os, s, rfl, by rwa [append_nil], Os.Only.itself os s.fd, rfl, rfl⟩
  | succ fuel ih =>
    by_cases stop : p = []
    · subst stop
      exact ⟨os, s, if_pos rfl, by rwa [append_nil], Os.Only.itself os s.fd, rfl, rfl⟩
    -- the buffer takes some bytes, and the loop goes on with the others
    have fill (os₁ : Os) (s₁ : StreamHandle) (n : Nat) (some : 0 < n) (writing₁ : Writing old base (data ++ p.take n) os₁ s₁)
        (fine₁ : os₁.Fine) (direction : s₁.direction = .write) (only : Os.Only s.fd (os₁.file s.fd) os os₁)
        (fd : s₁.fd = s.fd) (error : s₁.error = s.error) :
        ∃ os' s', writeLoop os₁ s₁ (p.drop n) (written + min p.length n) fuel = (os', s', written + p.length) ∧
          Writing old base (data ++ p) os' s' ∧ Os.Only s.fd (os'.file s.fd) os os' ∧ s'.fd = s.fd ∧ s'.error = s.error := by
      obtain ⟨os', s', done, after, only', fd', error'⟩ := ih (p.drop n) (written + min p.length n) fine₁ writing₁ direction
        (by rw [length_drop]; omega)
      rw [fd] at only'
      refine ⟨os', s', done.trans ?_, ?_, only.again only', fd'.trans fd, error'.trans error⟩
      · rw [length_drop]
        exact congrArg (fun n => (os', s', n)) (by omega)
      · rwa [append_assoc, take_append_drop] at after
    obtain ⟨flushed, rfl, file, pos⟩ := writing.split
    unfold writeLoop
    rw [if_neg stop]
    by_cases full : s.buffer.length = streamHandleBufsize
    · obtain ⟨os₁, wrote, only⟩ := fine.write s.fd s.pos s.buffer
      rw [if_pos full, wrote]
      refine fill os₁ { s with pos := s.pos + s.buffer.length, buffer := p.take streamHandleBufsize } _ (by decide) ?_
        (only.fine fine) started ⟨rfl, only.others, only.outcome⟩ rfl rfl
      refine ⟨⟨flushed ++ s.buffer, rfl, ?_, ?_⟩, ?_, writing.direction, fun none => absurd (none.symm.trans started) (by decide)⟩
      · change os₁.file s.fd = _
        rw [only.here, file, pos, pwrite_append]
      · change s.pos + s.buffer.length = _
        rw [pos, length_append, Nat.add_assoc]
      · exact length_take_le _ _
    · rw [if_neg full]
      have room := writing.room
      refine fill os { s with buffer := s.buffer ++ p.take (streamHandleBufsize - s.buffer.length) } _ (by omega) ?_ fine started
        (Os.Only.itself os s.fd) rfl rfl
      refine ⟨⟨flushed, (append_assoc ..), file, pos⟩, ?_, writing.direction,
        fun none => absurd (none.symm.trans started) (by decide)⟩
      change (s.buffer ++ p.take _).length ≤ _
      rw [length_append, length_take]
      omega

end Writing

theorem streamWrite_writes {old data : Bytes} {base : Nat} (p : Bytes) (fine : os.Fine) (writing : Writing old base data os s) :
    ∃ os' s', streamWrite os s p = .ok (os', s', p.length) ∧ Writing old base (data ++ p) os' s' ∧
      Os.Only s.fd (os'.file s.fd) os os' ∧ s'.fd = s.fd ∧ s'.error = s.error := by
  have buffer : (if s.direction = .none then [] else s.buffer) = s.buffer := by
    split
    · rename_i none
      exact (writing.fresh none).symm
    · rfl
  have started : Writing old base data os { s with direction := .write } :=
    ⟨writing.split, writing.room, by simp, fun none => by cases none⟩
  obtain ⟨os', s', done, after⟩ := started.loop p.length p 0 fine rfl (Nat.le_refl _)
  refine ⟨os', s', except_bind_eq_ok.mpr ⟨(), ensure_eq_ok.mpr writing.direction, ?_⟩, after⟩
  rw [Nat.zero_add] at done
  rw [buffer]
  exact congrArg Except.ok done

theorem drain_writing {old data : Bytes} {base : Nat} (fine : os.Fine) (writing : Writing old base data os s) :
    ∃ os' pos, drain os s = (os', pos, true) ∧ Os.Only s.fd (pwrite old base data) os os' := by
  obtain ⟨flushed, rfl, file, pos⟩ := writing.split
  unfold drain
  by_cases some : s.direction = .write ∧ s.buffer ≠ []
  · obtain ⟨os', wrote, only⟩ := fine.write s.fd s.pos s.buffer
    rw [if_pos some, wrote]
    rw [file, pos, pwrite_append] at only
    exact ⟨os', _, rfl, only⟩
  have empty : s.buffer = [] := by
    cases direction : s.direction with
    | none => exact writing.fresh direction
    | read => exact absurd direction writing.direction
    | write => exact not_not.mp fun full => some ⟨direction, full⟩
  rw [if_neg some, empty, append_nil]
  exact ⟨os, s.pos, rfl, file, fun _ _ => rfl, rfl⟩

theorem drain_reading (os : Os) (direction : s.direction ≠ .write) : drain os s = (os, s.pos, true) :=
  if_neg fun both => direction both.1

theorem streamSeek_moves {file : Bytes} (offset : Nat)
    (drained : ∃ os₁ pos, drain os s = (os₁, pos, true) ∧ Os.Only s.fd file os os₁) (fine : os.Fine) :
    ∃ os' s', streamSeek os s offset = (os', s', true) ∧ Os.Only s.fd file os os' ∧ s'.fd = s.fd ∧ s'.error = s.error ∧
      Reading os' s' offset ∧ Writing file offset [] os' s' := by
  obtain ⟨os₁, pos, drained, only⟩ := drained
  unfold streamSeek
  rw [drained]
  simp only [(only.fine fine).attempt]
  refine ⟨_, _, if_pos ⟨trivial, Int.natCast_nonneg _⟩, ⟨only.here, only.others, only.outcome⟩, rfl, Bool.or_false _, ?_, ?_⟩
  · exact ⟨rfl, nil_prefix, by simp, fun _ => rfl, rfl⟩
  · exact ⟨⟨[], rfl, only.here, rfl⟩, Nat.zero_le _, by simp, fun _ => rfl⟩

end OpenAFS.Vol
