import OpenAFS.Ubik.Log

namespace OpenAFS.Ubik

open Lib List

def LogRecord.ints : LogRecord → List UInt32
  | .new => [logNew]
  | .abort => [logAbort]
  | .truncate file length => [logTruncate, file.word, length.word]
  | .data file pos bytes _ => [logData, file.word, pos.word, .ofNat bytes.length]

def LogRecord.tail : LogRecord → List UInt8
  | .new | .abort | .truncate _ _ => []
  | .data _ _ bytes _ => bytes

def LogRecord.bytes (r : LogRecord) : List UInt8 := r.ints.flatMap wordBytes ++ r.tail

def endInts (v : Label) : List UInt32 := [logEnd, v.epoch, v.counter]

def logBytes (rs : List LogRecord) (v : Label) : List UInt8 :=
  rs.flatMap LogRecord.bytes ++ (endInts v).flatMap wordBytes

def LogRecord.decoded : LogRecord → Decoded
  | .new | .abort => .new
  | .truncate file length => .truncate file.word length.word
  | .data file pos bytes _ => .data file.word pos.word bytes

def LogRecord.apply : LogRecord → Disk → Disk
  | .new, d | .abort, d => d
  | .truncate file length, d => uphysTruncate file.word length.val d
  | .data file pos bytes _, d => uphysWrite file.word pos.val bytes d

def applyRecords (rs : List LogRecord) (d : Disk) : Disk := rs.foldl (fun d r => r.apply d) d

theorem logWrite_eq (d : Disk) (bytes : List UInt8) : d.logWrite bytes = { d with log := d.log ++ bytes } := by
  unfold Disk.logWrite
  rw [pwrite_length]

variable (o : ByteOrder) (r : LogRecord)

theorem append_eq (d : Disk) : r.append o d = { d with log := d.log ++ r.bytes } := by
  cases r <;> simp [LogRecord.append, udiskLogOpcode, udiskLogTruncate, udiskLogWriteData, LogRecord.bytes,
    LogRecord.ints, LogRecord.tail, logWrite_eq, store_htonl]

theorem foldl_append_eq (rs : List LogRecord) (d : Disk) :
    rs.foldl (fun d r => r.append o d) d = { d with log := d.log ++ rs.flatMap LogRecord.bytes } := by
  induction rs generalizing d with
  | nil => simp
  | cons r rs ih => rw [foldl_cons, append_eq, ih, flatMap_cons, append_assoc]

theorem appendLog_eq (rs : List LogRecord) (v : Label) (d : Disk) :
    appendLog o rs v d = { d with log := d.log ++ logBytes rs v } := by
  simp [appendLog, foldl_append_eq, udiskLogEnd, logWrite_eq, store_htonl, endInts, logBytes]

theorem length_ints (words : List UInt32) : (words.flatMap wordBytes).length = 4 * words.length := by
  induction words with
  | nil => rfl
  | cons x words ih =>
    rw [flatMap_cons, length_append, ih, wordBytes_length, length_cons]
    omega

theorem loadInts_cons (x : UInt32) (rest : List UInt8) :
    loadInts o (wordBytes x ++ rest) = o.load (wordBytes x) :: loadInts o rest := rfl

theorem loadInts_big (words : List UInt32) : loadInts .big (words.flatMap wordBytes) = words := by
  induction words with
  | nil => rfl
  | cons x words ih => rw [flatMap_cons, loadInts_cons, load_big, ih]

variable {words : List UInt32} {n : Nat}

section Cursor

variable {d : Disk} {pos : Nat} {rest : List UInt8}

theorem readLog_of_drop (cursor : d.log.drop pos = rest) (n : Nat) :
    d.readLog pos n = if n ≤ rest.length then some (rest.take n) else none := by
  unfold Disk.readLog pread
  rw [cursor, length_take]
  by_cases enough : n ≤ rest.length
  · rw [if_pos enough, if_pos (Nat.min_eq_left enough)]
  · rw [if_neg enough, if_neg (by omega)]

theorem drop_next {first : List UInt8} {m : Nat} (length : first.length = n)
    (cursor : d.log.drop pos = (first ++ rest).take m) : d.log.drop (pos + n) = rest.take (m - n) := by
  subst length
  rw [← drop_drop, cursor, drop_take, drop_left]

theorem readLog_cut {first : List UInt8} {m : Nat} (length : first.length = n)
    (cursor : d.log.drop pos = (first ++ rest).take m) :
    d.readLog pos n = if n ≤ m then some first else none := by
  subst length
  rw [readLog_of_drop cursor, length_take, length_append]
  by_cases enough : first.length ≤ m
  · rw [if_pos (by omega), if_pos enough, take_take, Nat.min_eq_left enough, take_left]
  · rw [if_neg (by omega), if_neg enough]

theorem readInts_cut {m : Nat} (count : words.length = n)
    (cursor : d.log.drop pos = (words.flatMap wordBytes ++ rest).take m) :
    d.readInts .big pos n = if 4 * n ≤ m then some words else none := by
  have length : (words.flatMap wordBytes).length = 4 * n := by rw [length_ints, count]
  rw [Disk.readInts, readLog_cut length cursor]
  split
  · rw [Option.map_some, loadInts_big]
  · rfl

end Cursor

theorem toNat_length_word (short : n < 2 ^ 31) : (UInt32.ofNat n).toNat = n := by
  exact Nat.mod_eq_of_lt (Nat.lt_trans short (by decide))

theorem skipData_length (tpos : Nat) {bytes : List UInt8} (short : bytes.length < 2 ^ 31) :
    skipData tpos (.ofNat bytes.length) = some (tpos + 12 + bytes.length) := by
  rw [skipData, toNat_length_word short, if_pos short]

variable {rs : List LogRecord}

section FirstPass

variable {d : Disk} {pos m : Nat} {rest : List UInt8}

theorem firstPass_cut {opcode : UInt32}
    (cursor : d.log.drop pos = ((opcode :: words).flatMap wordBytes ++ rest).take m) (cut : m < 4) (fuel : Nat) :
    firstPass .big d (fuel + 1) pos = some false := by
  have split : (opcode :: words).flatMap wordBytes ++ rest =
      [opcode].flatMap wordBytes ++ (words.flatMap wordBytes ++ rest) := by simp
  rw [split] at cursor
  have none := readInts_cut (n := 1) rfl cursor
  rw [if_neg (by omega)] at none
  simp only [firstPass, none]

theorem readOpcode {opcode : UInt32}
    (cursor : d.log.drop pos = ((opcode :: words).flatMap wordBytes ++ rest).take m) (enough : 4 ≤ m) :
    d.readInts .big pos 1 = some [opcode] ∧ d.log.drop (pos + 4) = (words.flatMap wordBytes ++ rest).take (m - 4) := by
  have split : (opcode :: words).flatMap wordBytes ++ rest =
      [opcode].flatMap wordBytes ++ (words.flatMap wordBytes ++ rest) := by simp
  rw [split] at cursor
  refine ⟨?_, drop_next (by simp) cursor⟩
  rw [readInts_cut (n := 1) rfl cursor, if_pos enough]

theorem firstPass_record {r : LogRecord} (cursor : d.log.drop pos = (r.bytes ++ rest).take m) (fuel : Nat) :
    firstPass .big d (fuel + 1) pos =
      if 4 * r.ints.length ≤ m ∧ r ≠ .abort then firstPass .big d fuel (pos + r.bytes.length) else some false := by
  rw [LogRecord.bytes, append_assoc] at cursor
  rw [LogRecord.bytes, length_append, length_ints]
  by_cases enough : 4 ≤ m
  · cases r with
    | new =>
      obtain ⟨opcode, -⟩ := readOpcode cursor enough
      simp [firstPass, opcode, LogRecord.ints, LogRecord.tail, enough]
    | abort =>
      obtain ⟨opcode, -⟩ := readOpcode cursor enough
      simp [firstPass, opcode]
    | truncate file length =>
      obtain ⟨opcode, fields⟩ := readOpcode cursor enough
      have read := readInts_cut (n := 2) rfl fields
      by_cases whole : 12 ≤ m
      · rw [if_pos (by omega)] at read
        simp [firstPass, opcode, read, LogRecord.ints, LogRecord.tail, whole]
      · rw [if_neg (by omega)] at read
        simp [firstPass, opcode, read, LogRecord.ints, whole]
    | data file filePos bytes short =>
      obtain ⟨opcode, fields⟩ := readOpcode cursor enough
      have read := readInts_cut (n := 3) rfl fields
      have next : pos + (4 * 4 + bytes.length) = pos + 4 + 12 + bytes.length := by omega
      by_cases whole : 16 ≤ m
      · rw [if_pos (by omega)] at read
        simp [firstPass, opcode, read, skipData_length _ short, LogRecord.ints, LogRecord.tail, whole, next]
      · rw [if_neg (by omega)] at read
        simp [firstPass, opcode, read, LogRecord.ints, whole]
  · have cut : ¬ (4 * r.ints.length ≤ m ∧ r ≠ .abort) := by
      cases r <;> simp [LogRecord.ints] <;> omega
    rw [if_neg cut]
    obtain ⟨opcode, words, ints⟩ : ∃ opcode words, r.ints = opcode :: words := by
      cases r <;> exact ⟨_, _, rfl⟩
    rw [ints] at cursor
    exact firstPass_cut cursor (by omega) fuel

theorem firstPass_end {v : Label} (cursor : d.log.drop pos = ((endInts v).flatMap wordBytes).take m) (fuel : Nat) :
    firstPass .big d (fuel + 1) pos = some (decide (4 ≤ m)) := by
  rw [← append_nil ((endInts v).flatMap wordBytes)] at cursor
  by_cases enough : 4 ≤ m
  · obtain ⟨opcode, -⟩ := readOpcode cursor enough
    simp [firstPass, opcode, enough]
  · rw [firstPass_cut cursor (by omega)]
    simp [enough]

theorem ints_length_pos : 0 < r.ints.length := by
  cases r <;> simp [LogRecord.ints]

theorem bytes_length : r.bytes.length = 4 * r.ints.length + r.tail.length := by
  rw [LogRecord.bytes, length_append, length_ints]

theorem firstPass_big {v : Label} {fuel : Nat}
    (cursor : d.log.drop pos = (logBytes rs v).take m) (enough : m < fuel) :
    firstPass .big d fuel pos = some (decide (LogRecord.abort ∉ rs ∧ (rs.flatMap LogRecord.bytes).length + 4 ≤ m)) := by
  induction rs generalizing m pos fuel with
  | nil =>
    obtain ⟨fuel, rfl⟩ := Nat.exists_eq_succ_of_ne_zero (Nat.ne_zero_of_lt enough)
    rw [firstPass_end (by simpa [logBytes] using cursor)]
    simp
  | cons r rs ih =>
    obtain ⟨fuel, rfl⟩ := Nat.exists_eq_succ_of_ne_zero (Nat.ne_zero_of_lt enough)
    rw [logBytes, flatMap_cons, append_assoc] at cursor
    have size := bytes_length r
    have positive := ints_length_pos r
    rw [firstPass_record cursor, flatMap_cons, length_append]
    simp only [mem_cons, not_or]
    split
    · rename_i read
      rw [ih (drop_next rfl cursor) (by omega)]
      congr 2
      have other : LogRecord.abort ≠ r := Ne.symm read.2
      simp only [other, not_false_eq_true, true_and, eq_iff_iff]
      apply and_congr_right
      intro _
      omega
    · rename_i stopped
      congr 1
      symm
      rw [decide_eq_false_iff_not]
      rintro ⟨⟨other, -⟩, long⟩
      exact stopped ⟨by omega, Ne.symm other⟩

theorem swapBytes_unknown : ∀ opcode ∈ [logNew, logAbort, logTruncate, logData, logEnd],
    ∀ known ∈ [logNew, logAbort, logEnd, logTruncate, logData], swapBytes opcode ≠ known := by
  intro opcode written known read
  simp only [mem_cons, not_mem_nil, or_false] at written read
  rcases written with rfl | rfl | rfl | rfl | rfl <;> rcases read with rfl | rfl | rfl | rfl | rfl <;> decide

theorem firstPass_little {v : Label} (cursor : d.log = (logBytes rs v).take m) (fuel : Nat) :
    firstPass .little d (fuel + 1) 0 = some false := by
  obtain ⟨opcode, rest, start, known⟩ : ∃ opcode rest, logBytes rs v = wordBytes opcode ++ rest ∧
      opcode ∈ [logNew, logAbort, logTruncate, logData, logEnd] := by
    cases rs with
    | nil => exact ⟨logEnd, _, rfl, by simp⟩
    | cons r rs => cases r <;> exact ⟨_, _, rfl, by simp⟩
  rw [start] at cursor
  have read : d.readLog 0 (4 * 1) = if 4 ≤ m then some (wordBytes opcode) else none :=
    readLog_cut (wordBytes_length _) cursor
  have ints : d.readInts .little 0 1 = if 4 ≤ m then some [swapBytes opcode] else none := by
    rw [Disk.readInts, read]
    split <;> rfl
  have unknown := swapBytes_unknown opcode known
  rw [firstPass, ints]
  by_cases enough : 4 ≤ m
  · simp [enough, unknown]
  · simp [enough]

end FirstPass

theorem uphysWrite_nil (file : UInt32) (pos : Nat) (d : Disk) : uphysWrite file pos [] d = d := by
  have same : (fun f => if f = file then pwrite (d.file f) pos [] else d.file f) = d.file := by
    funext f
    split <;> rfl
  rw [uphysWrite, same]

theorem uphysWrite_append (file : UInt32) (pos : Nat) (first second : List UInt8) (d : Disk) :
    uphysWrite file (pos + first.length) second (uphysWrite file pos first d) = uphysWrite file pos (first ++ second) d := by
  simp only [uphysWrite]
  congr 1
  funext f
  split
  · exact pwrite_append ..
  · rfl

theorem copyData_eq (file : UInt32) (filePos : Nat) {fuel tpos : Nat} {bytes rest : List UInt8} {d : Disk}
    (cursor : d.log.drop tpos = bytes ++ rest) (enough : bytes.length ≤ fuel) :
    copyData file fuel filePos tpos bytes.length d = (uphysWrite file filePos bytes d, some bytes) := by
  induction fuel generalizing filePos tpos bytes d with
  | zero =>
    have empty : bytes = [] := eq_nil_of_length_eq_zero (Nat.le_zero.mp enough)
    subst empty
    rw [copyData, uphysWrite_nil]
  | succ fuel ih =>
    rw [copyData]
    split
    · rename_i empty
      have empty : bytes = [] := eq_nil_of_length_eq_zero empty
      subst empty
      rw [uphysWrite_nil]
    rename_i some
    extract_lets thisSize
    have size : thisSize ≤ bytes.length ∧ 0 < thisSize := by
      simp only [thisSize]
      split <;> omega
    have taken : (bytes.take thisSize).length = thisSize := length_take_of_le size.1
    have left : (bytes.drop thisSize).length = bytes.length - thisSize := length_drop
    have read : d.readLog tpos thisSize = Option.some (bytes.take thisSize) := by
      rw [readLog_of_drop cursor, length_append, if_pos (by omega), take_append_of_le_length size.1]
    have next : (uphysWrite file filePos (bytes.take thisSize) d).log.drop (tpos + thisSize) = bytes.drop thisSize ++ rest := by
      change d.log.drop (tpos + thisSize) = _
      rw [← drop_drop, cursor, drop_append_of_le_length size.1]
    have step := ih (filePos + thisSize) next (by omega)
    rw [left] at step
    rw [read]
    dsimp only
    rw [step]
    have together := uphysWrite_append file filePos (bytes.take thisSize) (bytes.drop thisSize) d
    rw [taken, take_append_drop] at together
    simp [together]

section SecondPass

variable {d : Disk} {pos : Nat} {rest : List UInt8}

theorem drop_whole {first : List UInt8} (length : first.length = n) (cursor : d.log.drop pos = first ++ rest) :
    d.log.drop (pos + n) = rest := by
  subst length
  rw [← drop_drop, cursor, drop_left]

theorem readInts_whole (count : words.length = n)
    (cursor : d.log.drop pos = words.flatMap wordBytes ++ rest) : d.readInts .big pos n = some words := by
  have length : (words.flatMap wordBytes).length = 4 * n := by rw [length_ints, count]
  rw [Disk.readInts, readLog_of_drop cursor, length_append, if_pos (by omega), ← length, take_left, Option.map_some, loadInts_big]

theorem readOpcode_whole {opcode : UInt32}
    (cursor : d.log.drop pos = (opcode :: words).flatMap wordBytes ++ rest) :
    d.readInts .big pos 1 = some [opcode] ∧ d.log.drop (pos + 4) = words.flatMap wordBytes ++ rest := by
  have split : (opcode :: words).flatMap wordBytes ++ rest =
      [opcode].flatMap wordBytes ++ (words.flatMap wordBytes ++ rest) := by simp
  rw [split] at cursor
  exact ⟨readInts_whole rfl cursor, drop_whole (by simp) cursor⟩

theorem secondPass_record {r : LogRecord} (cursor : d.log.drop pos = r.bytes ++ rest) (other : r ≠ .abort) (fuel : Nat)
    (seen : List Decoded) :
    secondPass .big (fuel + 1) pos d seen = secondPass .big fuel (pos + r.bytes.length) (r.apply d) (seen ++ [r.decoded]) := by
  rw [bytes_length]
  rw [LogRecord.bytes, append_assoc] at cursor
  cases r with
  | new =>
    obtain ⟨opcode, -⟩ := readOpcode_whole cursor
    simp [secondPass, opcode, LogRecord.ints, LogRecord.tail, LogRecord.apply, LogRecord.decoded]
  | abort => exact absurd rfl other
  | truncate file length =>
    obtain ⟨opcode, fields⟩ := readOpcode_whole cursor
    have read := readInts_whole (n := 2) rfl fields
    have valid : ¬ 2147483648 ≤ length.val := Nat.not_le.mpr length.isLt
    simp [secondPass, opcode, read, valid, ByteOrder.ntohl, LogRecord.ints, LogRecord.tail, LogRecord.apply, LogRecord.decoded]
  | data file filePos bytes short =>
    obtain ⟨opcode, fields⟩ := readOpcode_whole cursor
    have read := readInts_whole (n := 3) rfl fields
    have copy := copyData_eq file.word filePos.word.toNat
      (drop_whole (n := 12) (by rw [length_ints]; rfl) fields) (Nat.le_refl _)
    have size : (UInt32.ofNat bytes.length).toNat = bytes.length := toNat_length_word short
    have valid : ¬ (2 ^ 31 ≤ filePos.word.toNat ∧ 0 < bytes.length) := by
      rw [Nonneg.toNat_word]
      exact fun both => Nat.not_le.mpr filePos.isLt both.1
    have next : pos + (4 * 4 + bytes.length) = pos + 16 + bytes.length := by omega
    rw [secondPass, opcode]
    simp only [logData_ne_logNew, logData_ne_logAbort, logData_ne_logEnd, logData_ne_logTruncate, if_false, if_true,
      read, ByteOrder.ntohl, size, short, valid, LogRecord.ints, LogRecord.tail, length_cons, length_nil,
      LogRecord.apply, LogRecord.decoded, Nat.zero_add, next]
    simp only [LogRecord.tail] at copy
    rw [copy]
    simp

theorem apply_log (d : Disk) : (r.apply d).log = d.log := by
  cases r <;> rfl

theorem secondPass_big {v : Label} {m fuel : Nat} (seen : List Decoded)
    (cursor : d.log.drop pos = (logBytes rs v).take m) (opcode : (rs.flatMap LogRecord.bytes).length + 4 ≤ m)
    (enough : m < fuel) (none : LogRecord.abort ∉ rs) :
    secondPass .big fuel pos d seen = if (logBytes rs v).length ≤ m then
        some ({ applyRecords rs d with label := v }, seen ++ rs.map LogRecord.decoded, .good v)
      else some (applyRecords rs d, seen ++ rs.map LogRecord.decoded, .bad) := by
  induction rs generalizing d pos m fuel seen with
  | nil =>
    obtain ⟨fuel, rfl⟩ := Nat.exists_eq_succ_of_ne_zero (Nat.ne_zero_of_lt enough)
    have first : 4 ≤ m := by simpa using opcode
    have whole : (logBytes [] v).length = 12 := rfl
    have cursor : d.log.drop pos = ((endInts v).flatMap wordBytes ++ []).take m := by simpa [logBytes] using cursor
    obtain ⟨opcode, fields⟩ := readOpcode cursor first
    have read := readInts_cut (n := 2) rfl fields
    rw [secondPass, opcode, read, whole]
    by_cases all : 12 ≤ m
    · have both : 4 * 2 ≤ m - 4 := by omega
      simp [all, both, applyRecords]
    · have cut : ¬ 4 * 2 ≤ m - 4 := by omega
      simp only [logEnd_ne_logNew, logEnd_ne_logAbort, if_false, if_true, cut, all]
      simp [applyRecords]
  | cons r rs ih =>
    obtain ⟨fuel, rfl⟩ := Nat.exists_eq_succ_of_ne_zero (Nat.ne_zero_of_lt enough)
    rw [logBytes, flatMap_cons, append_assoc] at cursor ⊢
    rw [flatMap_cons, length_append] at opcode
    have size := bytes_length r
    have positive := ints_length_pos r
    have other : r ≠ .abort := fun same => none (same ▸ mem_cons_self)
    have rest := drop_next rfl cursor
    have whole : r.bytes.length ≤ m := by omega
    rw [take_append, take_of_length_le whole] at cursor
    rw [secondPass_record cursor other, ih (d := r.apply d) _ (by rw [apply_log]; exact rest) (by omega) (by omega)
      (fun later => none (mem_cons_of_mem _ later))]
    have same : (logBytes rs v).length ≤ m - r.bytes.length ↔
        (r.bytes ++ (rs.flatMap LogRecord.bytes ++ (endInts v).flatMap wordBytes)).length ≤ m := by
      rw [length_append, ← logBytes]
      omega
    simp only [same, applyRecords, foldl_cons, map_cons, append_assoc, singleton_append]

end SecondPass

end OpenAFS.Ubik
