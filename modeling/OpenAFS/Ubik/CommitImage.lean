import OpenAFS.Ubik.DiskBuffer

namespace OpenAFS.Ubik

open Lib List

/-- The logical contents of all files: the bytes read, zeros past the end. -/
abbrev Image := Nonneg → Nat → UInt8

def Disk.image (d : Disk) : Image := fun f p => byteAt (d.file f.word) p

def Image.write (w : Image) (file : Nonneg) (pos : Nat) (bytes : List UInt8) : Image := fun f p =>
  if f = file ∧ pos ≤ p ∧ p < pos + bytes.length then byteAt bytes (p - pos) else w f p

def DiskOp.writes (w : Image) : DiskOp → Image
  | .write file pos bytes _ => w.write file pos.val bytes
  | .truncate _ _ => w

def written (ops : List DiskOp) (w : Image) : Image := ops.foldl DiskOp.writes w

def DiskOp.truncs (f : Nonneg) (t : Option Nat) : DiskOp → Option Nat
  | .write file pos bytes _ => if file = f then t.map fun n => max n (pos.val + bytes.length) else t
  | .truncate file length => if file = f then some (t.elim length.val fun n => min n length.val) else t

/-- The one truncation of a file that a transaction keeps: shrunk by truncates, grown by writes. -/
def mergedTrunc (ops : List DiskOp) (f : Nonneg) : Option Nat := ops.foldl (DiskOp.truncs f) none

def committed (ops : List DiskOp) (w : Image) : Image := fun f p =>
  match mergedTrunc ops f with
  | some t => if p < t then written ops w f p else 0
  | none => written ops w f p

theorem written_append (ops : List DiskOp) (op : DiskOp) (w : Image) : written (ops ++ [op]) w = op.writes (written ops w) := by
  rw [written, foldl_append]
  rfl

theorem mergedTrunc_append (ops : List DiskOp) (op : DiskOp) (f : Nonneg) :
    mergedTrunc (ops ++ [op]) f = op.truncs f (mergedTrunc ops f) := by
  rw [mergedTrunc, foldl_append]
  rfl

/-- The pool holds the contents `w`, which differ from the files only on dirty pages. -/
structure PoolHolds (w : Image) (disk : Disk) (buffers : List Buffer) : Prop where
  held : ∀ b ∈ buffers, ∀ f, b.file = some f → b.data.length = pageSize ∧
    ∀ i < pageSize, byteAt b.data i = w f (b.page * pageSize + i)
  clean : ∀ f n, (∀ b ∈ buffers, b.file = some f → b.page = n → b.dirty = false) →
    ∀ i < pageSize, w f (n * pageSize + i) = disk.image f (n * pageSize + i)
  once : buffers.Pairwise fun b c => ∀ f, b.file = some f → c.file = some f → b.page ≠ c.page

theorem poolHolds_dInit (d : Disk) (abuffers : Nat) : PoolHolds d.image d (dInit abuffers) := by
  have empty : ∀ b ∈ dInit abuffers, b.file = none := by
    intro b inside
    rw [eq_of_mem_replicate inside]
  refine ⟨?_, fun _ _ _ _ _ => rfl, ?_⟩
  · intro b inside f file
    rw [empty b inside] at file
    cases file
  · exact List.Pairwise.imp_of_mem (R := fun _ _ => True)
      (fun inside _ _ f file => by rw [empty _ inside] at file; cases file) (pairwise_of_forall fun _ _ => trivial)

variable {b : Buffer} {w : Image} {disk d : Disk} {buffers : List Buffer} {truncs : List (Nonneg × Nat)}
  {ops : List DiskOp} {s : Store}

theorem isPage_iff {fid : Nonneg} {page : Nat} :
    b.isPage fid page = true ↔ b.file = some fid ∧ b.page = page := decide_eq_true_iff

theorem length_readPage (disk : Disk) (fid : Nonneg) (page : Nat) : (readPage disk fid page).length = pageSize := by
  rw [readPage, length_pwrite, length_replicate, length_pread]
  split <;> omega

theorem byteAt_readPage (disk : Disk) (fid : Nonneg) (page : Nat) {i : Nat} (inside : i < pageSize) :
    byteAt (readPage disk fid page) i = disk.image fid (page * pageSize + i) := by
  rw [readPage, byteAt_pwrite, byteAt_replicate, length_pread, Disk.image]
  split
  · rename_i read
    rw [pread, byteAt_take, if_pos (by omega), byteAt_drop, Nat.sub_zero]
  · rename_i past
    exact (byteAt_of_length_le (by omega)).symm

structure DReadFacts (w : Image) (fid : Nonneg) (page : Nat) (buffers rest : List Buffer) (b : Buffer) : Prop where
  file : b.file = some fid
  at_page : b.page = page
  length : b.data.length = pageSize
  held : ∀ i < pageSize, byteAt b.data i = w fid (page * pageSize + i)
  sub : rest.Sublist buffers
  apart : ∀ c ∈ rest, c.isPage fid page = false
  dirty : ∀ c ∈ buffers, c.dirty = true → c.isPage fid page = false → c ∈ rest

theorem dRead_facts {fid : Nonneg} {page : Nat} {rest : List Buffer}
    (pool : PoolHolds w disk buffers) (read : dRead disk fid page buffers = some (rest, b)) :
    DReadFacts w fid page buffers rest b := by
  unfold dRead at read
  split at read
  · rename_i c found
    cases read
    have inside := mem_of_find?_eq_some found
    obtain ⟨file, onPage⟩ := isPage_iff.mp (find?_some found)
    obtain ⟨length, held⟩ := pool.held b inside fid file
    refine ⟨file, onPage, length, onPage ▸ held, filter_sublist, ?_, ?_⟩
    · intro c kept
      simpa using (List.mem_filter.mp kept).2
    · intro c inside _ other
      exact List.mem_filter.mpr ⟨inside, by simp [other]⟩
  rename_i absent
  have missing : ∀ c ∈ buffers, c.isPage fid page = false := by simpa using absent
  simp only [newslot, Option.map_eq_some_iff, Option.ite_none_right_eq_some, Prod.mk.injEq] at read
  obtain ⟨left, ⟨-, taken⟩, rfl, rfl⟩ := read
  cases taken
  have same := pool.clean fid page fun c inside file at_page =>
    absurd (isPage_iff.mpr ⟨file, at_page⟩) (by simp [missing c inside])
  refine ⟨rfl, rfl, length_readPage .., ?_, eraseP_sublist, ?_, ?_⟩
  · intro i inside
    rw [byteAt_readPage _ _ _ inside, same i inside]
  · intro c kept
    exact missing c (mem_of_mem_eraseP kept)
  · intro c inside dirty _
    exact (mem_eraseP_of_neg (by simp [dirty])).mpr inside

theorem PoolHolds.write {w : Image} {disk : Disk} {fid : Nonneg} {pos : Nat} {chunk : List UInt8}
    {buffers rest : List Buffer} {b : Buffer} (pool : PoolHolds w disk buffers) (more : chunk ≠ [])
    (fits : chunk.length ≤ pageSize - pos % pageSize)
    (read : dRead disk fid (pos / pageSize) buffers = some (rest, b)) :
    PoolHolds (w.write fid pos chunk) disk
      (rest ++ [{ b with data := pwrite b.data (pos % pageSize) chunk, dirty := true }]) := by
  have facts := dRead_facts pool read
  have split : pos / pageSize * pageSize + pos % pageSize = pos := Nat.div_add_mod' ..
  have small : pos % pageSize < pageSize := Nat.mod_lt _ (by decide)
  -- the written bytes lie on the one page
  have onPage : ∀ n i, i < pageSize → pos ≤ n * pageSize + i → n * pageSize + i < pos + chunk.length → n = pos / pageSize := by
    intro n i inside after before
    unfold pageSize at *
    omega
  have untouched : ∀ f n, ¬ (f = fid ∧ n = pos / pageSize) → ∀ i < pageSize,
      w.write fid pos chunk f (n * pageSize + i) = w f (n * pageSize + i) := by
    intro f n other i inside
    rw [Image.write, if_neg]
    rintro ⟨same, after, before⟩
    exact other ⟨same, onPage n i inside after before⟩
  constructor
  · intro c inside f file
    rcases List.mem_append.mp inside with old | new
    · obtain ⟨length, held⟩ := pool.held c (facts.sub.subset old) f file
      have other : ¬ (f = fid ∧ c.page = pos / pageSize) := by
        rintro ⟨rfl, page⟩
        have apart := facts.apart c old
        rw [isPage_iff.mpr ⟨file, page⟩] at apart
        cases apart
      exact ⟨length, fun i inside => by rw [held i inside, untouched f c.page other i inside]⟩
    cases List.mem_singleton.mp new
    rw [facts.file] at file
    cases file
    simp only [facts.at_page]
    constructor
    · rw [length_pwrite, facts.length, if_neg more]
      omega
    intro i inside
    rw [byteAt_pwrite, facts.held i inside, Image.write]
    by_cases covered : pos % pageSize ≤ i ∧ i < pos % pageSize + chunk.length
    · rw [if_pos covered, if_pos ⟨rfl, by omega, by omega⟩]
      congr 1
      omega
    · rw [if_neg covered, if_neg]
      rintro ⟨-, after, before⟩
      exact covered ⟨by omega, by omega⟩
  · intro f n idle i inside
    have other : ¬ (f = fid ∧ n = pos / pageSize) := by
      rintro ⟨rfl, rfl⟩
      have dirty := idle _ (mem_append_right _ (List.mem_singleton.mpr rfl)) facts.file facts.at_page
      cases dirty
    rw [untouched f n other i inside]
    apply pool.clean f n _ i inside
    intro c known file page
    by_contra dirty
    have kept : c.isPage fid (pos / pageSize) = false := by
      rw [← Bool.not_eq_true, isPage_iff]
      rintro ⟨file', page'⟩
      rw [file] at file'
      cases file'
      exact other ⟨rfl, page ▸ page'⟩
    have still := facts.dirty c known (by simpa using dirty) kept
    exact dirty (idle c (mem_append_left _ still) file page)
  · rw [pairwise_append]
    refine ⟨pool.once.sublist facts.sub, pairwise_singleton .., ?_⟩
    intro c old d new f file file'
    cases List.mem_singleton.mp new
    rw [facts.file] at file'
    cases file'
    intro page
    have apart := facts.apart c old
    rw [isPage_iff.mpr ⟨file, page.trans facts.at_page⟩] at apart
    cases apart

theorem Image.write_nil (w : Image) (file : Nonneg) (pos : Nat) : w.write file pos [] = w := by
  funext f p
  rw [Image.write, if_neg]
  rintro ⟨-, after, before⟩
  simp only [length_nil] at before
  omega

theorem Image.write_append (w : Image) (file : Nonneg) (pos : Nat) (first second : List UInt8) :
    (w.write file pos first).write file (pos + first.length) second = w.write file pos (first ++ second) := by
  funext f p
  unfold Image.write
  by_cases here : f = file
  · simp only [here, true_and, length_append, byteAt_append]
    by_cases late : pos + first.length ≤ p ∧ p < pos + first.length + second.length
    · rw [if_pos late, if_pos (by omega), if_neg (by omega)]
      congr 1
      omega
    rw [if_neg late]
    by_cases early : pos ≤ p ∧ p < pos + first.length
    · rw [if_pos early, if_pos (by omega), if_pos (by omega)]
    · rw [if_neg early, if_neg (by omega)]
  · simp only [here, false_and, if_false]

theorem PoolHolds.writePages {afile : Nonneg} {fuel apos : Nat} {abuffer : List UInt8}
    {after : List Buffer} (pool : PoolHolds w disk buffers) (enough : abuffer.length ≤ fuel)
    (ran : writePages disk afile fuel apos abuffer buffers = some after) :
    PoolHolds (w.write afile apos abuffer) disk after := by
  induction fuel generalizing apos abuffer w buffers with
  | zero =>
    have empty : abuffer = [] := eq_nil_of_length_eq_zero (Nat.le_zero.mp enough)
    cases ran
    rw [empty, Image.write_nil]
    exact pool
  | succ fuel ih =>
    rw [Ubik.writePages] at ran
    split at ran
    · rename_i empty
      cases ran
      rw [List.isEmpty_iff.mp empty, Image.write_nil]
      exact pool
    rename_i left
    simp only [List.isEmpty_iff] at left
    obtain ⟨⟨rest, b⟩, read, later⟩ := Option.bind_eq_some_iff.mp ran
    have small : apos % pageSize < pageSize := Nat.mod_lt _ (by decide)
    have positive : 0 < abuffer.length := List.length_pos_iff.mpr left
    have size : (abuffer.take (min (pageSize - apos % pageSize) abuffer.length)).length =
        min (pageSize - apos % pageSize) abuffer.length := length_take_of_le (Nat.min_le_right ..)
    have step := @PoolHolds.write _ _ _ apos (abuffer.take (min (pageSize - apos % pageSize) abuffer.length)) _ _ _ pool
      (ne_nil_of_length_pos (by omega)) (by omega) read
    have shorter : (abuffer.drop (min (pageSize - apos % pageSize) abuffer.length)).length ≤ fuel := by
      rw [length_drop]
      omega
    have done := ih step shorter later
    have together := Image.write_append w afile apos
      (abuffer.take (min (pageSize - apos % pageSize) abuffer.length))
      (abuffer.drop (min (pageSize - apos % pageSize) abuffer.length))
    rw [size, take_append_drop] at together
    rw [together] at done
    exact done

def findTrunc (truncs : List (Nonneg × Nat)) (f : Nonneg) : Option Nat :=
  (truncs.find? fun tt => tt.1 = f).map Prod.snd

def DiskOp.record : DiskOp → LogRecord
  | .write file pos bytes short => .data file pos bytes short
  | .truncate file length => .truncate file length

structure RanOps (d : Disk) (ops : List DiskOp) (s : Store) : Prop where
  pool : PoolHolds (written ops d.image) d s.buffers
  files : s.disk.file = d.file
  log : s.disk.log = d.log ++ (ops.map DiskOp.record).flatMap LogRecord.bytes
  truncs : ∀ f, findTrunc s.activeTruncs f = mergedTrunc ops f
  once : (s.activeTruncs.map Prod.fst).Nodup

theorem find_map_of_fst {change : Nonneg × Nat → Nonneg × Nat} (fst : ∀ tt, (change tt).1 = tt.1) (f : Nonneg) :
    ((truncs.map change).find? fun tt => tt.1 = f) = (truncs.find? fun tt => tt.1 = f).map change := by
  rw [find?_map]
  congr 2
  funext tt
  simp only [Function.comp, fst]

theorem record_bytes_write (o : ByteOrder) (file pos : Nonneg) (bytes : List UInt8) (short : bytes.length < 2 ^ 31)
    (d : Disk) : udiskLogWriteData o file pos bytes d = { d with log := d.log ++ (LogRecord.data file pos bytes short).bytes } :=
  append_eq o (.data file pos bytes short) d

theorem record_bytes_truncate (o : ByteOrder) (file length : Nonneg) (d : Disk) :
    udiskLogTruncate o file length d = { d with log := d.log ++ (LogRecord.truncate file length).bytes } :=
  append_eq o (.truncate file length) d

theorem dRead_congr {disk' : Disk} (same : disk'.file = disk.file) (fid : Nonneg) (page : Nat)
    (buffers : List Buffer) : dRead disk' fid page buffers = dRead disk fid page buffers := by
  simp only [dRead, readPage, same]

theorem writePages_congr {disk' : Disk} (same : disk'.file = disk.file) (afile : Nonneg) (fuel apos : Nat)
    (abuffer : List UInt8) (buffers : List Buffer) :
    writePages disk' afile fuel apos abuffer buffers = writePages disk afile fuel apos abuffer buffers := by
  induction fuel generalizing apos abuffer buffers with
  | zero => rfl
  | succ fuel ih => simp only [writePages, dRead_congr same, ih]

theorem map_fst_of_fst {change : Nonneg × Nat → Nonneg × Nat}
    (fst : ∀ tt, (change tt).1 = tt.1) : (truncs.map change).map Prod.fst = truncs.map Prod.fst := by
  rw [map_map]
  congr 1
  funext tt
  exact fst tt

theorem nodup_expandTruncs {file : Nonneg} {length : Nat} (once : (truncs.map Prod.fst).Nodup) :
    ((truncs.map fun tt => if tt.1 = file ∧ tt.2 < length then (tt.1, length) else tt).map Prod.fst).Nodup := by
  rwa [map_fst_of_fst fun tt => by split <;> rfl]

theorem nodup_shrinkTruncs {file : Nonneg} {length : Nat} (once : (truncs.map Prod.fst).Nodup) :
    ((if truncs.any fun tt => tt.1 = file then
        truncs.map fun tt => if tt.1 = file ∧ length < tt.2 then (tt.1, length) else tt
      else (file, length) :: truncs).map Prod.fst).Nodup := by
  split
  · rwa [map_fst_of_fst fun tt => by split <;> rfl]
  rename_i fresh
  rw [map_cons, nodup_cons]
  refine ⟨?_, once⟩
  intro inside
  obtain ⟨tt, listed, named⟩ := List.mem_map.mp inside
  exact fresh (List.any_eq_true.mpr ⟨tt, listed, by simpa using named⟩)

theorem RanOps.write {d : Disk} {ops : List DiskOp} {s s' : Store} (ran : RanOps d ops s) (o : ByteOrder)
    {file pos : Nonneg} {bytes : List UInt8} (short : bytes.length < 2 ^ 31)
    (call : udiskWrite o file pos bytes s = some s') :
    RanOps d (ops ++ [.write file pos bytes short]) s' := by
  simp only [udiskWrite, Option.map_eq_some_iff] at call
  obtain ⟨buffers, pages, rfl⟩ := call
  rw [record_bytes_write o file pos bytes short] at pages
  have files : ({ s.disk with log := s.disk.log ++ (LogRecord.data file pos bytes short).bytes } : Disk).file = d.file :=
    ran.files
  rw [writePages_congr files] at pages
  rw [record_bytes_write o file pos bytes short]
  constructor
  · rw [written_append]
    exact ran.pool.writePages (Nat.le_refl _) pages
  · exact ran.files
  · simp only [ran.log, map_append, flatMap_append, map_cons, map_nil, flatMap_cons,
      flatMap_nil, append_nil, DiskOp.record, append_assoc]
  · intro f
    rw [mergedTrunc_append, ← ran.truncs f, findTrunc, find_map_of_fst (fun tt => by split <;> rfl), findTrunc]
    cases found : s.activeTruncs.find? fun tt => tt.1 = f with
    | none => simp [DiskOp.truncs]
    | some tt =>
      have named : tt.1 = f := by simpa using find?_some found
      simp only [Option.map_some, DiskOp.truncs, named]
      by_cases same : file = f
      · simp only [same, true_and, if_true]
        split <;> simp only [Option.some.injEq] <;> omega
      · simp [same, Ne.symm same]
  · exact nodup_expandTruncs ran.once

theorem RanOps.truncate (ran : RanOps d ops s) (o : ByteOrder)
    (file length : Nonneg) : RanOps d (ops ++ [.truncate file length]) (udiskTruncate o file length s) := by
  rw [udiskTruncate, record_bytes_truncate]
  constructor
  · rw [written_append]
    exact ran.pool
  · exact ran.files
  · simp only [ran.log, map_append, flatMap_append, map_cons, map_nil, flatMap_cons,
      flatMap_nil, append_nil, DiskOp.record, append_assoc]
  · intro f
    rw [mergedTrunc_append, ← ran.truncs f]
    split
    · rename_i known
      rw [findTrunc, find_map_of_fst (fun tt => by split <;> rfl), findTrunc]
      cases found : s.activeTruncs.find? fun tt => tt.1 = f with
      | none =>
        have other : file ≠ f := by
          rintro rfl
          obtain ⟨tt, inside, named⟩ := List.any_eq_true.mp known
          exact List.find?_eq_none.mp found tt inside named
        simp [DiskOp.truncs, other]
      | some tt =>
        have named : tt.1 = f := by simpa using find?_some found
        simp only [Option.map_some, DiskOp.truncs, named]
        by_cases same : file = f
        · simp only [same, true_and, if_true, Option.elim_some]
          split <;> simp only [Option.some.injEq] <;> omega
        · simp [same, Ne.symm same]
    · rename_i fresh
      have absent : s.activeTruncs.find? (fun tt => tt.1 = file) = none := by
        rw [find?_eq_none]
        exact fun tt inside named => fresh (List.any_eq_true.mpr ⟨tt, inside, named⟩)
      by_cases same : file = f
      · subst same
        simp [findTrunc, absent, DiskOp.truncs]
      · simp [findTrunc, DiskOp.truncs, same]
  · exact nodup_shrinkTruncs ran.once

theorem RanOps.runOps {o : ByteOrder} {more : List DiskOp} {s' : Store} (ran : RanOps d ops s)
    (run : runOps o more s = some s') : RanOps d (ops ++ more) s' := by
  induction more generalizing ops s with
  | nil =>
    cases run
    rwa [append_nil]
  | cons op more ih =>
    obtain ⟨middle, first, rest⟩ := Option.bind_eq_some_iff.mp run
    rw [← singleton_append, ← append_assoc]
    apply ih _ rest
    cases op with
    | write file pos bytes short => exact ran.write o short first
    | truncate file length =>
      cases first
      exact ran.truncate o file length

theorem image_uphysWrite (fid : Nonneg) (pos : Nat) (bytes : List UInt8) (d : Disk) :
    (uphysWrite fid.word pos bytes d).image = d.image.write fid pos bytes := by
  funext f p
  simp only [Disk.image, uphysWrite, Image.write]
  by_cases same : f = fid
  · simp only [same, if_true, true_and]
    exact byteAt_pwrite ..
  · have other : f.word ≠ fid.word := fun words => same (Nonneg.word_inj words)
    simp [same, other]

theorem image_uphysTruncate (fid : Nonneg) (length : Nat) (d : Disk) (f : Nonneg) (p : Nat) :
    (uphysTruncate fid.word length d).image f p = if f = fid ∧ length ≤ p then 0 else d.image f p := by
  simp only [Disk.image, uphysTruncate]
  by_cases same : f = fid
  · simp only [same, if_true, true_and, byteAt_ftruncate]
    by_cases kept : p < length
    · rw [if_pos kept, if_neg (by omega)]
    · rw [if_neg kept, if_pos (by omega)]
  · have other : f.word ≠ fid.word := fun words => same (Nonneg.word_inj words)
    simp [same, other]

theorem flushBuffer_image {f : Nonneg} {p : Nat}
    (held : ∀ f, b.file = some f → b.data.length = pageSize ∧ ∀ i < pageSize, byteAt b.data i = w f (b.page * pageSize + i)) :
    (d.image f p = w f p → (flushBuffer d b).image f p = w f p) ∧
    (b.file = some f → b.dirty = true → b.page = p / pageSize → (flushBuffer d b).image f p = w f p) := by
  cases file : b.file with
  | none =>
    refine ⟨fun same => ?_, fun impossible => by cases impossible⟩
    simp only [flushBuffer, file]
    split <;> exact same
  | some fid =>
    obtain ⟨length, held⟩ := held fid file
    by_cases dirty : b.dirty = true
    · simp only [flushBuffer, file, dirty, if_true, image_uphysWrite, Image.write, length]
      have covered : f = fid ∧ b.page * pageSize ≤ p ∧ p < b.page * pageSize + pageSize →
          byteAt b.data (p - b.page * pageSize) = w f p := by
        rintro ⟨rfl, after, before⟩
        rw [held _ (by omega)]
        congr 1
        omega
      constructor
      · intro same
        split
        · rename_i inside
          exact covered inside
        · exact same
      intro named _ page
      have split : p / pageSize * pageSize + p % pageSize = p := Nat.div_add_mod' ..
      have small : p % pageSize < pageSize := Nat.mod_lt _ (by decide)
      have inside : f = fid ∧ b.page * pageSize ≤ p ∧ p < b.page * pageSize + pageSize :=
        ⟨(Option.some.inj named).symm, by rw [page]; omega, by rw [page]; omega⟩
      rw [if_pos inside]
      exact covered inside
    · exact ⟨fun same => by simpa [flushBuffer, file, dirty] using same, fun _ on => absurd on dirty⟩

theorem flush_image {f : Nonneg} {p : Nat} (d : Disk) (held : ∀ b ∈ buffers, ∀ f, b.file = some f → b.data.length = pageSize ∧
      ∀ i < pageSize, byteAt b.data i = w f (b.page * pageSize + i))
    (source : d.image f p = w f p ∨ ∃ b ∈ buffers, b.file = some f ∧ b.dirty = true ∧ b.page = p / pageSize) :
    (buffers.foldl flushBuffer d).image f p = w f p := by
  induction buffers generalizing d with
  | nil => exact source.resolve_right (by simp)
  | cons b buffers ih =>
    obtain ⟨keep, set⟩ := flushBuffer_image (d := d) (p := p) (f := f) (held b mem_cons_self)
    apply ih _ fun c inside => held c (mem_cons_of_mem _ inside)
    rcases source with same | ⟨c, inside, file, dirty, page⟩
    · exact .inl (keep same)
    · rcases List.mem_cons.mp inside with rfl | later
      · exact .inl (set file dirty page)
      · exact .inr ⟨c, later, file, dirty, page⟩

theorem dFlush_image (pool : PoolHolds w s.disk s.buffers) : (dFlush s).disk.image = w := by
  funext f p
  apply flush_image s.disk pool.held
  by_cases dirty : ∃ b ∈ s.buffers, b.file = some f ∧ b.dirty = true ∧ b.page = p / pageSize
  · exact .inr dirty
  left
  have split : p / pageSize * pageSize + p % pageSize = p := Nat.div_add_mod' ..
  have idle : ∀ b ∈ s.buffers, b.file = some f → b.page = p / pageSize → b.dirty = false := by
    intro b inside file page
    by_contra on
    exact dirty ⟨b, inside, file, by simpa using on, page⟩
  have same := pool.clean f (p / pageSize) idle (p % pageSize) (Nat.mod_lt _ (by decide))
  rw [split] at same
  exact same.symm

theorem doTruncs_disk (s : Store) :
    (doTruncs s).disk = s.activeTruncs.foldl (fun d tt => uphysTruncate tt.1.word tt.2 d) s.disk := by
  have general : ∀ (truncs : List (Nonneg × Nat)) (s : Store),
      (truncs.foldl (fun s tt => { s with buffers := dTrunc tt.1 tt.2 s.buffers
                                          disk := uphysTruncate tt.1.word tt.2 s.disk }) s).disk =
        truncs.foldl (fun d tt => uphysTruncate tt.1.word tt.2 d) s.disk := by
    intro truncs
    induction truncs with
    | nil => exact fun _ => rfl
    | cons tt truncs ih => exact fun s => ih _
  exact general ..

theorem truncs_image (once : (truncs.map Prod.fst).Nodup) (d : Disk) (f : Nonneg) (p : Nat) :
    (truncs.foldl (fun d tt => uphysTruncate tt.1.word tt.2 d) d).image f p = match findTrunc truncs f with
      | some t => if p < t then d.image f p else 0
      | none => d.image f p := by
  induction truncs generalizing d with
  | nil => rfl
  | cons tt truncs ih =>
    rw [map_cons, nodup_cons] at once
    rw [foldl_cons, ih once.2, image_uphysTruncate]
    by_cases same : tt.1 = f
    · have absent : truncs.find? (fun tt => tt.1 = f) = none := by
        rw [find?_eq_none]
        intro other inside named
        have named : other.1 = f := by simpa using named
        exact once.1 (List.mem_map.mpr ⟨other, inside, named.trans same.symm⟩)
      have found : findTrunc (tt :: truncs) f = some tt.2 := by simp [findTrunc, same]
      rw [found, findTrunc, absent]
      simp only [Option.map_none, same, true_and]
      by_cases kept : p < tt.2
      · rw [if_pos kept, if_neg (by omega)]
      · rw [if_neg kept, if_pos (by omega)]
    · have passed : findTrunc (tt :: truncs) f = findTrunc truncs f := by simp [findTrunc, same]
      rw [passed]
      simp only [Ne.symm same, false_and, if_false]

theorem udiskCommit_image (ran : RanOps d ops s) (o : ByteOrder)
    (v : Label) : (udiskCommit o v s).disk.image = committed ops d.image := by
  have pool : PoolHolds (written ops d.image) (udiskLogEnd o v s.disk) s.buffers := by
    have same : (udiskLogEnd o v s.disk).image = d.image := by
      unfold Disk.image
      rw [show (udiskLogEnd o v s.disk).file = d.file from ran.files]
    exact ⟨ran.pool.held, by rw [same]; exact ran.pool.clean, ran.pool.once⟩
  have flushed := dFlush_image (s := { s with disk := udiskLogEnd o v s.disk }) pool
  funext f p
  have truncated := truncs_image ran.once (dFlush { s with disk := udiskLogEnd o v s.disk }).disk f p
  rw [flushed, ran.truncs] at truncated
  change (doTruncs (dSync (dFlush { s with disk := udiskLogEnd o v s.disk }))).disk.image f p = _
  rw [doTruncs_disk]
  exact truncated

end OpenAFS.Ubik
