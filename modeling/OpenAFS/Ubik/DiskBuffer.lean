import OpenAFS.Ubik.LogReplay

namespace OpenAFS.Ubik

open Lib

def pageSize : Nat := 1024

structure Buffer where
  /-- `none` is `BADFID`. -/
  file : Option Nonneg := none
  page : Nat := 0
  data : List UInt8 := List.replicate pageSize 0
  dirty : Bool := false
  deriving DecidableEq, Repr

structure Store where
  disk : Disk
  buffers : List Buffer
  activeTruncs : List (Nonneg × Nat) := []

def dInit (abuffers : Nat) : List Buffer := List.replicate abuffers {}

def Buffer.isPage (fid : Nonneg) (page : Nat) (b : Buffer) : Bool := b.file = some fid ∧ b.page = page

/-- What `DRead` reads into a zeroed buffer. -/
def readPage (disk : Disk) (fid : Nonneg) (page : Nat) : List UInt8 :=
  pwrite (List.replicate pageSize 0) 0 (pread (disk.file fid.word) (page * pageSize) pageSize)

/-- `newslot`: the pool without its first clean buffer, or `none` if there is none. -/
def newslot (buffers : List Buffer) : Option (List Buffer) :=
  if buffers.any fun b => !b.dirty then some (buffers.eraseP fun b => !b.dirty) else none

/-- `DRead`: the buffer with a page, to go to the end of the LRU list, and the pool without it. -/
def dRead (disk : Disk) (fid : Nonneg) (page : Nat) (buffers : List Buffer) : Option (List Buffer × Buffer) :=
  match buffers.find? (Buffer.isPage fid page) with
  | some b => some (buffers.filter fun c => !c.isPage fid page, b)
  | none => (newslot buffers).map fun rest => (rest, { file := some fid, page := page, data := readPage disk fid page })

/-- The loop of `udisk_write`; `none` is `UIOERROR`. The fuel is the number of bytes. -/
def writePages (disk : Disk) (afile : Nonneg) : Nat → Nat → List UInt8 → List Buffer → Option (List Buffer)
  | 0, _, _, buffers => some buffers
  | fuel + 1, apos, abuffer, buffers =>
    if abuffer.isEmpty then some buffers
    else
      let offset := apos % pageSize
      let len := min (pageSize - offset) abuffer.length
      (dRead disk afile (apos / pageSize) buffers).bind fun (rest, b) =>
        writePages disk afile fuel (apos + len) (abuffer.drop len)
          (rest ++ [{ b with data := pwrite b.data offset (abuffer.take len), dirty := true }])

inductive DiskOp where
  | write (file pos : Nonneg) (bytes : List UInt8) (short : bytes.length < 2 ^ 31)
  | truncate (file length : Nonneg)
  deriving Repr

def dlru (gone : Buffer → Bool) (change : Buffer → Buffer) (buffers : List Buffer) : List Buffer :=
  (buffers.filter gone).map change ++ buffers.filter fun b => !gone b

def udiskInvalidate (afid : Nonneg) (s : Store) : Store :=
  { s with buffers := dlru (fun b => b.file = some afid) (fun b => { b with file := none }) s.buffers }

def dAbort (buffers : List Buffer) : List Buffer :=
  dlru (fun b => b.dirty) (fun b => { b with file := none, dirty := false }) buffers

def fillPages (disk : Disk) (afile : Nonneg) : Nat → Nat → List UInt8 → List Buffer → List Buffer × Bool
  | 0, _, _, buffers => (buffers, true)
  | fuel + 1, apos, abuffer, buffers =>
    if abuffer.isEmpty then (buffers, true)
    else
      let offset := apos % pageSize
      let len := min (pageSize - offset) abuffer.length
      match dRead disk afile (apos / pageSize) buffers with
      | none => (buffers, false)
      | some (rest, b) =>
        fillPages disk afile fuel (apos + len) (abuffer.drop len)
          (rest ++ [{ b with data := pwrite b.data offset (abuffer.take len), dirty := true }])

/-- The loop of `udisk_read`, and the pool it leaves; `none` is `UEOF`. The fuel is the number of bytes. -/
def readPages (disk : Disk) (afile : Nonneg) : Nat → Nat → Nat → List Buffer → Option (List UInt8) × List Buffer
  | 0, _, _, buffers => (some [], buffers)
  | fuel + 1, apos, alen, buffers =>
    if alen = 0 then (some [], buffers)
    else
      let offset := apos % pageSize
      let len := min (pageSize - offset) alen
      match dRead disk afile (apos / pageSize) buffers with
      | none => (none, buffers)
      | some (rest, b) =>
        let (later, after) := readPages disk afile fuel (apos + len) (alen - len) (rest ++ [b])
        (later.map fun bytes => pread b.data offset len ++ bytes, after)

def udiskRead (afile apos alen : Nonneg) (s : Store) : Option (List UInt8) × Store :=
  let (bytes, buffers) := readPages s.disk afile alen.val apos.val alen.val s.buffers
  (bytes, { s with buffers })

variable (o : ByteOrder)

def udiskWrite (afile apos : Nonneg) (abuffer : List UInt8) (s : Store) : Option Store :=
  let disk := udiskLogWriteData o afile apos abuffer s.disk
  let truncs := s.activeTruncs.map fun tt =>
    if tt.1 = afile ∧ tt.2 < apos.val + abuffer.length then (tt.1, apos.val + abuffer.length) else tt
  (writePages disk afile abuffer.length apos.val abuffer s.buffers).map fun buffers => ⟨disk, buffers, truncs⟩

/-- What a `udisk_write` leaves, whether or not it finds a buffer for every page. -/
def udiskTryWrite (afile apos : Nonneg) (abuffer : List UInt8) (s : Store) : Store :=
  let disk := udiskLogWriteData o afile apos abuffer s.disk
  let truncs := s.activeTruncs.map fun tt =>
    if tt.1 = afile ∧ tt.2 < apos.val + abuffer.length then (tt.1, apos.val + abuffer.length) else tt
  ⟨disk, (fillPages disk afile abuffer.length apos.val abuffer s.buffers).1, truncs⟩

def udiskTruncate (afile alength : Nonneg) (s : Store) : Store :=
  { s with
    disk := udiskLogTruncate o afile alength s.disk
    activeTruncs :=
      if s.activeTruncs.any fun tt => tt.1 = afile then
        s.activeTruncs.map fun tt => if tt.1 = afile ∧ alength.val < tt.2 then (tt.1, alength.val) else tt
      else (afile, alength.val) :: s.activeTruncs }

def DiskOp.run : DiskOp → Store → Option Store
  | .write file pos bytes _, s => udiskWrite o file pos bytes s
  | .truncate file length, s => some (udiskTruncate o file length s)

def runOps (ops : List DiskOp) (s : Store) : Option Store := ops.foldlM (fun s op => op.run o s) s

/-- The part of `udisk_begin` that touches the disk. -/
def udiskBegin (s : Store) : Store := { s with disk := udiskLogOpcode o logNew s.disk, activeTruncs := [] }

def udiskAbort (s : Store) : Store :=
  { s with disk := { udiskLogOpcode o logAbort s.disk with log := [] }, buffers := dAbort s.buffers }

/-- The write-back of one buffer. `BADFID` is also the number of the log. -/
def flushBuffer (d : Disk) (b : Buffer) : Disk :=
  match b.file with
  | some fid => if b.dirty then uphysWrite fid.word (b.page * pageSize) b.data d else d
  | none => if b.dirty then { d with log := pwrite d.log (b.page * pageSize) b.data } else d

def dFlush (s : Store) : Store := { s with disk := s.buffers.foldl flushBuffer s.disk }

/-- `DSync`; a dirty buffer without a file is passed over. -/
def dSync (s : Store) : Store :=
  { s with buffers := s.buffers.map fun b => { b with dirty := b.dirty && b.file = none } }

/-- `DTrunc`: the buffers past the end become free and go to the front of the LRU list. -/
def dTrunc (fid : Nonneg) (length : Nat) (buffers : List Buffer) : List Buffer :=
  let gone := fun b : Buffer => decide (b.file = some fid ∧ (length + pageSize - 1) / pageSize ≤ b.page)
  (buffers.filter gone).map (fun b => { b with file := none }) ++ buffers.filter fun b => !gone b

def doTruncs (s : Store) : Store :=
  s.activeTruncs.foldl (fun s tt =>
    { s with buffers := dTrunc tt.1 tt.2 s.buffers, disk := uphysTruncate tt.1.word tt.2 s.disk })
    { s with activeTruncs := [] }

/-- What `udisk_commit` does from `udisk_LogEnd` on, for the new version `v`. -/
def udiskCommit (v : Label) (s : Store) : Store :=
  let s := { s with disk := udiskLogEnd o v s.disk }
  let s := doTruncs (dSync (dFlush s))
  { s with disk := { s.disk with label := v, log := [] } }

end OpenAFS.Ubik
