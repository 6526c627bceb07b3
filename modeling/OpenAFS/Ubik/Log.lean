import OpenAFS.Lib.ByteOrder
import OpenAFS.Lib.FileBytes

namespace OpenAFS.Ubik

open Lib

def logNew : UInt32 := 100
def logEnd : UInt32 := 101
def logAbort : UInt32 := 102
def logData : UInt32 := 103
def logTruncate : UInt32 := 104

@[simp] theorem logAbort_ne_logNew : logAbort ≠ logNew := by decide
@[simp] theorem logEnd_ne_logNew : logEnd ≠ logNew := by decide
@[simp] theorem logEnd_ne_logAbort : logEnd ≠ logAbort := by decide
@[simp] theorem logTruncate_ne_logNew : logTruncate ≠ logNew := by decide
@[simp] theorem logTruncate_ne_logAbort : logTruncate ≠ logAbort := by decide
@[simp] theorem logTruncate_ne_logEnd : logTruncate ≠ logEnd := by decide
@[simp] theorem logData_ne_logNew : logData ≠ logNew := by decide
@[simp] theorem logData_ne_logAbort : logData ≠ logAbort := by decide
@[simp] theorem logData_ne_logEnd : logData ≠ logEnd := by decide
@[simp] theorem logData_ne_logTruncate : logData ≠ logTruncate := by decide

structure Label where
  epoch : UInt32
  counter : UInt32
  deriving DecidableEq, Repr

structure Disk where
  log : List UInt8 := []
  file : UInt32 → List UInt8
  label : Label

abbrev Nonneg := Fin (2 ^ 31)

instance neZero_words : NeZero (2 ^ 31) := ⟨by decide⟩

def Nonneg.word (n : Nonneg) : UInt32 := .ofNat n.val

@[simp] theorem Nonneg.toNat_word (n : Nonneg) : n.word.toNat = n.val := by
  simp only [Nonneg.word, UInt32.toNat_ofNat']
  omega

theorem Nonneg.word_inj {m n : Nonneg} (same : m.word = n.word) : m = n := by
  apply Fin.ext
  rw [← Nonneg.toNat_word m, ← Nonneg.toNat_word n, same]

variable (o : ByteOrder)

def Disk.logWrite (d : Disk) (bytes : List UInt8) : Disk := { d with log := pwrite d.log d.log.length bytes }

def udiskLogOpcode (aopcode : UInt32) (d : Disk) : Disk := d.logWrite (o.store (o.htonl aopcode))

def udiskLogEnd (aversion : Label) (d : Disk) : Disk :=
  d.logWrite (o.store (o.htonl logEnd) ++ o.store (o.htonl aversion.epoch) ++ o.store (o.htonl aversion.counter))

def udiskLogTruncate (afile alength : Nonneg) (d : Disk) : Disk :=
  d.logWrite (o.store (o.htonl logTruncate) ++ o.store (o.htonl afile.word) ++ o.store (o.htonl alength.word))

def udiskLogWriteData (afile apos : Nonneg) (abuffer : List UInt8) (d : Disk) : Disk :=
  (d.logWrite (o.store (o.htonl logData) ++ o.store (o.htonl afile.word) ++ o.store (o.htonl apos.word) ++
    o.store (o.htonl (.ofNat abuffer.length)))).logWrite abuffer

inductive LogRecord where
  | new
  | abort
  | truncate (file length : Nonneg)
  | data (file pos : Nonneg) (bytes : List UInt8) (short : bytes.length < 2 ^ 31)
  deriving DecidableEq, Repr

def LogRecord.append : LogRecord → Disk → Disk
  | .new => udiskLogOpcode o logNew
  | .abort => udiskLogOpcode o logAbort
  | .truncate file length => udiskLogTruncate o file length
  | .data file pos bytes _ => udiskLogWriteData o file pos bytes

def appendLog (rs : List LogRecord) (v : Label) (d : Disk) : Disk :=
  udiskLogEnd o v (rs.foldl (fun d r => r.append o d) d)

/-- A record as the second pass of `ReplayLog` decodes it. -/
inductive Decoded where
  | new
  | truncate (file length : UInt32)
  | data (file pos : UInt32) (bytes : List UInt8)
  deriving DecidableEq, Repr

inductive Outcome where
  /-- The label was passed to `setlabel`. -/
  | good (label : Label)
  /-- `UBADLOG` is returned, or an I/O routine's error. -/
  | bad
  | panic
  deriving DecidableEq, Repr

def Disk.readLog (d : Disk) (pos n : Nat) : Option (List UInt8) :=
  if (pread d.log pos n).length = n then some (pread d.log pos n) else none

def loadInts : List UInt8 → List UInt32
  | a :: b :: c :: d :: rest => o.load [a, b, c, d] :: loadInts rest
  | _ => []

def Disk.readInts (d : Disk) (pos n : Nat) : Option (List UInt32) := (d.readLog pos (4 * n)).map (loadInts o)

/-- `tpos += buffer[2] + 3 * sizeof(afs_int32)` with a signed `buffer[2]`; `none` before the start of the log. -/
def skipData (tpos : Nat) (len : UInt32) : Option Nat :=
  if len.toNat < 2 ^ 31 then some (tpos + 12 + len.toNat)
  else if 2 ^ 32 ≤ tpos + 12 + len.toNat then some (tpos + 12 + len.toNat - 2 ^ 32)
  else none

/-- The first pass of `ReplayLog`: is there a commit? `none` if the fuel runs out. -/
def firstPass (d : Disk) : Nat → Nat → Option Bool
  | 0, _ => none
  | fuel + 1, tpos =>
    match d.readInts o tpos 1 with
    | some [opcode] =>
      if opcode = logNew then firstPass d fuel (tpos + 4)
      else if opcode = logAbort then some false
      else if opcode = logEnd then some true
      else if opcode = logTruncate then
        match d.readInts o (tpos + 4) 2 with
        | some [_, _] => firstPass d fuel (tpos + 12)
        | _ => some false
      else if opcode = logData then
        match d.readInts o (tpos + 4) 3 with
        | some [_, _, len] =>
          match skipData (tpos + 4) len with
          | some next => firstPass d fuel next
          | none => some false
        | _ => some false
      else some false
    | _ => some false

def uphysTruncate (file : UInt32) (size : Nat) (d : Disk) : Disk :=
  { d with file := fun f => if f = file then ftruncate (d.file f) size else d.file f }

def uphysWrite (file : UInt32) (pos : Nat) (data : List UInt8) (d : Disk) : Disk :=
  { d with file := fun f => if f = file then pwrite (d.file f) pos data else d.file f }

/-- Copy `len` bytes from the log to a file, at most `sizeof(data)` at a time; `none` when the log is too short. -/
def copyData (file : UInt32) : Nat → Nat → Nat → Nat → Disk → Disk × Option (List UInt8)
  | 0, _, _, _, d => (d, some [])
  | fuel + 1, filePos, tpos, len, d =>
    if len = 0 then (d, some [])
    else
      let thisSize := if 4096 < len then 4096 else len
      match d.readLog tpos thisSize with
      | none => (d, none)
      | some data =>
        let (d, rest) := copyData file fuel (filePos + thisSize) (tpos + thisSize) (len - thisSize)
          (uphysWrite file filePos data d)
        (d, rest.map (data ++ ·))

/-- The second pass of `ReplayLog`, with what it has decoded. `none` if the fuel runs out. -/
def secondPass : Nat → Nat → Disk → List Decoded → Option (Disk × List Decoded × Outcome)
  | 0, _, _, _ => none
  | fuel + 1, tpos, d, seen =>
    match d.readInts o tpos 1 with
    | some [opcode] =>
      if opcode = logNew then secondPass fuel (tpos + 4) d (seen ++ [.new])
      else if opcode = logAbort then some (d, seen, .panic)
      else if opcode = logEnd then
        match d.readInts o (tpos + 4) 2 with
        | some [epoch, counter] => some ({ d with label := ⟨epoch, counter⟩ }, seen, .good ⟨epoch, counter⟩)
        | _ => some (d, seen, .bad)
      else if opcode = logTruncate then
        match d.readInts o (tpos + 4) 2 with
        | some [tfile, length] =>
          let tfile := o.ntohl tfile
          let length := o.ntohl length
          if 2 ^ 31 ≤ length.toNat then some (d, seen, .bad)
          else secondPass fuel (tpos + 12) (uphysTruncate tfile length.toNat d) (seen ++ [.truncate tfile length])
        | _ => some (d, seen, .bad)
      else if opcode = logData then
        match d.readInts o (tpos + 4) 3 with
        | some [tfile, filePos, len] =>
          let len := o.ntohl len
          let filePos := o.ntohl filePos
          let tfile := o.ntohl tfile
          -- a negative length copies nothing; a negative position cannot be written to
          let size := if len.toNat < 2 ^ 31 then len.toNat else 0
          if 2 ^ 31 ≤ filePos.toNat ∧ 0 < size then some (d, seen, .bad)
          else
            match copyData tfile size filePos.toNat (tpos + 16) size d with
            | (d, none) => some (d, seen, .bad)
            | (d, some bytes) => secondPass fuel (tpos + 16 + size) d (seen ++ [.data tfile filePos bytes])
        | _ => some (d, seen, .bad)
      else some (d, seen, .bad)
    | _ => some (d, seen, .bad)

/-- `ReplayLog`: what it leaves, and whether it returns 0. -/
def replayLog (d : Disk) : Option (Disk × Bool) :=
  (firstPass o d (d.log.length + 1) 0).bind fun logIsGood =>
    if logIsGood then
      (secondPass o (d.log.length + 1) 0 d []).map fun (d, _, outcome) =>
        match outcome with
        | .good _ => ({ d with log := [] }, true)
        | _ => (d, false)
    else some ({ d with log := [] }, true)

end OpenAFS.Ubik
