import OpenAFS.Lib.FileBytes
import OpenAFS.Lib.Fallible

namespace OpenAFS.Tviced

open Lib

def fsStateInitFilesize : Nat := 8 * 1024 * 1024

inductive Failure where
  /-- A file cannot end past the largest `off_t`. -/
  | systemCall
  /-- A copy to memory that is not mapped. -/
  | fault
  deriving DecidableEq, Repr

/-- The cursor is kept as its distance from the start of the mapping. -/
structure Mmap where
  cursor : Nat
  offset : Nat
  size : Nat

structure FsDumpState where
  file : List UInt8
  fileLen : Nat
  mmap : Mmap

namespace FsDumpState

variable (state : FsDumpState)

def fsStateMapFile : FsDumpState := { state with mmap := ⟨0, 0, state.fileLen⟩ }

def afsFtruncate (length : Nat) : Except Failure FsDumpState :=
  if length < 2 ^ 63 then .ok { state with file := ftruncate state.file length } else .error .systemCall

def fsStateResizeFile (minAdd : Nat) : Except Failure FsDumpState := do
  let inc := (minAdd / fsStateInitFilesize + 1) * fsStateInitFilesize
  let state := { state with fileLen := state.fileLen + inc }
  let state ← state.afsFtruncate state.fileLen
  .ok state.fsStateMapFile

def fsStateIncCursor (len : Nat) : FsDumpState :=
  { state with mmap := { state.mmap with offset := (state.mmap.offset + len) % 2 ^ 64, cursor := state.mmap.cursor + len } }

def fsStateCheckIOSafety (len : Nat) : Bool := state.mmap.size < (state.mmap.offset + len) % 2 ^ 64

def copyIn (buf : List UInt8) : Except Failure FsDumpState :=
  if buf = [] ∨ state.mmap.cursor + buf.length ≤ state.mmap.size then
    .ok { state with file := pwrite state.file state.mmap.cursor buf }
  else .error .fault

def makeRoom (len : Nat) : Except Failure FsDumpState :=
  if state.fsStateCheckIOSafety len then state.fsStateResizeFile len else .ok state

def fsStateWrite (buf : List UInt8) : Except Failure FsDumpState := do
  let state ← state.makeRoom buf.length
  let state ← state.copyIn buf
  .ok (state.fsStateIncCursor buf.length)

def copyVec (state : FsDumpState) : List (List UInt8) → Except Failure FsDumpState
  | [] => .ok state
  | buf :: rest => do
    let state ← state.copyIn buf
    copyVec (state.fsStateIncCursor buf.length) rest

def fsStateWriteV (iov : List (List UInt8)) : Except Failure FsDumpState := do
  let state ← state.makeRoom (iov.map List.length).sum
  state.copyVec iov

/-- `fs_stateSeek`, as it is compiled for 64-bit systems with large files. -/
def fsStateSeek (offset : UInt64) : FsDumpState :=
  { state with mmap := { state.mmap with cursor := offset.toNat, offset := offset.toNat } }

def fsStateWriteHeader (offset : UInt64) (hdr : List UInt8) : Except Failure FsDumpState :=
  (state.fsStateSeek offset).fsStateWrite hdr

end FsDumpState

inductive Call where
  | write (buf : List UInt8)
  | writeV (iov : List (List UInt8))
  | seek (offset : UInt64)
  | writeHeader (offset : UInt64) (hdr : List UInt8)

namespace FsDumpState

def call (state : FsDumpState) : Call → Except Failure FsDumpState
  | .write buf => state.fsStateWrite buf
  | .writeV iov => state.fsStateWriteV iov
  | .seek offset => .ok (state.fsStateSeek offset)
  | .writeHeader offset hdr => state.fsStateWriteHeader offset hdr

def calls (state : FsDumpState) (cs : List Call) : Except Failure FsDumpState := cs.foldlM call state

def created : FsDumpState :=
  fsStateMapFile { file := ftruncate [] fsStateInitFilesize, fileLen := fsStateInitFilesize, mmap := ⟨0, 0, 0⟩ }

end FsDumpState

structure PlainFile where
  bytes : List UInt8 := []
  pos : Nat := 0

namespace PlainFile

def write (f : PlainFile) (buf : List UInt8) : PlainFile := ⟨pwrite f.bytes f.pos buf, f.pos + buf.length⟩

def seek (f : PlainFile) (offset : UInt64) : PlainFile := { f with pos := offset.toNat }

def call (f : PlainFile) : Call → PlainFile
  | .write buf => f.write buf
  | .writeV iov => iov.foldl write f
  | .seek offset => f.seek offset
  | .writeHeader offset hdr => (f.seek offset).write hdr

def calls (f : PlainFile) (cs : List Call) : PlainFile := cs.foldl call f

end PlainFile

/-- Bytes written from some position on fit into the mapping, or begin where a new mapping puts the cursor. -/
def Mmap.Fits (m : Mmap) (pos len : Nat) : Prop := pos + len ≤ m.size ∨ pos = 0 ∧ len < 2 ^ 64

def Call.Fits (m : Mmap) : Call → Prop
  | .write buf => m.Fits m.offset buf.length
  | .writeV iov => m.Fits m.offset (iov.map List.length).sum
  | .seek _ => True
  | .writeHeader offset hdr => m.Fits offset.toNat hdr.length

def AllFit (state : FsDumpState) : List Call → Prop
  | [] => True
  | c :: rest => c.Fits state.mmap ∧ ∀ state', state.call c = .ok state' → AllFit state' rest

structure FsDumpState.Agrees (state : FsDumpState) (f : PlainFile) : Prop where
  cursor : state.mmap.cursor = f.pos
  offset : state.mmap.offset = f.pos
  size : state.mmap.size = state.fileLen
  length : state.file.length = state.fileLen
  small : state.fileLen < 2 ^ 63
  position : f.pos < 2 ^ 64
  bytes : ∀ p, byteAt state.file p = byteAt f.bytes p

namespace FsDumpState.Agrees

variable {state : FsDumpState} {f : PlainFile}

theorem created : FsDumpState.created.Agrees {} where
  cursor := rfl
  offset := rfl
  size := rfl
  length := length_ftruncate _ _
  small := by decide
  position := by decide
  bytes p := by
    change byteAt (ftruncate [] _) p = byteAt [] p
    rw [byteAt_ftruncate]
    split <;> rfl

section

variable (agrees : state.Agrees f)
include agrees

theorem seek (offset : UInt64) : (state.fsStateSeek offset).Agrees (f.seek offset) where
  cursor := rfl
  offset := rfl
  size := agrees.size
  length := agrees.length
  small := agrees.small
  position := offset.toNat_lt
  bytes := agrees.bytes

theorem resize (len : Nat) (start : f.pos = 0) : state.fsStateResizeFile len = .error .systemCall ∨
      ∃ state', state.fsStateResizeFile len = .ok state' ∧ state'.Agrees f ∧ len < state'.mmap.size := by
  have whole : len < (len / fsStateInitFilesize + 1) * fsStateInitFilesize := by
    rw [Nat.mul_comm]
    exact Nat.lt_mul_div_succ len (by decide)
  unfold fsStateResizeFile afsFtruncate
  generalize (len / fsStateInitFilesize + 1) * fsStateInitFilesize = inc at whole
  by_cases small : state.fileLen + inc < 2 ^ 63
  · right
    refine ⟨_, by simp only [if_pos small]; rfl, ⟨start.symm, start.symm, rfl, length_ftruncate _ _, small, agrees.position, ?_⟩, ?_⟩
    · intro p
      change byteAt (ftruncate state.file (state.fileLen + inc)) p = _
      rw [byteAt_ftruncate, ← agrees.bytes]
      split
      · rfl
      · rename_i past
        have length := agrees.length
        exact (byteAt_of_length_le (by omega)).symm
    · change len < state.fileLen + inc
      omega
  · left
    simp only [if_neg small]
    rfl

theorem makeRoom {len : Nat} (fits : state.mmap.Fits f.pos len) :
    state.makeRoom len = .error .systemCall ∨
      ∃ state', state.makeRoom len = .ok state' ∧ state'.Agrees f ∧ f.pos + len ≤ state'.mmap.size := by
  have small := agrees.small
  rw [← agrees.size] at small
  unfold FsDumpState.makeRoom fsStateCheckIOSafety
  simp only [agrees.offset, decide_eq_true_eq]
  rcases fits with room | ⟨start, word⟩
  · rw [Nat.mod_eq_of_lt (by omega), if_neg (by omega)]
    exact .inr ⟨state, rfl, agrees, room⟩
  rw [start, Nat.zero_add, Nat.mod_eq_of_lt word]
  split
  · rcases agrees.resize len start with failed | ⟨state', done, agrees', room⟩
    · exact .inl failed
    · exact .inr ⟨state', done, agrees', Nat.le_of_lt room⟩
  · rename_i room
    exact .inr ⟨state, rfl, agrees, by omega⟩

theorem copyIn {buf : List UInt8} (room : f.pos + buf.length ≤ state.mmap.size) :
    ∃ state', state.copyIn buf = .ok state' ∧ (state'.fsStateIncCursor buf.length).Agrees (f.write buf) ∧
      state'.mmap = state.mmap := by
  have small := agrees.small
  have size := agrees.size
  have below : f.pos + buf.length < 2 ^ 64 := by omega
  refine ⟨_, if_pos (.inr (agrees.cursor ▸ room)), ⟨?_, ?_, size, ?_, small, below, ?_⟩, rfl⟩
  · exact congrArg (· + buf.length) agrees.cursor
  · change (state.mmap.offset + buf.length) % 2 ^ 64 = f.pos + buf.length
    rw [agrees.offset, Nat.mod_eq_of_lt below]
  · change (pwrite state.file state.mmap.cursor buf).length = state.fileLen
    have length := agrees.length
    rw [length_pwrite, agrees.cursor]
    split <;> omega
  · intro p
    change byteAt (pwrite state.file state.mmap.cursor buf) p = byteAt (pwrite f.bytes f.pos buf) p
    rw [byteAt_pwrite, byteAt_pwrite, agrees.cursor, agrees.bytes]

theorem write {buf : List UInt8} (fits : state.mmap.Fits f.pos buf.length) :
    state.fsStateWrite buf = .error .systemCall ∨
      ∃ state', state.fsStateWrite buf = .ok state' ∧ state'.Agrees (f.write buf) := by
  unfold fsStateWrite
  rcases agrees.makeRoom fits with failed | ⟨wide, done, agrees, room⟩
  · exact .inl (by rw [failed]; rfl)
  obtain ⟨state', copied, agrees', -⟩ := agrees.copyIn room
  refine .inr ⟨_, ?_, agrees'⟩
  rw [done]
  change (wide.copyIn buf).bind _ = _
  rw [copied]
  rfl

end

variable {iov : List (List UInt8)} {state' : FsDumpState}

section

variable (agrees : state.Agrees f)
include agrees

theorem copyVec (room : f.pos + (iov.map List.length).sum ≤ state.mmap.size) :
    ∃ state', state.copyVec iov = .ok state' ∧ state'.Agrees (iov.foldl PlainFile.write f) := by
  induction iov generalizing state f with
  | nil => exact ⟨state, rfl, agrees⟩
  | cons buf rest ih =>
    rw [List.map_cons, List.sum_cons] at room
    have first : f.pos + buf.length ≤ state.mmap.size := by omega
    obtain ⟨wrote, copied, agrees', same⟩ := agrees.copyIn first
    have later : f.pos + buf.length + (rest.map List.length).sum ≤ wrote.mmap.size := by
      rw [same]
      omega
    obtain ⟨state', done, agrees''⟩ := ih agrees' later
    refine ⟨state', ?_, agrees''⟩
    change (state.copyIn buf).bind _ = _
    rw [copied]
    exact done

theorem writeV (fits : state.mmap.Fits f.pos (iov.map List.length).sum) :
    state.fsStateWriteV iov = .error .systemCall ∨
      ∃ state', state.fsStateWriteV iov = .ok state' ∧ state'.Agrees (iov.foldl PlainFile.write f) := by
  unfold fsStateWriteV
  rcases agrees.makeRoom fits with failed | ⟨wide, done, agrees, room⟩
  · exact .inl (by rw [failed]; rfl)
  · obtain ⟨state', copied, agrees'⟩ := agrees.copyVec room
    exact .inr ⟨state', by rw [done]; exact copied, agrees'⟩

theorem call {c : Call} (fits : c.Fits state.mmap) :
    state.call c = .error .systemCall ∨ ∃ state', state.call c = .ok state' ∧ state'.Agrees (f.call c) := by
  cases c with
  | write buf => exact agrees.write (agrees.offset ▸ fits)
  | writeV iov => exact agrees.writeV (agrees.offset ▸ fits)
  | seek offset => exact .inr ⟨_, rfl, agrees.seek offset⟩
  | writeHeader offset hdr => exact (agrees.seek offset).write fits

theorem calls {cs : List Call} (fit : AllFit state cs) :
    state.calls cs = .error .systemCall ∨ ∃ state', state.calls cs = .ok state' ∧ state'.Agrees (f.calls cs) := by
  induction cs generalizing state f with
  | nil => exact .inr ⟨state, rfl, agrees⟩
  | cons c rest ih =>
    have split : state.calls (c :: rest) = (state.call c).bind fun state' => state'.calls rest := rfl
    rw [split]
    rcases agrees.call fit.1 with failed | ⟨next, done, agrees'⟩
    · exact .inl (by rw [failed]; rfl)
    · rw [done]
      exact ih agrees' (fit.2 next done)

end

end FsDumpState.Agrees

/-- A sequence of calls leaves the bytes of a plain file if no write that makes the file grow begins past its start. -/
theorem dump_file_is_plain (cs : List Call) (fit : AllFit FsDumpState.created cs) :
    FsDumpState.created.calls cs = .error .systemCall ∨ ∃ state, FsDumpState.created.calls cs = .ok state ∧
      ∀ p, byteAt state.file p = byteAt (PlainFile.calls {} cs).bytes p := by
  rcases FsDumpState.Agrees.created.calls fit with failed | ⟨state, done, agrees⟩
  · exact .inl failed
  · exact .inr ⟨state, done, agrees.bytes⟩

theorem dump_file_is_plain_short : FsDumpState.created.calls [.write [1, 2], .writeHeader 0 [3]] = .error .systemCall ∨
      ∃ state, FsDumpState.created.calls [.write [1, 2], .writeHeader 0 [3]] = .ok state ∧
        ∀ p, byteAt state.file p = byteAt (PlainFile.calls {} [.write [1, 2], .writeHeader 0 [3]]).bytes p :=
  dump_file_is_plain _ ⟨.inl (by decide), fun _ _ => ⟨.inr (by decide), fun _ _ => trivial⟩⟩

theorem FsDumpState.fsStateWrite_short {state : FsDumpState} {buf : List UInt8} {length : Nat}
    (grown : state.fileLen + (buf.length / fsStateInitFilesize + 1) * fsStateInitFilesize = length)
    (short : state.mmap.size < (state.mmap.offset + buf.length) % 2 ^ 64) (room : buf.length ≤ length)
    (small : length < 2 ^ 63) :
    state.fsStateWrite buf =
      .ok ⟨pwrite (ftruncate state.file length) 0 buf, length, ⟨0 + buf.length, (0 + buf.length) % 2 ^ 64, length⟩⟩ := by
  unfold fsStateWrite makeRoom fsStateResizeFile afsFtruncate fsStateCheckIOSafety copyIn
  rw [if_pos (decide_eq_true short)]
  simp only [grown, if_pos small]
  change (if buf = [] ∨ 0 + buf.length ≤ length then _ else _ : Except Failure FsDumpState).bind _ = _
  rw [if_pos (.inr (by omega))]
  rfl

/-- A byte behind the first 8 megabytes is written to the start of the file. -/
theorem growing_write_goes_to_start : ¬ ∀ cs : List Call, FsDumpState.created.calls cs = .error .systemCall ∨
      ∃ state, FsDumpState.created.calls cs = .ok state ∧ ∀ p, byteAt state.file p = byteAt (PlainFile.calls {} cs).bytes p := by
  intro plain
  have split (offset : UInt64) (buf : List UInt8) : FsDumpState.created.calls [.seek offset, .write buf] =
      (FsDumpState.created.fsStateSeek offset).fsStateWrite buf := by
    change ((FsDumpState.created.fsStateSeek offset).fsStateWrite buf >>= pure) = _
    exact bind_pure _
  have ran := (split 8388608 [1]).trans
    (@FsDumpState.fsStateWrite_short _ [1] 16777216 (by decide) (by decide) (by decide) (by decide))
  rcases plain [.seek 8388608, .write [1]] with failed | ⟨state, done, bytes⟩
  · rw [ran] at failed
    cases failed
  rw [ran, Except.ok.injEq] at done
  have first := bytes 0
  rw [← done, byteAt_pwrite, if_pos (by decide)] at first
  change (1 : UInt8) = byteAt (pwrite [] 8388608 [1]) 0 at first
  rw [byteAt_pwrite, if_neg (by decide)] at first
  cases first

end OpenAFS.Tviced
