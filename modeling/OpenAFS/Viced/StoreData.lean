import OpenAFS.Viced.Volume

namespace OpenAFS.Viced

open Lib

structure StoreRequest where
  pos : Nat
  length : Nat
  fileLength : Nat

/-- How the write of the single byte goes that makes an inode longer. -/
inductive ByteWrite where
  | wrote (byte : UInt8)
  | nothing
  | failed

structure StoreFate where
  opens : Bool
  stats : Bool
  /-- The free blocks that the partition reports before and after a copy. -/
  freeBefore : Int
  freeAfter : Int
  copy : CopyFate
  reopens : Bool
  truncates : Bool
  byteWrite : ByteWrite
  setsLength : Bool
  /-- What the client sends before it ends or aborts the call. -/
  stream : List UInt8
  /-- How many bytes each read gives at most. -/
  pieces : Nat → Nat
  /-- How many bytes each write leaves behind, where it does not write them all. -/
  shortWrites : Nat → Option Nat

/-- The bytes that are asked for in one read; the length that is left is a signed number. -/
def rlen (o : Options) (left : Nat) : Nat :=
  let tlen := (left : Int).bmod (2 ^ 64)
  (if (o.sendBufSize : Int) < tlen then (o.sendBufSize : Int) else tlen.bmod (2 ^ 32)).toNat

def received (o : Options) (req : StoreRequest) (fate : StoreFate) (i done : Nat) : Nat :=
  min (min (fate.pieces i) (rlen o (req.length - done))) (fate.stream.length - done)

/-- The loop of a store, from the file position `pos` on. No more than `req.length` rounds are needed. -/
def storePieces (o : Options) (req : StoreRequest) (fate : StoreFate) (pos : Nat) :
    Nat → Nat → Nat → List UInt8 → List UInt8 × Int
  | 0, _, _, file => (file, 0)
  | rounds + 1, i, bytesTransfered, file =>
    if req.length ≤ bytesTransfered then (file, 0)
    else
      let rlen := received o req fate i bytesTransfered
      if rlen = 0 then (file, -32)
      else
        let piece := pread fate.stream bytesTransfered rlen
        match fate.shortWrites i with
        | some written => (pwrite file (pos + bytesTransfered) (piece.take (min written (rlen - 1))), vdiskfull)
        | none =>
          storePieces o req fate pos rounds (i + 1) (bytesTransfered + rlen) (pwrite file (pos + bytesTransfered) piece)

/-- Where a seek leaves a file that has just been opened; a position that is negative as a signed number fails. -/
def seek (pos : Nat) : Nat := if pos < 2 ^ 63 then pos else 0

/-- The inode is cut if it is too long, which is slow; the code of the cut is not looked at. -/
def cutFile (req : StoreRequest) (fate : StoreFate) (file : List UInt8) : List UInt8 :=
  if req.fileLength < file.length ∧ fate.truncates then file.take req.fileLength else file

def transfer (o : Options) (req : StoreRequest) (fate : StoreFate) (file : List UInt8) : List UInt8 × Int :=
  let truncatedLength := min file.length req.fileLength
  let file := cutFile req fate file
  if req.length = 0 ∧ truncatedLength < req.pos then
    match fate.byteWrite with
    | .failed => (file, -1)
    | .nothing => (file, 0)
    | .wrote byte =>
      let file := pwrite file (seek req.pos) [byte]
      if fate.setsLength ∧ req.pos < 2 ^ 63 then (ftruncate file req.pos, 0) else (file, -1)
  else storePieces o req fate (seek req.pos) req.length 0 0 file

def privateCopy (v : Volume) (n : Nat) (fate : StoreFate) : Volume × Int :=
  if v.links (v.vnode n).inode = 1 then (v, 0)
  else
    andThen ((v.setFree fate.freeBefore).diskUsage (nBlocks (v.vnode n).length)) fun v =>
    andThen (v.copyOnWrite n fate.copy) fun v => (v.setFree fate.freeAfter, if fate.reopens then 0 else enoent)

def newLength (req : StoreRequest) (dataLength : Nat) : Nat :=
  max (min dataLength req.fileLength) ((req.pos + req.length) % 2 ^ 64)

def finishStore (o : Options) (n : Nat) (req : StoreRequest) (fate : StoreFate) (newLength : Nat) (v : Volume) : Volume × Int :=
  let vn := v.vnode n
  let (file, errorCode) := transfer o req fate (v.data vn.inode)
  let v := v.setData vn.inode file
  if errorCode = 0 then (v.setVnode n { vn with length := newLength }, 0)
  else
    -- the correction of the disk usage replaces the code
    let blocks := nBlocks file.length - nBlocks newLength
    (v.setVnode n { vn with length := file.length }).vAdjustDiskUsage blocks 0

def storeData (o : Options) (n : Nat) (req : StoreRequest) (fate : StoreFate) (dataLength : Nat) (v : Volume) : Volume × Int :=
  let newLength := newLength req dataLength
  let adjustSize := nBlocks newLength - nBlocks (v.vnode n).length
  andThen (v.adjustDiskUsage adjustSize (adjustSize - v.spareComp o)) (finishStore o n req fate newLength)

def storeDataRXStyle (v : Volume) (o : Options) (n : Nat) (req : StoreRequest) (fate : StoreFate) : Volume × Int :=
  if req.pos = 2 ^ 64 - 1 ∨ (v.vnode n).inode = 0 then (v, enoent)
  else if ¬ fate.opens then (v, enoent)
  else if ¬ fate.stats then (v.takeOffline, eio)
  else
    andThen (privateCopy v n fate) (storeData o n req fate (v.data (v.vnode n).inode).length)

/-- `common_StoreData64`; `check` is the code of the checks that come first. -/
def commonStoreData64 (v : Volume) (o : Options) (n : Nat) (req : StoreRequest) (check : Int) (fate : StoreFate) : Volume × Int :=
  if check ≠ 0 then (v, check)
  else if n ∉ v.used then (v, vnovnode)
  else if (v.vnode n).type ≠ .file then (v, eisdir)
  else storeDataRXStyle v o n req fate

end OpenAFS.Viced
