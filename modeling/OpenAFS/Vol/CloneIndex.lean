import OpenAFS.Lib.ByteOrder
import OpenAFS.Vol.Streams

namespace OpenAFS.Vol

open Lib

abbrev VnodeDiskObject := Bytes

namespace VnodeDiskObject

variable (host : ByteOrder) (v : VnodeDiskObject)

/-- The first byte begins with `type` and `cloned`, in the order of the host. -/
def type : UInt8 :=
  match host with
  | .little => v.getD 0 0 &&& 7
  | .big => v.getD 0 0 >>> 5

def clonedBit : UInt8 :=
  match host with
  | .little => 8
  | .big => 16

def setCloned (cloned : Bool) : VnodeDiskObject :=
  match v with
  | [] => []
  | first :: rest => (if cloned then first ||| clonedBit host else first &&& ~~~clonedBit host) :: rest

def vnodeMagic : UInt32 := host.load (pread v 36 4)

/-- `VNDISK_GET_INO`: the halves are signed. -/
def ino : BitVec 64 :=
  (host.load (pread v 16 4)).toBitVec.signExtend 64 ||| (host.load (pread v 56 4)).toBitVec.signExtend 64 <<< 32

end VnodeDiskObject

def vNull : UInt8 := 0
def vDirectory : UInt8 := 2

structure VnodeClassInfo where
  diskSize : Nat
  magic : UInt32
  /-- A record has all of the structure. -/
  large : 64 ≤ diskSize

def vSmall : VnodeClassInfo := ⟨64, 0xda8c041f, by decide⟩
def vLarge : VnodeClassInfo := ⟨256, 0xad8765fe, by decide⟩

def maxLinks : Nat := 7

/-- What the call is about: the machine, the class, and whether the original is writeable and the clone is an old one. -/
structure CloneArgs where
  host : ByteOrder
  vcp : VnodeClassInfo
  readWriteOriginal : Bool
  reclone : Bool

/-- The variables of the call, with the links of the inodes and whether the original has been forced offline. -/
structure CloneState where
  os : Os
  links : BitVec 64 → Nat
  offline : Bool := false
  rwfile : StreamHandle := { fd := false }
  clfilein : StreamHandle := { fd := true }
  clfileout : StreamHandle := { fd := true }
  items : List (BitVec 64) := []

/-- `EIO`, and the -1 of a bad magic number. -/
def eio : Int := 5
def badMagic : Int := -1

namespace CloneState

variable (c : CloneState)

def ihInc (ino : BitVec 64) : CloneState × Bool :=
  match c.os.attempt with
  | (os, false) => ({ c with os }, false)
  | (os, true) =>
    if maxLinks ≤ c.links ino then ({ c with os }, false)
    else ({ c with os, links := Function.update c.links ino (c.links ino + 1) }, true)

/-- `IH_DEC`; a count of 0 stays. -/
def ihDec (ino : BitVec 64) : CloneState × Bool :=
  match c.os.attempt with
  | (os, false) => ({ c with os }, false)
  | (os, true) => ({ c with os, links := Function.update c.links ino (c.links ino - 1) }, true)

def readRw (size : Nat) : Except Stop (CloneState × Bytes) := do
  let (os, rwfile, got) ← streamRead c.os c.rwfile size
  .ok ({ c with os, rwfile }, got)

def readClone (size : Nat) : Except Stop (CloneState × Bytes) := do
  let (os, clfilein, got) ← streamRead c.os c.clfilein size
  .ok ({ c with os, clfilein }, got)

def seekRw (offset : Int) : CloneState × Bool :=
  let (os, rwfile, fine) := streamSeek c.os c.rwfile offset
  ({ c with os, rwfile }, fine)

def writeRw (v : VnodeDiskObject) : Except Stop (CloneState × Bool) := do
  let (os, rwfile, n) ← streamWrite c.os c.rwfile v
  .ok ({ c with os, rwfile }, n = v.length)

def writeClone (v : VnodeDiskObject) : Except Stop (CloneState × Bool) := do
  let (os, clfileout, n) ← streamWrite c.os c.clfileout v
  .ok ({ c with os, clfileout }, n = v.length)

variable (a : CloneArgs)

/-- From `clonefailed` on: the link and the mark of the directory are taken back. -/
def cloneFailed (offset : Int) (v : VnodeDiskObject) (inodeinced dircloned : Bool) : Except Stop (CloneState × Int) :=
  let (c, fine) := if inodeinced then c.ihDec (v.ino a.host) else (c, true)
  if fine = false then .ok ({ c with offline := true }, eio)
  else if dircloned then
    let (c, sought) := c.seekRw offset
    if sought then do
      let (c, _) ← c.writeRw (v.setCloned a.host false)
      .ok (c, eio)
    else .ok (c, eio)
  else .ok (c, eio)

/-- A directory of a writeable original is marked as cloned: `none` if that fails, else whether it has been marked. -/
def markDirectory (offset : Int) (v : VnodeDiskObject) : Except Stop (CloneState × Option Unit × Bool) :=
  let (c, sought) := c.seekRw offset
  if sought = false then .ok (c, none, false)
  else do
    let (c, wrote) ← c.writeRw (v.setCloned a.host true)
    if wrote = false then .ok (c, none, false)
    else
      let (c, sought) := c.seekRw (offset + a.vcp.diskSize)
      .ok (c, if sought then some () else none, true)

/-- The inode is linked once more unless the old clone has it already; `none` if that fails, else the inode that is still to be
removed from the old clone and whether there was a new link. -/
def linkInode (rwinode clinode : BitVec 64) : CloneState × Option (BitVec 64 × Bool) :=
  if clinode ≠ 0 ∧ clinode = rwinode then (c, some (0, false))
  else if rwinode ≠ 0 then
    match c.ihInc rwinode with
    | (c, false) => ({ c with offline := true }, none)
    | (c, true) => (c, some (clinode, true))
  else (c, some (clinode, false))

/-- The record is written into the clone's index, and the old clone's inode is put on the list. -/
def overwrite (offset : Int) (v : VnodeDiskObject) (clinode : BitVec 64) (inodeinced dircloned : Bool) :
    Except Stop (CloneState × Option Int) := do
  let (c, wrote) ← c.writeClone (v.setCloned a.host false)
  if wrote = false then do
    let (c, code) ← c.cloneFailed a offset v inodeinced dircloned
    .ok (c, some code)
  else if clinode ≠ 0 then .ok ({ c with items := c.items ++ [clinode] }, none)
  else .ok (c, none)

def copyVnode (offset : Int) (v : VnodeDiskObject) (clinode : BitVec 64) (inodeinced : Bool) :
    Except Stop (CloneState × Option Int) :=
  if v.type a.host = vDirectory ∧ a.readWriteOriginal then do
    let (c, marked, dircloned) ← c.markDirectory a offset v
    match marked with
    | none => do
      let (c, code) ← c.cloneFailed a offset v inodeinced dircloned
      .ok (c, some code)
    | some () => c.overwrite a offset v clinode inodeinced dircloned
  else c.overwrite a offset v clinode inodeinced false

def cloneVnode (offset : Int) (v : VnodeDiskObject) (clinode : BitVec 64) : Except Stop (CloneState × Option Int) :=
  if v.type a.host = vNull then c.overwrite a offset v clinode false false
  else if v.vnodeMagic a.host ≠ a.vcp.magic then .ok (c, some badMagic)
  else
    match c.linkInode (v.ino a.host) clinode with
    | (c, none) => .ok (c, some eio)
    | (c, some (clinode, inodeinced)) => c.copyVnode a offset v clinode inodeinced

/-- The inode of the old clone's record beside the one that was read, 0 if there is none. -/
def oldInode : Except Stop (CloneState × BitVec 64) :=
  if a.reclone ∧ c.clfilein.eof = false then do
    let (c, got) ← c.readClone a.vcp.diskSize
    .ok (c, if got.length = a.vcp.diskSize then VnodeDiskObject.ino a.host got else 0)
  else .ok (c, 0)

/-- `offset += vcp->diskSize` in 32 bits. -/
def advance (offset : Int) : Int := (offset + a.vcp.diskSize).bmod (2 ^ 32)

def cloneLoop (c : CloneState) (offset : Int) : Nat → Except Stop (CloneState × Int × Option Int)
  | 0 => .error .endless
  | fuel + 1 => do
    let (c, v) ← c.readRw a.vcp.diskSize
    if v.length ≠ a.vcp.diskSize then .ok (c, offset, none)
    else do
      let (c, clinode) ← c.oldInode a
      let (c, code) ← c.cloneVnode a offset v clinode
      match code with
      | some code => .ok (c, offset, some code)
      | none => cloneLoop c (advance a offset) fuel

def junkLoop (c : CloneState) : Nat → Except Stop CloneState
  | 0 => .error .endless
  | fuel + 1 => do
    let (c, v) ← c.readClone a.vcp.diskSize
    if v.length ≠ a.vcp.diskSize then .ok c
    else
      let c := if VnodeDiskObject.type a.host v ≠ vNull ∧ VnodeDiskObject.ino a.host v ≠ 0 then
        { c with items := c.items ++ [VnodeDiskObject.ino a.host v] } else c
      junkLoop c fuel

def fuel : Nat := (c.os.file false).length + (c.os.file true).length + 1

def cloneRecords : Except Stop (CloneState × Int × Option Int) := do
  let (c, offset, code) ← c.cloneLoop a a.vcp.diskSize c.fuel
  match code with
  | some code => .ok (c, offset, some code)
  | none =>
    if c.clfileout.error then .ok (c, offset, some eio)
    else if a.reclone then do
      let (os, clfilein, _) := streamSeek c.os c.clfilein offset
      let c := { c with os, clfilein }
      let c ← c.junkLoop a c.fuel
      .ok (c, offset, none)
    else .ok (c, offset, none)

/-- `IH_OPEN` and `FDH_FDOPEN`, and the first seek; a failure of that one counts for the clone's output only. -/
def openIndexes : CloneState × Option Int :=
  let (os, fine) := c.os.attempt
  let c := { c with os }
  if fine = false then (c, some eio)
  else
    let (c, _) := c.seekRw a.vcp.diskSize
    let (os, fine) := c.os.attempt
    let c := { c with os }
    if fine = false then (c, some eio)
    else
      let (os, clfileout, fine) := streamSeek c.os c.clfileout a.vcp.diskSize
      let c := { c with os, clfileout }
      if fine = false then (c, some eio)
      else if a.reclone then
        let (os, fine) := c.os.attempt
        let c := { c with os }
        if fine = false then (c, some eio)
        else
          let (os, clfilein, _) := streamSeek c.os c.clfilein a.vcp.diskSize
          ({ c with os, clfilein }, none)
      else (c, none)

/-- From `error_exit` on: the buffers are written, the clone's index is cut off, and the old inodes lose their links. -/
def finish (offset : Int) (error : Option Int) : CloneState × Int :=
  let (os, _) := streamClose c.os c.rwfile
  let (os, _) := streamClose os c.clfilein
  let (os, _) := streamClose os c.clfileout
  let (os, fine) := os.attempt
  let (os, error) :=
    if fine = false then (os, error.getD eio)
    else
      match error with
      | some code => (os, code)
      | none =>
        if a.reclone then
          let (os, fine) := os.trunc true offset
          (os, if fine then 0 else -1)
        else (os, 0)
  (c.items.foldl (fun c ino => (c.ihDec ino).1) { c with os }, error)

def doCloneIndex : Except Stop (CloneState × Int) :=
  match c.openIndexes a with
  | (_, some _) => .error .uninitialized
  | (c, none) => do
    let (c, offset, code) ← c.cloneRecords a
    .ok (c.finish a offset code)

end CloneState

end OpenAFS.Vol
