import OpenAFS.Lib.Effects
import OpenAFS.Viced.Calls

namespace OpenAFS.Viced

open OpenAFS.Dir (dot dotdot)
open Lib
open OpenAFS.Viced.Tree (Dots)

inductive Ptr where
  | parentptr
  | targetptr
  | oldvptr
  | newvptr
  | fileptr
  | newfileptr
deriving DecidableEq

inductive Ref where
  | volume
  | vnode (n : Nat)
deriving DecidableEq

structure Session where
  volume : Volume
  volptr : Bool := false
  ptr : Ptr → Option Nat := fun _ => none
  /-- The vnodes whose flag `delete` is set. -/
  delete : Finset Nat := ∅
  /-- Not in the code: the references that the call has taken and put back so far. -/
  taken : Multiset Ref := 0
  putBack : Multiset Ref := 0

namespace Session

variable (s : Session)

def change (f : Volume → Volume) : Session := { s with volume := f s.volume }

def mark (n : Nat) : Session := { s with delete := insert n s.delete }

def point (p : Ptr) (n : Option Nat) : Session := { s with ptr := Function.update s.ptr p n }

def vPutVnode (p : Ptr) : Session :=
  match s.ptr p with
  | none => s
  | some n =>
    { s with
      volume := if n ∈ s.delete then s.volume.freeVnode n else s.volume
      delete := s.delete.erase n
      putBack := .vnode n ::ₘ s.putBack }

def vPutVolume : Session := if s.volptr then { s with putBack := .volume ::ₘ s.putBack } else s

def putVolumePackage (vnodes : List Ptr) : Session := (vnodes.foldl vPutVnode s).vPutVolume

end Session

inductive Leave where
  | goto (errorCode : Int)
  | out (code : Int)

abbrev Act := EStateM Leave Session

namespace Act

def check (c : Prop) [Decidable c] (errorCode : Int) : Act Unit := if c then pure () else throw (.goto errorCode)

def step (f : Volume → Volume × Int) : Act Unit := do
  let s ← get
  set { s with volume := (f s.volume).1 }
  check ((f s.volume).2 = 0) (f s.volume).2

def change (f : Volume → Volume) : Act Unit := modify fun s => s.change f

def checkOrOffline (c : Prop) [Decidable c] (errorCode : Int) : Act Unit :=
  onError (check c errorCode) fun s => s.change Volume.takeOffline

def vGetVolume (fate : CallFate) : Act Unit := do
  let s ← get
  whenever (s.volume.online ∨ fate.foundOffline) (set { s with volptr := true, taken := .volume ::ₘ s.taken })
  check s.volume.online voffline

/-- `VGetVnode` into a pointer. -/
def vGetVnode (p : Ptr) (n : Nat) : Act Unit := do
  let s ← get
  set (s.point p none)
  check (n ∈ s.volume.used) vnovnode
  set { s.point p (some n) with taken := .vnode n ::ₘ s.taken }

def checkVnode (fid : Fid) (p : Ptr) (fate : CallFate) : Act Unit := do
  check (fid.vnode ≠ 0) einval
  whenever (¬ (← get).volptr) (vGetVolume fate)
  vGetVnode p fid.vnode
  onError (check (((← get).volume.vnode fid.vnode).unique = fid.unique) vnovnode) fun s => (s.vPutVnode p).point p none

def getVolumePackage (fid : Fid) (p : Ptr) (fate : CallFate) : Act Unit := do
  checkVnode fid p fate
  check (((← get).volume.vnode fid.vnode).type = .directory) enotdir

def allocNewVnode (d : Nat) (name : Name) (type : VnodeType) (blocks : Int) (fate : CallFate) : Act Unit := do
  let refund (s : Session) := s.change fun v => (v.vAdjustDiskUsage (-blocks) 0).1
  step fun v => v.adjustDiskUsage blocks blocks
  let s ← get
  onError (check (s.volume.allocCode type fate = 0) (s.volume.allocCode type fate)) refund
  let inode := if s.volume.NewInode fate.inode then fate.inode else 0
  set { (s.change fun v => v.allocVnode type fate.vnode inode).point .targetptr (some fate.vnode) with
    taken := .vnode fate.vnode ::ₘ s.taken }
  onError (check (inode ≠ 0) enospc) fun s => (refund s).mark fate.vnode
  onError
    (do
      step fun v => v.copyIfCloned d fate
      step fun v => v.createEntry d name ⟨fate.vnode, (v.vnode fate.vnode).unique⟩ fate.createCode)
    fun s => ((refund s).change fun v => v.tryDecInode inode fate).mark fate.vnode

def unlinkTarget (d : Nat) (name : Name) (n : Nat) (mustBeDir : Bool) (fate : CallFate) : Act Unit := do
  whenever (¬ mustBeDir) (change fun v => v.setLinkCount n ((v.vnode n).linkCount - 1))
  let vn := (← get).volume.vnode n
  if mustBeDir ∨ vn.linkCount = 0 then
    modify fun s => s.mark n
    checkOrOffline (¬ (vn.inode ≠ 0 ∧ ¬ fate.decrements)) eio
    change fun v => (v.decInode vn.inode).setVnode n { vn with inode := 0 }
    -- the name is deleted also where the usage is not adjusted
    onError (step fun v => v.vAdjustDiskUsage (-(nBlocks vn.length).bmod (2 ^ 32)) 0)
      fun s => s.change fun v => v.deleteEntry d name
    change fun v => v.deleteEntry d name
  else change fun v => v.deleteEntry d name

def deleteTarget (d : Nat) (name : Name) (mustBeDir : Bool) (fate : CallFate) : Act Unit := do
  check (¬ Dots name) einval
  step fun v => v.copyIfCloned d fate
  match (← get).volume.lookup d name with
  | none => throw (.goto enoent)
  | some fid =>
    check (fid.vnode ≠ d) einval
    vGetVnode .targetptr fid.vnode
    let s ← get
    let target := s.volume.vnode fid.vnode
    check (mustBeDir → target.type = .directory) enotdir
    check (¬ mustBeDir → target.type ≠ .directory) eisdir
    checkOrOffline (target.unique = fid.unique) vsalvage
    check (mustBeDir → s.volume.isEmpty fid.vnode) eexist
    unlinkTarget d name fid.vnode mustBeDir fate

def removeFile (dir : Fid) (name : Name) (fate : CallFate) : Act Unit := do
  getVolumePackage dir .parentptr fate
  check (fate.check = 0) fate.check
  deleteTarget dir.vnode name false fate
  change fun v => v.updateParentVnodeStatus dir.vnode (v.vnode dir.vnode).linkCount fate

def removeDir (dir : Fid) (name : Name) (fate : CallFate) : Act Unit := do
  getVolumePackage dir .parentptr fate
  check (fate.check = 0) fate.check
  deleteTarget dir.vnode name true fate
  change fun v => v.updateParentVnodeStatus dir.vnode ((v.vnode dir.vnode).linkCount - 1) fate

def createFile (dir : Fid) (name : Name) (fate : CallFate) : Act Unit := do
  check (fileNameOK name) einval
  getVolumePackage dir .parentptr fate
  check (fate.check = 0) fate.check
  allocNewVnode dir.vnode name .file (nBlocks 0) fate
  change fun v => v.updateParentVnodeStatus dir.vnode (v.vnode dir.vnode).linkCount fate
  change fun v => v.updateTargetVnodeStatus fate.vnode dir.vnode 1 0

/-- `SAFSS_Symlink`. Where the inode cannot be opened, everything is put back before the volume is taken offline, and the
label at the end is not reached. A write that fails is found out only in the code. -/
def symlink (dir : Fid) (name : Name) (contents : List UInt8) (fate : CallFate) : Act Unit := do
  check (fileNameOK name) einval
  getVolumePackage dir .parentptr fate
  check (fate.check = 0) fate.check
  allocNewVnode dir.vnode name .symlink (nBlocks contents.length) fate
  change fun v => v.updateParentVnodeStatus dir.vnode (v.vnode dir.vnode).linkCount fate
  change fun v => v.updateTargetVnodeStatus fate.vnode dir.vnode 1 contents.length
  if ¬ fate.opens then
    modify fun s => (s.putVolumePackage [.targetptr, .parentptr]).change Volume.takeOffline
    throw (.out eio)
  else
    whenever fate.written (change fun v => v.setData (v.vnode fate.vnode).inode contents)
    check fate.written vdiskfull

def makeDir (dir : Fid) (name : Name) (fate : CallFate) : Act Unit := do
  check (fileNameOK name) einval
  getVolumePackage dir .parentptr fate
  check (fate.check = 0) fate.check
  allocNewVnode dir.vnode name .directory Volume.emptyDirBlocks fate
  change fun v => v.updateParentVnodeStatus dir.vnode ((v.vnode dir.vnode).linkCount + 1) fate
  change fun v => v.updateTargetVnodeStatus fate.vnode dir.vnode 2 0
  change fun v => v.setVnode fate.vnode { v.vnode fate.vnode with
    length := 2048, entries := [(dot, ⟨fate.vnode, (v.vnode fate.vnode).unique⟩), (dotdot, dir)] }

def link (dir : Fid) (name : Name) (existing : Fid) (fate : CallFate) : Act Unit := do
  check (fileNameOK name) einval
  getVolumePackage dir .parentptr fate
  check (fate.check = 0) fate.check
  check (¬ (dir.vnode % 2 = 1 ∧ existing.vnode % 2 = 1 ∨ dir.vnode = existing.vnode)) eisdir
  checkVnode existing .targetptr fate
  let target := (← get).volume.vnode existing.vnode
  check (target.type = .file) eisdir
  check (target.parent = dir.vnode) exdev
  step fun v => v.copyIfCloned dir.vnode fate
  step fun v => v.createEntry dir.vnode name existing fate.createCode
  change fun v => v.updateParentVnodeStatus dir.vnode (v.vnode dir.vnode).linkCount fate
  change fun v => v.setLinkCount existing.vnode ((v.vnode existing.vnode).linkCount + 1)

def renamePackages (oldDir newDir : Fid) (fate : CallFate) : Act Unit :=
  if oldDir.vnode ≤ newDir.vnode then do
    getVolumePackage oldDir .oldvptr fate
    if oldDir.vnode = newDir.vnode then modify fun s => s.point .newvptr (s.ptr .oldvptr)
    else getVolumePackage newDir .newvptr fate
  else do
    getVolumePackage newDir .newvptr fate
    getVolumePackage oldDir .oldvptr fate

def renameLookup (old new : Nat) (oldName newName : Name) (fate : CallFate) : Act (Fid × Option Fid) := do
  match (← get).volume.lookup old oldName with
  | none => throw (.goto enoent)
  | some fileFid =>
    check (fileFid.vnode ≠ old ∧ fileFid.vnode ≠ new) fserrEloop
    onError (vGetVnode .fileptr fileFid.vnode) fun s => s.change Volume.takeOffline
    let s ← get
    let file := s.volume.vnode fileFid.vnode
    checkOrOffline (file.unique = fileFid.unique) eio
    check (file.type = .directory ∨ old = new ∨ file.linkCount = 1) exdev
    match s.volume.lookup new newName with
    | none => pure (fileFid, none)
    | some newFileFid =>
      check (fate.replaceCheck = 0) fate.replaceCheck
      check (newFileFid.vnode ≠ old ∧ newFileFid.vnode ≠ new ∧ newFileFid.vnode ≠ fileFid.vnode) einval
      onError (vGetVnode .newfileptr newFileFid.vnode) fun s => s.change Volume.takeOffline
      -- it is the file's own uniquifier that is compared again
      checkOrOffline (file.unique = fileFid.unique) eio
      let newFile := s.volume.vnode newFileFid.vnode
      check (newFile.type = .directory → file.type = .directory) eisdir
      check (newFile.type = .directory → s.volume.isEmpty newFileFid.vnode) eexist
      check (newFile.type ≠ .directory → file.type ≠ .directory) enotdir
      pure (fileFid, some newFileFid)

/-- The walk of `SAFSS_Rename`, which puts each vnode back before it takes the next. -/
def walk (old new file : Nat) (newFile : Option Nat) : Nat → Nat → Nat → Nat → Bool → Act Unit
  | 0, _, _, _, _ => throw (.goto fserrEloop)
  | passes + 1, forpass, vnum, testnode, top => do
    let s ← get
    let vnum := max vnum testnode
    if testnode = 0 then pure ()
    else if vnum < forpass then throw (.goto fserrEloop)
    else if testnode = old then walk old new file newFile passes (forpass + 1) vnum (s.volume.vnode old).parent top
    else if testnode = file ∨ testnode = new ∨ newFile = some testnode then throw (.goto fserrEloop)
    else
      -- an assertion
      checkOrOffline (testnode ∈ s.volume.used) eio
      let parent := (s.volume.vnode testnode).parent
      let top := top || testnode = 1
      modify fun s => { s with taken := .vnode testnode ::ₘ s.taken, putBack := .vnode testnode ::ₘ s.putBack }
      checkOrOffline (¬ (top ∧ parent ≠ 0)) eio
      walk old new file newFile passes (forpass + 1) vnum parent top

def replaceTarget (new : Nat) (newName : Name) (n : Nat) : Act Unit := do
  change fun v => v.deleteEntry new newName
  change fun v => v.setLinkCount n ((v.vnode n).linkCount - 1)
  let vn := (← get).volume.vnode n
  whenever (vn.linkCount = 0) do
    change fun v => ((v.vAdjustDiskUsage (-nBlocks vn.length) 0).1.decInode vn.inode).setVnode n { vn with inode := 0 }
    modify fun s => s.mark n

def rename (oldDir : Fid) (oldName : Name) (newDir : Fid) (newName : Name) (fate : CallFate) : Act Unit := do
  check (fileNameOK newName) einval
  check (¬ (Dots oldName ∨ Dots newName ∨ newName = [] ∨ oldName = [])) einval
  renamePackages oldDir newDir fate
  check (fate.check = 0) fate.check
  step fun v => v.copyIfCloned oldDir.vnode fate
  step fun v => v.copyIfCloned newDir.vnode fate
  let (fileFid, newFileFid) ← renameLookup oldDir.vnode newDir.vnode oldName newName fate
  let v := (← get).volume
  whenever (oldDir.vnode ≠ newDir.vnode ∧ (v.vnode fileFid.vnode).type = .directory)
    (walk oldDir.vnode newDir.vnode fileFid.vnode (newFileFid.map Fid.vnode) (v.used.sup id + 3) 0 0
      (v.vnode newDir.vnode).parent false)
  whenever ((v.vnode fileFid.vnode).type = .directory) (step fun v => v.copyIfCloned fileFid.vnode fate)
  match newFileFid with
  | none => pure ()
  | some fid => replaceTarget newDir.vnode newName fid.vnode
  step fun v => v.createEntry newDir.vnode newName fileFid fate.createCode
  change fun v => v.deleteEntry oldDir.vnode oldName
  change fun v => v.updateParentVnodeStatus oldDir.vnode (v.vnode oldDir.vnode).linkCount fate
  change fun v => v.updateParentVnodeStatus newDir.vnode (v.vnode newDir.vnode).linkCount fate
  change fun v => v.setParent oldDir.vnode newDir fileFid

end Act

def bad (s : Session) : Session := s.putVolumePackage [.targetptr, .parentptr]

def badRename (s : Session) : Session :=
  (s.vPutVnode .newfileptr).putVolumePackage
    (.fileptr :: ((if s.ptr .newvptr = s.ptr .oldvptr then [] else [.newvptr]) ++ [.oldvptr]))

def serve (label : Session → Session) (x : Act Unit) (v : Volume) : Session × Int :=
  match x { volume := v } with
  | .ok _ s => (label s, 0)
  | .error (.goto errorCode) s => (label s, errorCode)
  | .error (.out code) s => (s, code)

def safss (v : Volume) (fate : CallFate) : Call → Session × Int
  | .createFile dir name => serve bad (Act.createFile dir name fate) v
  | .makeDir dir name => serve bad (Act.makeDir dir name fate) v
  | .symlink dir name contents => serve bad (Act.symlink dir name contents fate) v
  | .link dir name existing => serve bad (Act.link dir name existing fate) v
  | .removeFile dir name => serve bad (Act.removeFile dir name fate) v
  | .removeDir dir name => serve bad (Act.removeDir dir name fate) v
  | .rename oldDir oldName newDir newName => serve badRename (Act.rename oldDir oldName newDir newName fate) v

end OpenAFS.Viced
