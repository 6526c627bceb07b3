import Mathlib.Data.Finset.Lattice.Fold
import Mathlib.Order.Lattice.Nat
import OpenAFS.Lib.Fallible
import OpenAFS.Viced.Volume

namespace OpenAFS.Viced

open OpenAFS.Dir (dot dotdot bigMaxPages)
open Lib
open OpenAFS.Viced.Tree (Dots retarget)

structure CallFate where
  check : Int := 0
  replaceCheck : Int := 0
  vnodeCode : Int := 0
  vnode : Nat := 0
  inode : Nat := 0
  copies : Nat → CopyFate := fun _ => .noInode
  /-- The code of inserting a name that is not there yet. -/
  createCode : Int := 0
  dirPages : Nat → Nat := fun _ => 1
  decrements : Bool := true
  opens : Bool := true
  written : Bool := true
  foundOffline : Bool := true

def fileNameOK (name : Name) : Bool := !([64, 115, 121, 115].isSuffixOf name) && !name.contains 47

namespace Volume

variable (v : Volume)

def checkVnode (fid : Fid) : Int :=
  if fid.vnode = 0 then einval
  else if ¬ v.online then voffline
  else if fid.vnode ∉ v.used ∨ (v.vnode fid.vnode).unique ≠ fid.unique then vnovnode
  else 0

def getVolumePackage (fid : Fid) (check : Int) : Int :=
  if v.checkVnode fid ≠ 0 then v.checkVnode fid
  else if (v.vnode fid.vnode).type ≠ .directory then enotdir
  else check

def lookup (d : Nat) (name : Name) : Option Fid := ((v.vnode d).entries.find? fun e => e.1 = name).map Prod.snd

def createEntry (d : Nat) (name : Name) (fid : Fid) (code : Int) : Volume × Int :=
  if name = [] then (v, einval)
  else if name ∈ (v.vnode d).entries.map Prod.fst then (v, eexist)
  else if code ≠ 0 then (v, code)
  else (v.setVnode d { v.vnode d with entries := (v.vnode d).entries ++ [(name, fid)] }, 0)

def deleteEntry (d : Nat) (name : Name) : Volume :=
  v.setVnode d { v.vnode d with entries := (v.vnode d).entries.filter fun e => e.1 ≠ name }

def isEmpty (d : Nat) : Bool := (v.vnode d).entries.all fun e => Dots e.1

/-- An inode that can be made. Its number tells the vnode it is made for, so that no vnode has it yet. -/
def NewInode (i : Nat) : Prop := i ≠ 0 ∧ v.links i = 0 ∧ ∀ m ∈ v.used, (v.vnode m).inode ≠ i

instance (i : Nat) : Decidable (v.NewInode i) := inferInstanceAs (Decidable (_ ∧ _ ∧ _))

def realCopy : CopyFate → CopyFate
  | .copied i => if v.NewInode i then .copied i else .noInode
  | .full i written removed => if v.NewInode i then .full i written removed else .noInode
  | fate => fate

def copyIfCloned (n : Nat) (fate : CallFate) : Volume × Int :=
  if (v.vnode n).cloned then v.copyOnWrite n (v.realCopy (fate.copies n)) else (v, 0)

/-- The directory of the volume package gives up a vnode that is marked for deletion. -/
def freeVnode (n : Nat) : Volume := { v with used := v.used.erase n }

def decInode (i : Nat) : Volume := { v with links := Function.update v.links i (v.links i - 1) }

/-- `IH_DEC`, whose failure is only logged. -/
def tryDecInode (i : Nat) (fate : CallFate) : Volume := if fate.decrements then v.decInode i else v

def setLinkCount (n : Nat) (linkCount : Int) : Volume := v.setVnode n { v.vnode n with linkCount }

def dirLength (fate : CallFate) (d : Nat) : Nat := 2048 * min (fate.dirPages d) bigMaxPages

/-- `Update_ParentVnodeStatus`; the check of the disk usage is made, but its code is not looked at. -/
def updateParentVnodeStatus (d : Nat) (linkCount : Int) (fate : CallFate) : Volume :=
  let blocks := nBlocks (dirLength fate d) - nBlocks (v.vnode d).length
  let v := if blocks ≠ 0 then
    { v.addUsage blocks with refusedGrowth := v.refusedGrowth || decide (v.usageCode blocks blocks ≠ 0) } else v
  v.setVnode d { v.vnode d with length := dirLength fate d, linkCount }

def updateTargetVnodeStatus (n parent : Nat) (linkCount : Int) (length : Nat) : Volume :=
  v.setVnode n { v.vnode n with parent, linkCount, length }

def Fresh (type : VnodeType) (n : Nat) : Prop := n ≠ 0 ∧ n ∉ v.used ∧ (n % 2 = 1 ↔ type = .directory)

instance (type : VnodeType) (n : Nat) : Decidable (v.Fresh type n) := inferInstanceAs (Decidable (_ ∧ _ ∧ _))

def allocCode (type : VnodeType) (fate : CallFate) : Int :=
  if fate.vnodeCode ≠ 0 then fate.vnodeCode else if v.Fresh type fate.vnode then 0 else enospc

def allocVnode (type : VnodeType) (n inode : Nat) : Volume :=
  { v.setVnode n { type, unique := v.nextUnique, inode } with
    used := insert n v.used
    nextUnique := v.nextUnique + 1
    links := if inode = 0 then v.links else Function.update v.links inode 1
    data := if inode = 0 then v.data else Function.update v.data inode [] }

def allocNewVnode (d : Nat) (name : Name) (type : VnodeType) (blocks : Int) (fate : CallFate) : Volume × Int :=
  andThen (v.adjustDiskUsage blocks blocks) fun v =>
  if v.allocCode type fate ≠ 0 then ((v.vAdjustDiskUsage (-blocks) 0).1, v.allocCode type fate)
  else
    let inode := if v.NewInode fate.inode then fate.inode else 0
    let v := v.allocVnode type fate.vnode inode
    if inode = 0 then ((v.vAdjustDiskUsage (-blocks) 0).1.freeVnode fate.vnode, enospc)
    else
      let r := andThen (v.copyIfCloned d fate) fun v =>
        v.createEntry d name ⟨fate.vnode, (v.vnode fate.vnode).unique⟩ fate.createCode
      if r.2 ≠ 0 then (((r.1.vAdjustDiskUsage (-blocks) 0).1.tryDecInode inode fate).freeVnode fate.vnode, r.2) else r

/-- The last part of `DeleteTarget`: the target is marked for deletion if nothing names it any more. -/
def unlinkTarget (d : Nat) (name : Name) (n : Nat) (mustBeDir : Bool) (fate : CallFate) : Volume × Int :=
  let v := if mustBeDir then v else v.setLinkCount n ((v.vnode n).linkCount - 1)
  let vn := v.vnode n
  if mustBeDir ∨ vn.linkCount = 0 then
    if vn.inode ≠ 0 ∧ ¬ fate.decrements then (v.takeOffline, eio)
    else
      let r := ((v.decInode vn.inode).setVnode n { vn with inode := 0 }).vAdjustDiskUsage
        (-(nBlocks vn.length).bmod (2 ^ 32)) 0
      ((r.1.deleteEntry d name).freeVnode n, r.2)
  else (v.deleteEntry d name, 0)

def deleteTarget (d : Nat) (name : Name) (mustBeDir : Bool) (fate : CallFate) : Volume × Int :=
  if Dots name then (v, einval)
  else
    andThen (v.copyIfCloned d fate) fun v =>
    match v.lookup d name with
    | none => (v, enoent)
    | some fid =>
      let target := v.vnode fid.vnode
      if fid.vnode = d then (v, einval)
      else if fid.vnode ∉ v.used then (v, vnovnode)
      else if mustBeDir ∧ target.type ≠ .directory then (v, enotdir)
      else if ¬ mustBeDir ∧ target.type = .directory then (v, eisdir)
      else if target.unique ≠ fid.unique then (v.takeOffline, vsalvage)
      else if mustBeDir ∧ ¬ v.isEmpty fid.vnode then (v, eexist)
      else v.unlinkTarget d name fid.vnode mustBeDir fate

def inDirectory (dir : Fid) (check : Int) (next : Volume × Int) : Volume × Int :=
  if v.getVolumePackage dir check ≠ 0 then (v, v.getVolumePackage dir check) else next

def removeFile (dir : Fid) (name : Name) (fate : CallFate) : Volume × Int :=
  v.inDirectory dir fate.check <|
    andThen (v.deleteTarget dir.vnode name false fate) fun v =>
    (v.updateParentVnodeStatus dir.vnode (v.vnode dir.vnode).linkCount fate, 0)

def removeDir (dir : Fid) (name : Name) (fate : CallFate) : Volume × Int :=
  v.inDirectory dir fate.check <|
    andThen (v.deleteTarget dir.vnode name true fate) fun v =>
    (v.updateParentVnodeStatus dir.vnode ((v.vnode dir.vnode).linkCount - 1) fate, 0)

def createFile (dir : Fid) (name : Name) (fate : CallFate) : Volume × Int :=
  if ¬ fileNameOK name then (v, einval)
  else
    v.inDirectory dir fate.check <|
    andThen (v.allocNewVnode dir.vnode name .file (nBlocks 0) fate) fun v =>
    let v := v.updateParentVnodeStatus dir.vnode (v.vnode dir.vnode).linkCount fate
    (v.updateTargetVnodeStatus fate.vnode dir.vnode 1 0, 0)

def symlink (dir : Fid) (name : Name) (contents : List UInt8) (fate : CallFate) : Volume × Int :=
  if ¬ fileNameOK name then (v, einval)
  else
    v.inDirectory dir fate.check <|
    andThen (v.allocNewVnode dir.vnode name .symlink (nBlocks contents.length) fate) fun v =>
    let v := v.updateParentVnodeStatus dir.vnode (v.vnode dir.vnode).linkCount fate
    let v := v.updateTargetVnodeStatus fate.vnode dir.vnode 1 contents.length
    if ¬ fate.opens then (v.takeOffline, eio)
    else if fate.written then (v.setData (v.vnode fate.vnode).inode contents, 0)
    else (v, vdiskfull)

def emptyDirBlocks : Int := 2

def makeDir (dir : Fid) (name : Name) (fate : CallFate) : Volume × Int :=
  if ¬ fileNameOK name then (v, einval)
  else
    v.inDirectory dir fate.check <|
    andThen (v.allocNewVnode dir.vnode name .directory emptyDirBlocks fate) fun v =>
    let v := v.updateParentVnodeStatus dir.vnode ((v.vnode dir.vnode).linkCount + 1) fate
    let v := v.updateTargetVnodeStatus fate.vnode dir.vnode 2 0
    let target := v.vnode fate.vnode
    (v.setVnode fate.vnode { target with
      length := 2048, entries := [(dot, ⟨fate.vnode, target.unique⟩), (dotdot, dir)] }, 0)

def link (dir : Fid) (name : Name) (existing : Fid) (fate : CallFate) : Volume × Int :=
  if ¬ fileNameOK name then (v, einval)
  else
    v.inDirectory dir fate.check <|
    if dir.vnode % 2 = 1 ∧ existing.vnode % 2 = 1 ∨ dir.vnode = existing.vnode then (v, eisdir)
    else if v.checkVnode existing ≠ 0 then (v, v.checkVnode existing)
    else if (v.vnode existing.vnode).type ≠ .file then (v, eisdir)
    else if (v.vnode existing.vnode).parent ≠ dir.vnode then (v, exdev)
    else
      andThen (v.copyIfCloned dir.vnode fate) fun v =>
      andThen (v.createEntry dir.vnode name existing fate.createCode) fun v =>
      let v := v.updateParentVnodeStatus dir.vnode (v.vnode dir.vnode).linkCount fate
      (v.setLinkCount existing.vnode ((v.vnode existing.vnode).linkCount + 1), 0)

structure Refusal where
  offline : Bool
  code : Int

def renameLookup (old new : Nat) (oldName newName : Name) (replaceCheck : Int) : Except Refusal (Fid × Option Fid) :=
  match v.lookup old oldName with
  | none => .error ⟨false, enoent⟩
  | some fileFid => do
    let file := v.vnode fileFid.vnode
    ensure (fileFid.vnode ≠ old ∧ fileFid.vnode ≠ new) ⟨false, fserrEloop⟩
    ensure (fileFid.vnode ∈ v.used) ⟨true, vnovnode⟩
    ensure (file.unique = fileFid.unique) ⟨true, eio⟩
    ensure (file.type = .directory ∨ old = new ∨ file.linkCount = 1) ⟨false, exdev⟩
    match v.lookup new newName with
    | none => .ok (fileFid, none)
    | some newFileFid =>
      let newFile := v.vnode newFileFid.vnode
      ensure (replaceCheck = 0) ⟨false, replaceCheck⟩
      ensure (newFileFid.vnode ≠ old ∧ newFileFid.vnode ≠ new ∧ newFileFid.vnode ≠ fileFid.vnode) ⟨false, einval⟩
      ensure (newFileFid.vnode ∈ v.used) ⟨true, vnovnode⟩
      -- the uniquifier of the new file is not compared
      ensure (newFile.type = .directory → file.type = .directory) ⟨false, eisdir⟩
      ensure (newFile.type = .directory → v.isEmpty newFileFid.vnode) ⟨false, eexist⟩
      ensure (newFile.type ≠ .directory → file.type ≠ .directory) ⟨false, enotdir⟩
      .ok (fileFid, some newFileFid)

/-- The walk of `SAFSS_Rename` from the new directory up, in which it looks for the vnodes it moves. The passes are bounded
by the largest vnode number the walk has met, so they never run out before it gives up. -/
def walk (old new file : Nat) (newFile : Option Nat) : Nat → Nat → Nat → Nat → Bool → Except Refusal Unit
  | 0, _, _, _, _ => .error ⟨false, fserrEloop⟩
  | passes + 1, forpass, vnum, testnode, top =>
    let vnum := max vnum testnode
    if testnode = 0 then .ok ()
    else if vnum < forpass then .error ⟨false, fserrEloop⟩
    else if testnode = old then walk old new file newFile passes (forpass + 1) vnum (v.vnode old).parent top
    else if testnode = file ∨ testnode = new ∨ newFile = some testnode then .error ⟨false, fserrEloop⟩
    -- an assertion fails
    else if testnode ∉ v.used then .error ⟨true, eio⟩
    else
      let parent := (v.vnode testnode).parent
      let top := top || testnode = 1
      if top ∧ parent ≠ 0 then .error ⟨true, eio⟩
      else walk old new file newFile passes (forpass + 1) vnum parent top

def renameWalk (old new file : Nat) (newFile : Option Nat) : Except Refusal Unit :=
  if old ≠ new ∧ (v.vnode file).type = .directory then
    v.walk old new file newFile (v.used.sup id + 3) 0 0 (v.vnode new).parent false
  else .ok ()

def renameChecks (old new : Nat) (oldName newName : Name) (replaceCheck : Int) : Except Refusal (Fid × Option Fid) := do
  let found ← v.renameLookup old new oldName newName replaceCheck
  v.renameWalk old new found.1.vnode (found.2.map Fid.vnode)
  .ok found

/-- What the new name has stood for loses a link, and is marked for deletion if that was the last one. A link count of a
directory does not count entries, but it is lowered in the same way. -/
def replaceTarget (new : Nat) (newName : Name) (n : Nat) : Volume :=
  let v := v.deleteEntry new newName
  let v := v.setLinkCount n ((v.vnode n).linkCount - 1)
  let vn := v.vnode n
  if vn.linkCount = 0 then
    let v := (v.vAdjustDiskUsage (-nBlocks vn.length) 0).1
    ((v.decInode vn.inode).setVnode n { vn with inode := 0 }).freeVnode n
  else v

def setParent (old : Nat) (newDir fileFid : Fid) : Volume :=
  let new := newDir.vnode
  let v := v.setVnode fileFid.vnode { v.vnode fileFid.vnode with parent := new }
  let file := v.vnode fileFid.vnode
  if file.type = .directory then
    let v := v.setVnode fileFid.vnode { file with entries := retarget file.entries newDir }
    if old ≠ new then
      let v := v.setLinkCount old ((v.vnode old).linkCount - 1)
      v.setLinkCount new ((v.vnode new).linkCount + 1)
    else v
  else v

def moveEntry (old : Nat) (oldName : Name) (newDir : Fid) (newName : Name) (fileFid : Fid) (fate : CallFate) : Volume × Int :=
  let new := newDir.vnode
  andThen (v.createEntry new newName fileFid fate.createCode) fun v =>
  let v := v.deleteEntry old oldName
  let v := v.updateParentVnodeStatus old (v.vnode old).linkCount fate
  let v := v.updateParentVnodeStatus new (v.vnode new).linkCount fate
  (v.setParent old newDir fileFid, 0)

def refuse (refusal : Refusal) : Volume × Int := (if refusal.offline then v.takeOffline else v, refusal.code)

/-- The two directories of a rename are taken in the order of their vnodes; if they are one, the second fid is not looked
at. -/
def renamePackages (oldDir newDir : Fid) (check : Int) : Int :=
  if oldDir.vnode = newDir.vnode then v.getVolumePackage oldDir check
  else
    let (first, second) := if oldDir.vnode < newDir.vnode then (oldDir, newDir) else (newDir, oldDir)
    if v.getVolumePackage first 0 ≠ 0 then v.getVolumePackage first 0 else v.getVolumePackage second check

def proceed (r : Volume × Int) : Except (Volume × Int) Volume := if r.2 = 0 then .ok r.1 else .error r

/-- `SAFSS_Rename` up to its first change of an entry: the file it moves, and what the new name stands for. -/
def renamePrepare (oldDir : Fid) (oldName : Name) (newDir : Fid) (newName : Name) (fate : CallFate) :
    Except (Volume × Int) (Volume × Fid × Option Fid) := do
  ensure (fileNameOK newName) (v, einval)
  ensure (¬ (Dots oldName ∨ Dots newName ∨ newName = [] ∨ oldName = [])) (v, einval)
  ensure (v.renamePackages oldDir newDir fate.check = 0) (v, v.renamePackages oldDir newDir fate.check)
  let v ← proceed (v.copyIfCloned oldDir.vnode fate)
  let v ← proceed (v.copyIfCloned newDir.vnode fate)
  let (fileFid, newFileFid) ←
    (v.renameChecks oldDir.vnode newDir.vnode oldName newName fate.replaceCheck).mapError v.refuse
  let v ← proceed (if (v.vnode fileFid.vnode).type = .directory then v.copyIfCloned fileFid.vnode fate else (v, 0))
  .ok (v, fileFid, newFileFid)

def rename (oldDir : Fid) (oldName : Name) (newDir : Fid) (newName : Name) (fate : CallFate) : Volume × Int :=
  match v.renamePrepare oldDir oldName newDir newName fate with
  | .error r => r
  | .ok (v, fileFid, newFileFid) =>
    let v := newFileFid.elim v fun fid => v.replaceTarget newDir.vnode newName fid.vnode
    v.moveEntry oldDir.vnode oldName newDir newName fileFid fate

end Volume

inductive Call where
  | createFile (dir : Fid) (name : Name)
  | makeDir (dir : Fid) (name : Name)
  | symlink (dir : Fid) (name : Name) (contents : List UInt8)
  | link (dir : Fid) (name : Name) (existing : Fid)
  | removeFile (dir : Fid) (name : Name)
  | removeDir (dir : Fid) (name : Name)
  | rename (oldDir : Fid) (oldName : Name) (newDir : Fid) (newName : Name)

def Volume.call (v : Volume) (fate : CallFate) : Call → Volume × Int
  | .createFile dir name => v.createFile dir name fate
  | .makeDir dir name => v.makeDir dir name fate
  | .symlink dir name contents => v.symlink dir name contents fate
  | .link dir name existing => v.link dir name existing fate
  | .removeFile dir name => v.removeFile dir name fate
  | .removeDir dir name => v.removeDir dir name fate
  | .rename oldDir oldName newDir newName => v.rename oldDir oldName newDir newName fate

end OpenAFS.Viced
