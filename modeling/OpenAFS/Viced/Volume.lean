import OpenAFS.Viced.Tree

namespace OpenAFS.Viced

open Function (update)
open Lib

def enoent : Int := 2
def eio : Int := 5
def eexist : Int := 17
def exdev : Int := 18
def enotdir : Int := 20
def eisdir : Int := 21
def einval : Int := 22
def enospc : Int := 28
def vsalvage : Int := 101
def vnovnode : Int := 102
def voffline : Int := 106
def vdiskfull : Int := 108
def voverquota : Int := 109
def fserrEloop : Int := 90

structure Vnode extends Node where
  length : Nat := 0
  inode : Nat := 0
  cloned : Bool := false

structure Volume where
  used : Finset Nat
  vnode : Nat → Vnode
  nextUnique : Nat
  /-- The contents of the inodes, and from how many volumes they are used. -/
  data : Nat → List UInt8
  links : Nat → Nat
  diskused : BitVec 32
  maxquota : Int
  free : Int
  online : Bool
  /-- Not in the code: whether a check of the disk usage has failed, for an object or for a directory that has grown. -/
  refused : Bool := false
  refusedGrowth : Bool := false

structure Options where
  blocksSpare : Int
  pctSpare : Int
  sendBufSize : Nat

/-- `nBlocks`, which computes with signed numbers. -/
def nBlocks (bytes : Nat) : Int := if bytes = 0 then 1 else ((bytes + 1023 : Int).bmod (2 ^ 64)).tdiv 1024

def andThen (r : Volume × Int) (next : Volume → Volume × Int) : Volume × Int := if r.2 = 0 then next r.1 else r

theorem andThen_success {r : Volume × Int} {next : Volume → Volume × Int} :
    (andThen r next).2 = 0 ↔ r.2 = 0 ∧ (next r.1).2 = 0 := by
  unfold andThen
  split
  · rename_i success
    exact (and_iff_right success).symm
  · rename_i failure
    exact iff_of_false failure fun both => failure both.1

theorem check_success {c : Prop} [Decidable c] {v : Volume} {code : Int} {rest : Volume × Int} (failure : c → code ≠ 0) :
    (if c then (v, code) else rest).2 = 0 ↔ ¬ c ∧ rest.2 = 0 := by
  split
  · rename_i fails
    exact iff_of_false (failure fails) fun both => both.1 fails
  · rename_i passes
    exact (and_iff_right passes).symm

namespace Volume

variable (v : Volume)

def setVnode (n : Nat) (vn : Vnode) : Volume := { v with vnode := update v.vnode n vn }

@[simp] theorem setVnode_same (n : Nat) (vn : Vnode) : (v.setVnode n vn).vnode n = vn := Function.update_self _ _ _

theorem setVnode_other {m n : Nat} (other : m ≠ n) (vn : Vnode) : (v.setVnode n vn).vnode m = v.vnode m :=
  Function.update_of_ne other _ _

def setData (i : Nat) (bytes : List UInt8) : Volume := { v with data := update v.data i bytes }

/-- `VSetPartitionDiskUsage` among others. -/
def setFree (free : Int) : Volume := { v with free }

def takeOffline : Volume := { v with online := false }

/-- The check of `VAdjustDiskUsage_r`. -/
def usageCode (blocks checkBlocks : Int) : Int :=
  if 0 < blocks then
    if v.free - checkBlocks < 0 then vdiskfull
    else if v.maxquota ≠ 0 ∧ v.maxquota < v.diskused.toInt + checkBlocks then voverquota
    else 0
  else 0

def addUsage (blocks : Int) : Volume :=
  { v with free := v.free - blocks, diskused := v.diskused + BitVec.ofInt 32 blocks }

/-- `VAdjustDiskUsage`, which charges the blocks also where its check fails. -/
def vAdjustDiskUsage (blocks checkBlocks : Int) : Volume × Int :=
  ({ v.addUsage blocks with refused := v.refused || decide (v.usageCode blocks checkBlocks ≠ 0) }, v.usageCode blocks checkBlocks)

def adjustDiskUsage (length checkLength : Int) : Volume × Int :=
  let (v', rc) := v.vAdjustDiskUsage length checkLength
  if rc ≠ 0 then ((v'.vAdjustDiskUsage (-length) 0).1, rc) else (v', 0)

theorem adjustDiskUsage_success {length checkLength : Int} :
    (v.adjustDiskUsage length checkLength).2 = 0 ↔ v.usageCode length checkLength = 0 := by
  unfold adjustDiskUsage
  dsimp only
  split
  · rfl
  · rename_i fits
    exact iff_of_true rfl (not_not.mp fits)

theorem adjustDiskUsage_fits {length checkLength : Int} (fits : v.usageCode length checkLength = 0) :
    v.adjustDiskUsage length checkLength = (v.addUsage length, 0) := by
  unfold adjustDiskUsage vAdjustDiskUsage
  dsimp only
  rw [if_neg (not_not_intro fits), fits]
  simp [addUsage]

def diskUsage (blocks : Int) : Volume × Int :=
  if 0 < blocks ∧ v.free - blocks < 0 then (v, vdiskfull) else (v.setFree (v.free - blocks), 0)

def spareComp (o : Options) : Int :=
  if o.pctSpare ≠ 0 then if v.maxquota = 0 then 0 else (v.maxquota * o.pctSpare).tdiv 100 else o.blocksSpare

end Volume

inductive CopyFate where
  /-- The old inode cannot be opened; a code of the system. -/
  | openFails (errno : Int) (positive : 0 < errno)
  | noInode
  | noMemory
  /-- The disk is full after some bytes have gone to the new inode; whether the inode could be removed. -/
  | full (inode written : Nat) (removed : Bool)
  | broken
  | copied (inode : Nat)

def Volume.copyOnWrite (v : Volume) (n : Nat) (fate : CopyFate) : Volume × Int :=
  let vn := v.vnode n
  match fate with
  | .noMemory => (v, eio)
  | fate =>
    if vn.inode = 0 then (v.takeOffline, eio)
    else
      match fate with
      | .openFails errno _ => (v.takeOffline, errno)
      | .full inode written removed =>
        if inode = 0 ∨ v.links inode ≠ 0 then (v, enospc)
        -- the test of the code of `IH_DEC` is the wrong way round
        else if removed then (v.takeOffline, enospc)
        else
          ({ v.setData inode ((v.data vn.inode).take written) with links := update v.links inode 1 }, enospc)
      | .broken => (v.takeOffline, eio)
      | .copied inode =>
        if inode = 0 ∨ v.links inode ≠ 0 then (v, enospc)
        else if vn.type ≠ .directory ∧ (v.data vn.inode).length < vn.length then (v.takeOffline, eio)
        else
          ({ (v.setData inode ((v.data vn.inode).take vn.length)).setVnode n { vn with inode, cloned := false } with
            links := update (update v.links inode 1) vn.inode (v.links vn.inode - 1) }, 0)
      | _ => (v, enospc)

end OpenAFS.Viced
