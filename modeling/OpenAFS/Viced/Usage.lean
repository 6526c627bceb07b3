import Mathlib.Data.BitVec
import Mathlib.Tactic.LinearCombination
import Mathlib.Tactic.Ring
import OpenAFS.Viced.NamespaceSound
import OpenAFS.Viced.StoreData

namespace OpenAFS.Viced

open Lib
open OpenAFS.Viced.Tree (Dots)

variable {v v' : Volume} {d n m : Nat} {name : Name} {fid dir : Fid} {fate : CallFate}

namespace Volume

def totalBlocks (v : Volume) : Int := ∑ n ∈ v.used, nBlocks (v.vnode n).length

def balance (v : Volume) : BitVec 32 := v.diskused - BitVec.ofInt 32 v.totalBlocks

theorem totalBlocks_congr (used : v'.used = v.used) (length : ∀ m ∈ v.used, (v'.vnode m).length = (v.vnode m).length) :
    v'.totalBlocks = v.totalBlocks := by
  unfold totalBlocks
  rw [used]
  exact Finset.sum_congr rfl fun m inUse => by rw [length m inUse]

theorem totalBlocks_setVnode (inUse : n ∈ v.used) (vn : Vnode) :
    (v.setVnode n vn).totalBlocks = v.totalBlocks + (nBlocks vn.length - nBlocks (v.vnode n).length) := by
  unfold totalBlocks
  rw [setVnode_used, ← Finset.add_sum_erase _ _ inUse, ← Finset.add_sum_erase _ _ inUse, setVnode_same]
  have rest : ∑ m ∈ v.used.erase n, nBlocks ((v.setVnode n vn).vnode m).length =
      ∑ m ∈ v.used.erase n, nBlocks (v.vnode m).length :=
    Finset.sum_congr rfl fun m other => by rw [setVnode_other v (Finset.ne_of_mem_erase other)]
  omega

theorem totalBlocks_freeVnode (inUse : n ∈ v.used) :
    (v.freeVnode n).totalBlocks = v.totalBlocks - nBlocks (v.vnode n).length := by
  have split : nBlocks (v.vnode n).length + (v.freeVnode n).totalBlocks = v.totalBlocks :=
    Finset.add_sum_erase v.used (fun m => nBlocks (v.vnode m).length) inUse
  omega

theorem ofInt_sub (x y : Int) : BitVec.ofInt 32 (x - y) = BitVec.ofInt 32 x - BitVec.ofInt 32 y := by
  rw [Int.sub_eq_add_neg, BitVec.ofInt_add, BitVec.ofInt_neg, ← sub_eq_add_neg]

theorem balance_eq {x : Int} (charged : v'.diskused = v.diskused + BitVec.ofInt 32 x)
    (held : v'.totalBlocks = v.totalBlocks + x) : v'.balance = v.balance := by
  unfold balance
  rw [charged, held, BitVec.ofInt_add]
  ring

structure Quiet (v v' : Volume) : Prop where
  used : v'.used = v.used
  length : ∀ m, (v'.vnode m).length = (v.vnode m).length
  diskused : v'.diskused = v.diskused
  refused : v'.refused = v.refused

theorem Quiet.refl (v : Volume) : Quiet v v := ⟨rfl, fun _ => rfl, rfl, rfl⟩

variable {w : Volume} {r : Volume × Int} {next : Volume → Volume × Int} {blocks : Int} {newDir : Fid}

theorem Quiet.trans (first : Quiet v v') (second : Quiet v' w) : Quiet v w :=
  ⟨second.used.trans first.used, fun m => (second.length m).trans (first.length m),
    second.diskused.trans first.diskused, second.refused.trans first.refused⟩

theorem Quiet.andThen (first : Quiet v r.1) (second : r.2 = 0 → Quiet r.1 (next r.1).1) : Quiet v (andThen r next).1 := by
  unfold Viced.andThen
  split
  · rename_i success
    exact first.trans (second success)
  · exact first

theorem Same.quiet (same : Same v v') (diskused : v'.diskused = v.diskused) (refused : v'.refused = v.refused) :
    Quiet v v' := ⟨same.used, same.length, diskused, refused⟩

theorem setVnode_quiet {vn : Vnode} (length : vn.length = (v.vnode n).length) : Quiet v (v.setVnode n vn) := by
  refine ⟨rfl, fun m => ?_, rfl, rfl⟩
  rw [setVnode_vnode]
  split
  · rename_i here
    rw [length, here]
  · rfl

structure Pays (v : Volume) (r : Volume × Int) : Prop where
  balance : r.1.balance = v.balance
  refused : r.2 = 0 → r.1.refused = v.refused

theorem balance_congr (used : v'.used = v.used) (length : ∀ m ∈ v.used, (v'.vnode m).length = (v.vnode m).length)
    (diskused : v'.diskused = v.diskused) : v'.balance = v.balance := by
  unfold Volume.balance
  rw [diskused, totalBlocks_congr used length]

theorem Quiet.balance (quiet : Quiet v v') : v'.balance = v.balance :=
  balance_congr quiet.used (fun m _ => quiet.length m) quiet.diskused

theorem Quiet.pays {code : Int} (quiet : Quiet v v') : Pays v (v', code) := ⟨quiet.balance, fun _ => quiet.refused⟩

theorem Pays.trans (first : Quiet v v') (second : Pays v' r) : Pays v r :=
  ⟨second.balance.trans first.balance, fun success => (second.refused success).trans first.refused⟩

theorem Pays.andThen (first : Pays v r) (second : r.2 = 0 → Pays r.1 (next r.1)) : Pays v (andThen r next) := by
  unfold Viced.andThen
  split
  · rename_i success
    exact ⟨(second success).balance.trans first.balance,
      fun success' => ((second success).refused success').trans (first.refused success)⟩
  · exact first

theorem Pays.inDirectory {check : Int} {next : Volume × Int} (rest : dir.vnode ∈ v.used → Pays v next) :
    Pays v (v.inDirectory dir check next) := by
  unfold Volume.inDirectory
  split
  · exact (Quiet.refl v).pays
  · rename_i passed
    exact rest (getVolumePackage_dir (not_not.mp passed)).1.1

theorem copyOnWrite_quiet (v : Volume) (n : Nat) (copy : CopyFate) : Quiet v (v.copyOnWrite n copy).1 := by
  refine (copyOnWrite_same v n copy).quiet ?_ ?_ <;>
  · unfold copyOnWrite
    cases copy <;> dsimp only <;> repeat' split
    all_goals rfl

theorem copyIfCloned_quiet (v : Volume) (n : Nat) (fate : CallFate) : Quiet v (v.copyIfCloned n fate).1 := by
  unfold copyIfCloned
  split
  · exact copyOnWrite_quiet v n _
  · exact Quiet.refl v

theorem refunded (x : BitVec 32) (blocks : Int) : x + BitVec.ofInt 32 blocks + BitVec.ofInt 32 (-blocks) = x := by
  rw [BitVec.ofInt_neg]
  ring

theorem adjustDiskUsage_refunds {length checkLength : Int} (fails : (v.adjustDiskUsage length checkLength).2 ≠ 0) :
    Pays v (v.adjustDiskUsage length checkLength) := by
  refine ⟨?_, fun success => absurd success fails⟩
  have same := adjustDiskUsage_same v length checkLength
  refine balance_congr same.used (fun m _ => same.length m) ?_
  unfold adjustDiskUsage at fails ⊢
  dsimp only at fails ⊢
  split
  · exact refunded v.diskused length
  · rename_i success
    rw [if_neg success] at fails
    exact absurd rfl fails

theorem balance_length (inUse : n ∈ v.used) (used : w.used = v.used)
    (others : ∀ m, m ≠ n → (w.vnode m).length = (v.vnode m).length)
    (charged : w.diskused = v.diskused + BitVec.ofInt 32 (nBlocks (w.vnode n).length - nBlocks (v.vnode n).length)) :
    w.balance = v.balance := by
  refine balance_eq charged ?_
  have set := totalBlocks_setVnode inUse { v.vnode n with length := (w.vnode n).length }
  rw [← set]
  refine totalBlocks_congr used fun m _ => ?_
  rw [setVnode_vnode]
  split
  · rename_i here
    rw [here]
  · rename_i other
    exact others m other

theorem updateParentVnodeStatus_pays (inUse : d ∈ v.used) (linkCount : Int) (fate : CallFate) :
    Pays v (v.updateParentVnodeStatus d linkCount fate, 0) := by
  refine ⟨balance_length inUse (updateParentVnodeStatus_used v d linkCount fate) ?_ ?_, fun _ => ?_⟩
  · intro m other
    rw [updateParentVnodeStatus_vnode, if_neg other]
  · rw [updateParentVnodeStatus_vnode, if_pos rfl]
    unfold updateParentVnodeStatus
    dsimp only
    split
    · rfl
    · rename_i zero
      rw [not_not.mp zero]
      simp [setVnode]
  · show Volume.refused _ = _
    unfold updateParentVnodeStatus
    dsimp only
    split <;> rfl

theorem balance_freed (inUse : n ∈ v.used) (used : w.used = v.used.erase n)
    (length : ∀ m, (w.vnode m).length = (v.vnode m).length)
    (charged : w.diskused = v.diskused + BitVec.ofInt 32 (-nBlocks (v.vnode n).length)) : w.balance = v.balance := by
  refine balance_eq charged ?_
  rw [← Int.sub_eq_add_neg, ← totalBlocks_freeVnode inUse]
  exact totalBlocks_congr used fun m _ => length m

theorem vAdjustDiskUsage_passed {checkBlocks : Int} (passed : (v.vAdjustDiskUsage blocks checkBlocks).2 = 0) :
    (v.vAdjustDiskUsage blocks checkBlocks).1.refused = v.refused := by
  have code : v.usageCode blocks checkBlocks = 0 := passed
  simp [vAdjustDiskUsage, addUsage, code]

theorem deleteEntry_quiet (v : Volume) (d : Nat) (name : Name) : Quiet v (v.deleteEntry d name) := setVnode_quiet rfl

theorem setLinkCount_quiet (v : Volume) (n : Nat) (linkCount : Int) : Quiet v (v.setLinkCount n linkCount) :=
  setVnode_quiet rfl

theorem unlinkTarget_pays {mustBeDir : Bool} (inUse : n ∈ v.used) : Pays v (v.unlinkTarget d name n mustBeDir fate) := by
  unfold unlinkTarget
  have counted : Quiet v (if mustBeDir then v else v.setLinkCount n ((v.vnode n).linkCount - 1)) := by
    split
    · exact Quiet.refl v
    · exact setLinkCount_quiet v n _
  generalize (if mustBeDir then v else v.setLinkCount n ((v.vnode n).linkCount - 1)) = w at counted
  rw [← counted.used] at inUse
  refine Pays.trans counted ?_
  dsimp only
  split
  · split
    · exact Quiet.pays ⟨rfl, fun _ => rfl, rfl, rfl⟩
    have length (m : Nat) : ((((((w.decInode (w.vnode n).inode).setVnode n { w.vnode n with inode := 0 }).vAdjustDiskUsage
        (-(nBlocks (w.vnode n).length).bmod (2 ^ 32)) 0).1.deleteEntry d name).freeVnode n).vnode m).length =
        (w.vnode m).length := by
      simp only [deleteEntry, setVnode_vnode, vAdjustDiskUsage_vnode, decInode_vnode, freeVnode_vnode]
      grind
    refine ⟨balance_freed inUse rfl length ?_, fun success => ?_⟩
    · show w.diskused + BitVec.ofInt 32 (-(nBlocks (w.vnode n).length).bmod (2 ^ 32)) = _
      rw [BitVec.ofInt_neg, BitVec.ofInt_neg]
      congr 2
      exact BitVec.eq_of_toInt_eq (by rw [BitVec.toInt_ofInt, BitVec.toInt_ofInt, Int.bmod_bmod])
    · exact vAdjustDiskUsage_passed success
  · exact (deleteEntry_quiet w d name).pays

theorem deleteTarget_pays (mustBeDir : Bool) : Pays v (v.deleteTarget d name mustBeDir fate) := by
  unfold deleteTarget
  split
  · exact (Quiet.refl v).pays
  have copied := copyIfCloned_quiet v d fate
  refine Pays.andThen copied.pays fun _ => ?_
  generalize (v.copyIfCloned d fate).1 = w
  cases w.lookup d name with
  | none => exact (Quiet.refl w).pays
  | some fid =>
    dsimp only
    split
    · exact (Quiet.refl w).pays
    by_cases unused : fid.vnode ∉ w.used
    · rw [if_pos unused]
      exact (Quiet.refl w).pays
    rw [if_neg unused]
    split
    · exact (Quiet.refl w).pays
    split
    · exact (Quiet.refl w).pays
    split
    · exact Quiet.pays ⟨rfl, fun _ => rfl, rfl, rfl⟩
    split
    · exact (Quiet.refl w).pays
    · exact unlinkTarget_pays (not_not.mp unused)

theorem deleteTarget_used {mustBeDir : Bool} (isDir : v.tree.IsDir d) : d ∈ (v.deleteTarget d name mustBeDir fate).1.used := by
  rcases @deleteTarget_cases v _ name fate isDir mustBeDir with fails | ⟨v', fid, same, -, apart, -, -, eq⟩
  · rw [fails.1.used]
    exact isDir.1
  have inUse : d ∈ v'.used := by rw [same.used]; exact isDir.1
  have counted : (if mustBeDir then v' else v'.setLinkCount fid.vnode ((v'.vnode fid.vnode).linkCount - 1)).used =
      v'.used := by split <;> rfl
  rw [eq]
  unfold unlinkTarget
  generalize (if mustBeDir then v' else v'.setLinkCount fid.vnode ((v'.vnode fid.vnode).linkCount - 1)) = w at counted
  rw [← counted] at inUse
  dsimp only
  split
  · split
    · exact inUse
    · exact Finset.mem_erase.mpr ⟨apart.symm, inUse⟩
  · exact inUse

theorem remove_pays (dir : Fid) (name : Name) (check : Int) (mustBeDir : Bool) (linkCount : Volume → Int) :
    Pays v (v.inDirectory dir check <| andThen (v.deleteTarget dir.vnode name mustBeDir fate) fun v =>
        (v.updateParentVnodeStatus dir.vnode (linkCount v) fate, 0)) := by
  unfold inDirectory
  split
  · exact (Quiet.refl v).pays
  rename_i passed
  have isDir := (getVolumePackage_dir (not_not.mp passed)).1
  refine Pays.andThen (deleteTarget_pays mustBeDir) fun _ => ?_
  exact updateParentVnodeStatus_pays (deleteTarget_used isDir) _ fate

theorem createEntry_quiet (v : Volume) (d : Nat) (name : Name) (fid : Fid) (code : Int) :
    Quiet v (v.createEntry d name fid code).1 := by
  unfold createEntry
  split
  · exact Quiet.refl v
  split
  · exact Quiet.refl v
  split
  · exact Quiet.refl v
  · exact setVnode_quiet rfl

@[simp] theorem tryDecInode_diskused (v : Volume) (i : Nat) (fate : CallFate) : (v.tryDecInode i fate).diskused = v.diskused := by
  unfold tryDecInode
  split <;> rfl

@[simp] theorem freeVnode_diskused (v : Volume) (n : Nat) : (v.freeVnode n).diskused = v.diskused := rfl

@[simp] theorem vAdjustDiskUsage_diskused (v : Volume) (blocks checkBlocks : Int) :
    (v.vAdjustDiskUsage blocks checkBlocks).1.diskused = v.diskused + BitVec.ofInt 32 blocks := rfl

theorem allocNewVnode_usage {type : VnodeType} {blocks : Int} : let r := v.allocNewVnode d name type blocks fate
    (r.2 ≠ 0 ∧ r.1.balance = v.balance) ∨
      (r.2 = 0 ∧ (r.1.vnode fate.vnode).length = 0 ∧ r.1.diskused = v.diskused + BitVec.ofInt 32 blocks ∧
        r.1.refused = v.refused) := by
  unfold allocNewVnode
  by_cases fits : v.usageCode blocks blocks = 0
  swap
  · have fails := mt (adjustDiskUsage_success v).mp fits
    rw [andThen, if_neg fails]
    exact .inl ⟨fails, (adjustDiskUsage_refunds fails).balance⟩
  rw [adjustDiskUsage_fits v fits, andThen, if_pos rfl]
  dsimp only
  by_cases code : (v.addUsage blocks).allocCode type fate ≠ 0
  · rw [if_pos code]
    exact .inl ⟨code, balance_congr rfl (fun _ _ => rfl) (refunded v.diskused blocks)⟩
  rw [if_neg code]
  have unused : fate.vnode ∉ v.used := by
    unfold allocCode at code
    split at code
    · rename_i failed
      exact absurd failed code
    split at code
    · rename_i fresh
      exact fresh.2.1
    · exact absurd (by decide : enospc ≠ 0) code
  generalize (if (v.addUsage blocks).NewInode fate.inode then fate.inode else 0) = inode
  have used : ((v.addUsage blocks).allocVnode type fate.vnode inode).used = insert fate.vnode v.used := rfl
  have length (m : Nat) : (((v.addUsage blocks).allocVnode type fate.vnode inode).vnode m).length =
      if m = fate.vnode then 0 else (v.vnode m).length := by
    refine (congrArg Vnode.length (setVnode_vnode (v.addUsage blocks) fate.vnode m _)).trans ?_
    split <;> rfl
  have charged : ((v.addUsage blocks).allocVnode type fate.vnode inode).diskused = v.diskused + BitVec.ofInt 32 blocks := rfl
  have passed : ((v.addUsage blocks).allocVnode type fate.vnode inode).refused = v.refused := rfl
  generalize (v.addUsage blocks).allocVnode type fate.vnode inode = v₁ at used length charged passed
  -- the vnode is given up, and what has been charged for it is given back
  have refund {w w' : Volume} (quiet : Quiet v₁ w) (freed : w'.used = w.used.erase fate.vnode) (kept : w'.vnode = w.vnode)
      (diskused : w'.diskused = w.diskused + BitVec.ofInt 32 (-blocks)) : w'.balance = v.balance := by
    refine balance_congr ?_ (fun m inUse => ?_) ?_
    · rw [freed, quiet.used, used, Finset.erase_insert unused]
    · have other : m ≠ fate.vnode := by rintro rfl; exact unused inUse
      rw [kept, quiet.length, length, if_neg other]
    · rw [diskused, quiet.diskused, charged, refunded]
  by_cases none : inode = 0
  · rw [if_pos none]
    exact .inl ⟨(by decide : enospc ≠ 0), refund (Quiet.refl v₁) rfl rfl rfl⟩
  rw [if_neg none]
  have copied := copyIfCloned_quiet v₁ d fate
  by_cases copies : (v₁.copyIfCloned d fate).2 = 0
  swap
  · rw [andThen, if_neg copies, if_pos copies]
    exact .inl ⟨copies, refund copied (by simp) (by simp) (by simp)⟩
  rw [andThen, if_pos copies]
  generalize (v₁.copyIfCloned d fate).1 = w at copied
  by_cases created : (w.createEntry d name ⟨fate.vnode, (w.vnode fate.vnode).unique⟩ fate.createCode).2 = 0
  swap
  · rw [if_pos created, createEntry_same created]
    exact .inl ⟨created, refund copied (by simp) (by simp) (by simp)⟩
  rw [if_neg (not_not_intro created)]
  have quiet := copied.trans (createEntry_quiet w d name ⟨fate.vnode, (w.vnode fate.vnode).unique⟩ fate.createCode)
  refine .inr ⟨created, ?_, quiet.diskused.trans charged, quiet.refused.trans passed⟩
  rw [quiet.length, length, if_pos rfl]

theorem allocNewVnode_pays {type : VnodeType} (inUse : d ∈ v.used)
    (rest : ∀ w, Allocated v w d name type fate.vnode → (w.vnode fate.vnode).length = 0 →
      w.diskused = v.diskused + BitVec.ofInt 32 blocks → w.refused = v.refused → Pays v (next w)) :
    Pays v (andThen (v.allocNewVnode d name type blocks fate) next) := by
  rcases @allocNewVnode_usage v d name fate type blocks with ⟨fails, balance⟩ | ⟨success, empty, charged, refused⟩
  · rw [andThen, if_neg fails]
    exact ⟨balance, fun success => absurd success fails⟩
  rw [andThen, if_pos success]
  rcases @allocNewVnode_cases v _ name fate type blocks inUse with ⟨fails, -⟩ | ⟨-, alloc⟩
  · exact absurd success fails
  · exact rest _ alloc empty charged refused

theorem setVnode_setVnode (v : Volume) (n : Nat) (vn vn' : Vnode) : (v.setVnode n vn).setVnode n vn' = v.setVnode n vn' := by
  unfold setVnode
  rw [Function.update_idem]

theorem status_pays {type : VnodeType} {vn : Vnode} (inUse : d ∈ v.used)
    (alloc : Allocated v w d name type n) (empty : (w.vnode n).length = 0)
    (charged : w.diskused = v.diskused + BitVec.ofInt 32 blocks) (refused : w.refused = v.refused) (linkCount : Int)
    (size : nBlocks vn.length = blocks) : Pays v ((w.updateParentVnodeStatus d linkCount fate).setVnode n vn, 0) := by
  have apart : n ≠ d := by rintro rfl; exact alloc.fresh.2.1 inUse
  have inUse' : d ∈ w.used := by rw [alloc.used]; exact Finset.mem_insert_of_mem inUse
  have parent := updateParentVnodeStatus_pays inUse' linkCount fate
  refine ⟨?_, fun success => (parent.refused success).trans refused⟩
  have insert : w.totalBlocks = v.totalBlocks + nBlocks 0 := by
    unfold totalBlocks
    rw [alloc.used, Finset.sum_insert alloc.fresh.2.1, empty, Int.add_comm]
    congr 1
    refine Finset.sum_congr rfl fun m inUse => ?_
    rw [alloc.length m (by rintro rfl; exact alloc.fresh.2.1 inUse)]
  have set := totalBlocks_setVnode (v := w.updateParentVnodeStatus d linkCount fate) (n := n)
    (by rw [updateParentVnodeStatus_used, alloc.used]; exact Finset.mem_insert_self _ _) vn
  rw [updateParentVnodeStatus_vnode, if_neg apart, empty, size] at set
  have before := parent.balance
  unfold balance at before ⊢
  have kept : ((w.updateParentVnodeStatus d linkCount fate).setVnode n vn).diskused =
      (w.updateParentVnodeStatus d linkCount fate).diskused := rfl
  rw [charged, insert] at before
  rw [set, kept]
  simp only [BitVec.ofInt_add, ofInt_sub] at before ⊢
  linear_combination before

theorem createFile_pays : Pays v (v.createFile dir name fate) := by
  unfold createFile
  split
  · exact (Quiet.refl v).pays
  refine Pays.inDirectory fun inUse => ?_
  exact allocNewVnode_pays inUse fun w alloc empty charged refused =>
    status_pays inUse alloc empty charged refused _ rfl

theorem symlink_pays {contents : List UInt8} : Pays v (v.symlink dir name contents fate) := by
  unfold symlink
  split
  · exact (Quiet.refl v).pays
  refine Pays.inDirectory fun inUse => allocNewVnode_pays inUse fun w alloc empty charged refused => ?_
  have status : Pays v ((w.updateParentVnodeStatus dir.vnode (w.vnode dir.vnode).linkCount fate).updateTargetVnodeStatus
      fate.vnode dir.vnode 1 contents.length, 0) := status_pays inUse alloc empty charged refused _ rfl
  split
  · exact ⟨status.balance, fun success => absurd success (by decide : eio ≠ 0)⟩
  · split
    · exact ⟨status.balance, fun _ => status.refused rfl⟩
    · exact ⟨status.balance, fun success => absurd success (by decide : vdiskfull ≠ 0)⟩

theorem makeDir_pays : Pays v (v.makeDir dir name fate) := by
  unfold makeDir
  split
  · exact (Quiet.refl v).pays
  refine Pays.inDirectory fun inUse => allocNewVnode_pays inUse fun w alloc empty charged refused => ?_
  unfold updateTargetVnodeStatus
  dsimp only
  rw [setVnode_setVnode]
  have size : nBlocks 2048 = emptyDirBlocks := by decide
  exact status_pays inUse alloc empty charged refused _ size

theorem link_pays {existing : Fid} : Pays v (v.link dir name existing fate) := by
  unfold link
  split
  · exact (Quiet.refl v).pays
  refine Pays.inDirectory fun inUse => ?_
  split
  · exact (Quiet.refl v).pays
  split
  · exact (Quiet.refl v).pays
  split
  · exact (Quiet.refl v).pays
  split
  · exact (Quiet.refl v).pays
  have copied := copyIfCloned_quiet v dir.vnode fate
  refine Pays.andThen copied.pays fun _ => ?_
  rw [← copied.used] at inUse
  generalize (v.copyIfCloned dir.vnode fate).1 = w at inUse
  have created := createEntry_quiet w dir.vnode name existing fate.createCode
  refine Pays.andThen created.pays fun _ => ?_
  rw [← created.used] at inUse
  generalize (w.createEntry dir.vnode name existing fate.createCode).1 = w' at inUse
  have parent := updateParentVnodeStatus_pays inUse (w'.vnode dir.vnode).linkCount fate
  have counted := setLinkCount_quiet (w'.updateParentVnodeStatus dir.vnode (w'.vnode dir.vnode).linkCount fate) existing.vnode
    (((w'.updateParentVnodeStatus dir.vnode (w'.vnode dir.vnode).linkCount fate).vnode existing.vnode).linkCount + 1)
  exact ⟨counted.balance.trans parent.balance, fun _ => counted.refused.trans (parent.refused rfl)⟩

theorem replaceTarget_balance {new : Nat} (inUse : n ∈ v.used) : (v.replaceTarget new name n).balance = v.balance := by
  have counted := (deleteEntry_quiet v new name).trans
    (setLinkCount_quiet (v.deleteEntry new name) n (((v.deleteEntry new name).vnode n).linkCount - 1))
  unfold replaceTarget
  dsimp only
  generalize (v.deleteEntry new name).setLinkCount n (((v.deleteEntry new name).vnode n).linkCount - 1) = w at counted
  rw [← counted.used] at inUse
  split
  · refine Eq.trans (balance_freed inUse rfl (fun m => ?_) rfl) counted.balance
    simp only [setVnode_vnode, vAdjustDiskUsage_vnode, decInode_vnode, freeVnode_vnode]
    grind
  · exact counted.balance

theorem replaceTarget_refused {new : Nat} (short : (v.vnode n).length < 2 ^ 63 - 1023) :
    (v.replaceTarget new name n).refused = v.refused := by
  have counted := (deleteEntry_quiet v new name).trans
    (setLinkCount_quiet (v.deleteEntry new name) n (((v.deleteEntry new name).vnode n).linkCount - 1))
  unfold replaceTarget
  dsimp only
  generalize (v.deleteEntry new name).setLinkCount n (((v.deleteEntry new name).vnode n).linkCount - 1) = w at counted
  rw [← counted.length] at short
  split
  · have blocks : -nBlocks (w.vnode n).length ≤ 0 := by
      unfold nBlocks
      split
      · decide
      · rw [Int.bmod_eq_of_le (by omega) (by omega), Int.tdiv_eq_ediv_of_nonneg (by omega)]
        omega
    exact (vAdjustDiskUsage_passed (usageCode_nonpos blocks)).trans counted.refused
  · exact counted.refused

theorem setParent_quiet {old : Nat} : Quiet v (v.setParent old newDir fid) := by
  refine ⟨setParent_used, fun m => setParent_length m, ?_, ?_⟩ <;>
  · unfold setParent
    dsimp only
    split
    · split <;> rfl
    · rfl

theorem moveEntry_pays {old : Nat} {oldName newName : Name} (oldInUse : old ∈ v.used)
    (newInUse : newDir.vnode ∈ v.used) : Pays v (v.moveEntry old oldName newDir newName fid fate) := by
  unfold moveEntry
  have created := createEntry_quiet v newDir.vnode newName fid fate.createCode
  refine Pays.andThen created.pays fun _ => ?_
  rw [← created.used] at oldInUse newInUse
  generalize (v.createEntry newDir.vnode newName fid fate.createCode).1 = w at oldInUse newInUse
  have deleted := deleteEntry_quiet w old oldName
  dsimp only
  rw [← deleted.used] at oldInUse newInUse
  refine Pays.trans deleted ?_
  generalize w.deleteEntry old oldName = w at oldInUse newInUse
  have first := updateParentVnodeStatus_pays oldInUse (w.vnode old).linkCount fate
  rw [← updateParentVnodeStatus_used w old (w.vnode old).linkCount fate] at newInUse
  generalize w.updateParentVnodeStatus old (w.vnode old).linkCount fate = w₁ at first newInUse
  have second := updateParentVnodeStatus_pays newInUse (w₁.vnode newDir.vnode).linkCount fate
  generalize w₁.updateParentVnodeStatus newDir.vnode (w₁.vnode newDir.vnode).linkCount fate = w₂ at second
  have last : Quiet w₂ (w₂.setParent old newDir fid) := setParent_quiet
  exact ⟨last.balance.trans (second.balance.trans first.balance),
    fun _ => last.refused.trans ((second.refused rfl).trans (first.refused rfl))⟩

def ReplacesHuge (v : Volume) (fate : CallFate) : Call → Prop
  | .rename oldDir oldName newDir newName => ∃ w file fid,
      v.renamePrepare oldDir oldName newDir newName fate = .ok (w, file, some fid) ∧ 2 ^ 63 - 1023 ≤ (w.vnode fid.vnode).length
  | _ => False

theorem rename_usage {oldDir : Fid} {oldName newName : Name} : let r := v.rename oldDir oldName newDir newName fate
    r.1.balance = v.balance ∧
      (¬ v.ReplacesHuge fate (.rename oldDir oldName newDir newName) → r.2 = 0 → r.1.refused = v.refused) := by
  unfold rename
  have kept := @renamePrepare_kept v fate (fun w => w.balance = v.balance ∧ w.refused = v.refused) oldDir newDir oldName newName
    ⟨rfl, rfl⟩ (fun w n same => ⟨(copyIfCloned_quiet w n fate).balance.trans same.1,
      (copyIfCloned_quiet w n fate).refused.trans same.2⟩) (fun w same => same)
  cases prepares : v.renamePrepare oldDir oldName newDir newName fate with
  | error r => exact ⟨(kept.1 r prepares).1, fun _ _ => (kept.1 r prepares).2⟩
  | ok found =>
    obtain ⟨w, file, newFile⟩ := found
    have prepared := renamePrepare_ok prepares
    obtain ⟨balance, refused⟩ := kept.2 w _ prepares
    cases newFile with
    | none =>
      have moved : Pays w (w.moveEntry oldDir.vnode oldName newDir newName file fate) :=
        moveEntry_pays prepared.oldIsDir.1 prepared.newIsDir.1
      exact ⟨moved.balance.trans balance, fun _ success => (moved.refused success).trans refused⟩
    | some fid =>
      obtain ⟨-, inUse, notOld, notNew, -⟩ := prepared.target fid rfl
      have isDir {m : Nat} (other : m ≠ fid.vnode) (dir : w.tree.IsDir m) :
          (w.replaceTarget newDir.vnode newName fid.vnode).tree.IsDir m := (replaceTarget_isDir notNew other).mpr dir
      have moved : Pays (w.replaceTarget newDir.vnode newName fid.vnode)
          ((w.replaceTarget newDir.vnode newName fid.vnode).moveEntry oldDir.vnode oldName newDir newName file fate) :=
        moveEntry_pays (isDir notOld.symm prepared.oldIsDir).1 (isDir notNew.symm prepared.newIsDir).1
      refine ⟨moved.balance.trans ((replaceTarget_balance inUse).trans balance), fun small success => ?_⟩
      refine (moved.refused success).trans ((replaceTarget_refused ?_).trans refused)
      by_contra huge
      exact small ⟨w, file, fid, prepares, not_lt.mp huge⟩

theorem privateCopy_quiet {fate : StoreFate} : Quiet v (privateCopy v n fate).1 := by
  unfold privateCopy
  split
  · exact Quiet.refl v
  have checked : Quiet v ((v.setFree fate.freeBefore).diskUsage (nBlocks (v.vnode n).length)).1 := by
    unfold diskUsage
    split <;> exact ⟨rfl, fun _ => rfl, rfl, rfl⟩
  refine Quiet.andThen checked fun _ => Quiet.andThen (copyOnWrite_quiet _ n fate.copy) fun _ => ?_
  exact ⟨rfl, fun _ => rfl, rfl, rfl⟩

theorem finishStore_pays {o : Options} {req : StoreRequest} {fate : StoreFate} {length : Nat} (inUse : n ∈ v.used)
    (used : w.used = v.used) (vnode : w.vnode = v.vnode) (refused : w.refused = v.refused)
    (charged : w.diskused = v.diskused + BitVec.ofInt 32 (nBlocks length - nBlocks (v.vnode n).length)) :
    Pays v (finishStore o n req fate length w) := by
  unfold finishStore
  dsimp only
  generalize transfer o req fate (w.data (w.vnode n).inode) = done
  obtain ⟨file, errorCode⟩ := done
  split
  · refine ⟨balance_length inUse used (fun m other => ?_) ?_, fun _ => refused⟩
    · rw [setVnode_other _ other]
      exact congrArg (fun f => (f m).length) vnode
    · rw [setVnode_same]
      exact charged
  refine ⟨balance_length inUse used (fun m other => ?_) ?_, fun success => ?_⟩
  · rw [vAdjustDiskUsage_vnode, setVnode_other _ other]
    exact congrArg (fun f => (f m).length) vnode
  · rw [vAdjustDiskUsage_vnode, setVnode_same]
    show w.diskused + BitVec.ofInt 32 (nBlocks file.length - nBlocks length) = _
    rw [charged]
    simp only [ofInt_sub]
    ring
  · exact (vAdjustDiskUsage_passed success).trans refused

theorem commonStoreData64_pays {o : Options} {req : StoreRequest} {check : Int} {fate : StoreFate} :
    Pays v (commonStoreData64 v o n req check fate) := by
  unfold commonStoreData64
  split
  · exact (Quiet.refl v).pays
  by_cases unused : n ∉ v.used
  · rw [if_pos unused]
    exact (Quiet.refl v).pays
  rw [if_neg unused]
  split
  · exact (Quiet.refl v).pays
  unfold storeDataRXStyle
  split
  · exact (Quiet.refl v).pays
  split
  · exact (Quiet.refl v).pays
  split
  · exact Quiet.pays ⟨rfl, fun _ => rfl, rfl, rfl⟩
  have copied : Quiet v (privateCopy v n fate).1 := privateCopy_quiet
  refine Pays.andThen copied.pays fun _ => ?_
  have inUse : n ∈ (privateCopy v n fate).1.used := copied.used ▸ not_not.mp unused
  generalize (privateCopy v n fate).1 = w at inUse
  unfold storeData
  dsimp only
  by_cases fits : w.usageCode (nBlocks (newLength req (v.data (v.vnode n).inode).length) - nBlocks (w.vnode n).length)
      (nBlocks (newLength req (v.data (v.vnode n).inode).length) - nBlocks (w.vnode n).length - w.spareComp o) = 0
  · rw [adjustDiskUsage_fits w fits, andThen, if_pos rfl]
    exact finishStore_pays inUse rfl rfl rfl rfl
  · have fails := mt (adjustDiskUsage_success w).mp fits
    rw [andThen, if_neg fails]
    exact adjustDiskUsage_refunds fails

end Volume

/-- What clients ask of a volume, with what the disk and the network make of it. -/
inductive Request where
  | call (call : Call) (fate : CallFate)
  | store (n : Nat) (req : StoreRequest) (check : Int) (fate : StoreFate)

namespace Volume

def begin (v : Volume) : Volume := { v with refused := false, refusedGrowth := false }

def perform (v : Volume) (o : Options) : Request → Volume × Int
  | .call call fate => v.begin.call fate call
  | .store n req check fate => commonStoreData64 v.begin o n req check fate

def requests (o : Options) (v₀ : Volume) : Machine Volume Request where
  start v := v = v₀
  step v request := if v.online then some (v.perform o request).1 else none

/-- A rename that replaces a file whose number of blocks is negative ignores the check of giving it back. -/
def Huge (v : Volume) : Request → Prop
  | .call call fate => v.begin.ReplacesHuge fate call
  | .store .. => False

theorem perform_usage (v : Volume) (o : Options) (request : Request) : (v.perform o request).1.balance = v.balance ∧
      (¬ v.Huge request → (v.perform o request).2 = 0 → (v.perform o request).1.refused = false) := by
  have one {r : Volume × Int} (pays : Pays v.begin r) : r.1.balance = v.balance ∧ (¬ v.Huge request → r.2 = 0 → r.1.refused = false) :=
    ⟨pays.balance, fun _ => pays.refused⟩
  cases request with
  | store n req check fate => exact one commonStoreData64_pays
  | call call fate =>
    cases call with
    | createFile dir name => exact one createFile_pays
    | makeDir dir name => exact one makeDir_pays
    | symlink dir name contents => exact one symlink_pays
    | link dir name existing => exact one link_pays
    | removeFile dir name => exact one (remove_pays dir name fate.check false _)
    | removeDir dir name => exact one (remove_pays dir name fate.check true _)
    | rename oldDir oldName newDir newName => exact rename_usage

/-- Over a run, the disk usage changes as the blocks of the vnodes do, up to the size of its field. A request that
succeeds has passed the checks of its own usage. -/
theorem usage_exact {o : Options} {v₀ v : Volume} (reached : (requests o v₀).Reach v) :
    v.diskused.toInt = (v₀.diskused.toInt + (v.totalBlocks - v₀.totalBlocks)).bmod (2 ^ 32) ∧
      ∀ request, ¬ v.Huge request → (v.perform o request).2 = 0 → (v.perform o request).1.refused = false := by
  have step (v : Volume) (request : Request) (v' : Volume) (before : v.balance = v₀.balance) (_ : True)
      (taken : (requests o v₀).step v request = some v') : v'.balance = v₀.balance := by
    simp only [requests, Option.ite_none_right_eq_some] at taken
    obtain ⟨-, taken⟩ := taken
    cases taken
    exact (perform_usage v o request).1.trans before
  have balance : v.balance = v₀.balance := reached.invariant (fun v start => by rw [start]) step
  refine ⟨?_, fun request => (perform_usage v o request).2⟩
  have diskused : v.diskused = v₀.diskused + BitVec.ofInt 32 (v.totalBlocks - v₀.totalBlocks) := by
    unfold Volume.balance at balance
    rw [ofInt_sub]
    linear_combination balance
  rw [diskused, BitVec.toInt_add, BitVec.toInt_ofInt, Int.add_bmod_bmod]

def smallRoot : Volume where
  used := {1}
  vnode _ := { type := .directory, unique := 1, linkCount := 2, length := 2048, inode := 1,
               entries := [(Dir.dot, ⟨1, 1⟩), (Dir.dotdot, ⟨1, 1⟩)] }
  nextUnique := 2
  data _ := []
  links i := if i = 1 then 1 else 0
  diskused := 2
  maxquota := 3
  free := 100
  online := true

def growing : CallFate := { vnode := 2, inode := 2, dirPages := fun _ => 2 }

theorem usage_exact_smallRoot :
    (smallRoot.perform ⟨0, 0, 16384⟩ (.call (.createFile ⟨1, 1⟩ [97]) growing)).1.diskused.toInt = (5 : Int).bmod (2 ^ 32) := by
  have exact := (usage_exact (o := ⟨0, 0, 16384⟩) (.step (a := .call (.createFile ⟨1, 1⟩ [97]) growing) (.start rfl) trivial
    (show (requests ⟨0, 0, 16384⟩ smallRoot).step smallRoot _ = some _ from rfl))).1
  exact exact.trans (by decide)

def fullCounter : Volume :=
  { smallRoot with
    used := {1, 4}
    vnode := Function.update smallRoot.vnode 4 { type := .file, unique := 1, parent := 1, length := (2 ^ 31 - 3) * 1024 }
    diskused := 2 ^ 31 - 1
    maxquota := 0 }

/-- The counter of the blocks overflows; and a directory grows over the quota in a call that succeeds. -/
theorem usage_overflows_and_growth_unchecked : (¬ ∀ (v : Volume) (fate : CallFate) (call : Call), (v.call fate call).1.online →
      (v.call fate call).1.diskused.toInt - v.diskused.toInt = (v.call fate call).1.totalBlocks - v.totalBlocks) ∧
    ¬ ∀ (v : Volume) (fate : CallFate) (call : Call), v.refused = false → v.refusedGrowth = false →
      (v.call fate call).1.online → v.totalBlocks < (v.call fate call).1.totalBlocks → (v.call fate call).2 = 0 →
      (v.call fate call).1.refused = false ∧ (v.call fate call).1.refusedGrowth = false := by
  constructor
  · intro all
    exact absurd (all fullCounter growing (.createFile ⟨1, 1⟩ [97]) (by decide)) (by decide)
  · intro all
    exact absurd (all smallRoot growing (.createFile ⟨1, 1⟩ [97]) rfl rfl (by decide) (by decide) (by decide)) (by decide)

end Volume

end OpenAFS.Viced
