import OpenAFS.Lib.Machine
import OpenAFS.Viced.Calls

namespace OpenAFS.Viced

open OpenAFS.Dir (dot dotdot bigMaxPages)
open Lib
open OpenAFS.Viced.Tree (Dots retarget)

variable {v v' : Volume} {d n m : Nat} {name : Name} {fid dir : Fid} {fate : CallFate}

namespace Volume

def tree (v : Volume) : Tree := ⟨v.used, fun n => (v.vnode n).toNode⟩

def maxDirLength : Nat := 2048 * bigMaxPages

structure Good (v : Volume) : Prop where
  tree : v.tree.Consistent
  short : ∀ d, v.tree.IsDir d → (v.vnode d).length ≤ maxDirLength

structure Same (v v' : Volume) : Prop where
  used : v'.used = v.used
  node : ∀ m, (v'.vnode m).toNode = (v.vnode m).toNode
  length : ∀ m, (v'.vnode m).length = (v.vnode m).length

theorem Same.refl (v : Volume) : Same v v := ⟨rfl, fun _ => rfl, fun _ => rfl⟩

theorem Same.of_vnode (used : v'.used = v.used) (vnode : v'.vnode = v.vnode) : Same v v' :=
  ⟨used, fun m => by rw [vnode], fun m => by rw [vnode]⟩

variable {w : Volume} {code check : Int} {r : Volume × Int} {oldDir newDir file : Fid} {oldName newName : Name}
  {old : Nat}

theorem Same.trans (first : Same v v') (second : Same v' w) : Same v w :=
  ⟨second.used.trans first.used, fun m => (second.node m).trans (first.node m), fun m => (second.length m).trans (first.length m)⟩

theorem Same.tree (same : Same v v') : v'.tree = v.tree := by
  unfold Volume.tree
  rw [same.used]
  congr 1
  funext m
  exact same.node m

theorem Same.good (same : Same v v') (good : Good v) : Good v' :=
  { tree := by rw [same.tree]; exact good.tree
    short := fun d isDir => by
      rw [same.length]
      rw [same.tree] at isDir
      exact good.short d isDir }

theorem setVnode_vnode (v : Volume) (n m : Nat) (vn : Vnode) : (v.setVnode n vn).vnode m = if m = n then vn else v.vnode m :=
  Function.update_apply _ _ _ _

theorem setVnode_unseen {vn : Vnode} (node : vn.toNode = (v.vnode n).toNode) (length : vn.length = (v.vnode n).length) :
    Same v (v.setVnode n vn) :=
  { used := rfl
    node := fun m => by
      rw [setVnode_vnode]
      split
      · rename_i here
        rw [node, here]
      · rfl
    length := fun m => by
      rw [setVnode_vnode]
      split
      · rename_i here
        rw [length, here]
      · rfl }

theorem adjustDiskUsage_same (v : Volume) (length checkLength : Int) : Same v (v.adjustDiskUsage length checkLength).1 := by
  unfold adjustDiskUsage
  dsimp only
  split <;> exact .of_vnode rfl rfl

theorem copyOnWrite_same (v : Volume) (n : Nat) (copy : CopyFate) : Same v (v.copyOnWrite n copy).1 := by
  unfold copyOnWrite
  cases copy <;> dsimp only
  case noMemory => exact Same.refl v
  all_goals
    split
    · exact .of_vnode rfl rfl
  case openFails => exact .of_vnode rfl rfl
  case noInode => exact Same.refl v
  case full inode written removed =>
    split
    · exact Same.refl v
    · split <;> exact .of_vnode rfl rfl
  case broken => exact .of_vnode rfl rfl
  case copied inode present =>
    split
    · exact Same.refl v
    split
    · exact .of_vnode rfl rfl
    · have copied := @setVnode_unseen v n { v.vnode n with inode, cloned := false } rfl rfl
      exact ⟨copied.used, copied.node, copied.length⟩

theorem copyIfCloned_same (v : Volume) (n : Nat) (fate : CallFate) : Same v (v.copyIfCloned n fate).1 := by
  unfold copyIfCloned
  split
  · exact copyOnWrite_same v n _
  · exact Same.refl v

@[simp] theorem tree_used (v : Volume) : v.tree.used = v.used := rfl

@[simp] theorem tree_node (v : Volume) (n : Nat) : v.tree.node n = (v.vnode n).toNode := rfl

@[simp] theorem setVnode_used (v : Volume) (n : Nat) (vn : Vnode) : (v.setVnode n vn).used = v.used := rfl

@[simp] theorem decInode_vnode (v : Volume) (i : Nat) : (v.decInode i).vnode = v.vnode := rfl

@[simp] theorem decInode_used (v : Volume) (i : Nat) : (v.decInode i).used = v.used := rfl

@[simp] theorem tryDecInode_vnode (v : Volume) (i : Nat) (fate : CallFate) : (v.tryDecInode i fate).vnode = v.vnode := by
  unfold tryDecInode
  split <;> rfl

@[simp] theorem tryDecInode_used (v : Volume) (i : Nat) (fate : CallFate) : (v.tryDecInode i fate).used = v.used := by
  unfold tryDecInode
  split <;> rfl

@[simp] theorem addUsage_vnode (v : Volume) (blocks : Int) : (v.addUsage blocks).vnode = v.vnode := rfl

@[simp] theorem addUsage_used (v : Volume) (blocks : Int) : (v.addUsage blocks).used = v.used := rfl

@[simp] theorem vAdjustDiskUsage_vnode (v : Volume) (blocks checkBlocks : Int) :
    (v.vAdjustDiskUsage blocks checkBlocks).1.vnode = v.vnode := rfl

@[simp] theorem vAdjustDiskUsage_used (v : Volume) (blocks checkBlocks : Int) :
    (v.vAdjustDiskUsage blocks checkBlocks).1.used = v.used := rfl

@[simp] theorem freeVnode_vnode (v : Volume) (n : Nat) : (v.freeVnode n).vnode = v.vnode := rfl

@[simp] theorem freeVnode_used (v : Volume) (n : Nat) : (v.freeVnode n).used = v.used.erase n := rfl

theorem lookup_mem (found : v.lookup d name = some fid) : (name, fid) ∈ (v.vnode d).entries := by
  unfold lookup at found
  rw [Option.map_eq_some_iff] at found
  obtain ⟨e, found, same⟩ := found
  have key : e.1 = name := by simpa using List.find?_some found
  have inside := List.mem_of_find?_eq_some found
  rwa [← key, ← same]

theorem createEntry_success (success : (v.createEntry d name fid code).2 = 0) :
    name ∉ (v.vnode d).entries.map Prod.fst ∧ (v.createEntry d name fid code).1 =
        v.setVnode d { v.vnode d with entries := (v.vnode d).entries ++ [(name, fid)] } := by
  unfold createEntry at *
  obtain ⟨named, success⟩ := (check_success fun _ => (by decide : einval ≠ 0)).mp success
  obtain ⟨fresh, success⟩ := (check_success fun _ => (by decide : eexist ≠ 0)).mp success
  obtain ⟨works, -⟩ := (check_success id).mp success
  rw [if_neg named, if_neg fresh, if_neg works]
  exact ⟨fresh, rfl⟩

theorem createEntry_same (failure : (v.createEntry d name fid code).2 ≠ 0) : (v.createEntry d name fid code).1 = v := by
  unfold createEntry at *
  split
  · rfl
  split
  · rfl
  split
  · rfl
  · rename_i named fresh works
    rw [if_neg named, if_neg fresh, if_neg works] at failure
    exact absurd rfl failure

theorem getVolumePackage_dir (passed : v.getVolumePackage dir check = 0) :
    v.tree.IsDir dir.vnode ∧ (v.vnode dir.vnode).unique = dir.unique := by
  unfold getVolumePackage at passed
  split at passed
  · rename_i refused
    exact absurd passed refused
  rename_i accepted
  split at passed
  · exact absurd passed (by decide)
  rename_i isDir
  unfold checkVnode at accepted
  split at accepted
  · exact absurd (by decide : einval ≠ 0) accepted
  split at accepted
  · exact absurd (by decide : voffline ≠ 0) accepted
  split at accepted
  · exact absurd (by decide : vnovnode ≠ 0) accepted
  · rename_i known
    push Not at known
    exact ⟨⟨known.1, not_not.mp isDir⟩, known.2⟩

def Keeps (r : Volume × Int) : Prop := r.1.online → Good r.1

theorem Keeps.andThen {next : Volume → Volume × Int} (first : Keeps r)
    (second : r.2 = 0 → Keeps (next r.1)) : Keeps (Viced.andThen r next) := by
  unfold Viced.andThen
  split
  · rename_i success
    exact second success
  · exact first

theorem Same.keeps (same : Same v v') (good : Good v) : Keeps (v', code) := fun _ => same.good good

def Fails (v : Volume) (r : Volume × Int) : Prop := Same v r.1 ∧ r.2 ≠ 0

theorem Fails.keeps (fails : Fails v r) (good : Good v) : Keeps r := fun _ => fails.1.good good

theorem Keeps.inDirectory {next : Volume × Int} (good : Good v)
    (rest : v.getVolumePackage dir check = 0 → Keeps next) : Keeps (v.inDirectory dir check next) := by
  unfold Volume.inDirectory
  split
  · exact (Same.refl v).keeps good
  · rename_i passed
    exact rest (not_not.mp passed)

theorem updateParentVnodeStatus_vnode (v : Volume) (d : Nat) (linkCount : Int) (fate : CallFate) (m : Nat) :
    (v.updateParentVnodeStatus d linkCount fate).vnode m =
      if m = d then { v.vnode d with length := dirLength fate d, linkCount } else v.vnode m := by
  unfold updateParentVnodeStatus
  dsimp only
  split <;> exact setVnode_vnode ..

@[simp] theorem updateParentVnodeStatus_used (v : Volume) (d : Nat) (linkCount : Int) (fate : CallFate) :
    (v.updateParentVnodeStatus d linkCount fate).used = v.used := by
  unfold updateParentVnodeStatus
  dsimp only
  split <;> rfl

theorem updateParentVnodeStatus_online (v : Volume) (d : Nat) (linkCount : Int) (fate : CallFate) :
    (v.updateParentVnodeStatus d linkCount fate).online = v.online := by
  unfold updateParentVnodeStatus
  dsimp only
  split <;> rfl

theorem dirLength_le (fate : CallFate) (d : Nat) : dirLength fate d ≤ maxDirLength :=
  Nat.mul_le_mul_left _ (Nat.min_le_right _ _)

theorem Good.update (good : Good v) : Good (v.updateParentVnodeStatus d (v.vnode d).linkCount fate) := by
  have tree : (v.updateParentVnodeStatus d (v.vnode d).linkCount fate).tree = v.tree := by
    unfold Volume.tree
    rw [updateParentVnodeStatus_used]
    congr 1
    funext m
    rw [updateParentVnodeStatus_vnode]
    split
    · rename_i here
      rw [here]
    · rfl
  refine ⟨by rw [tree]; exact good.tree, fun m isDir => ?_⟩
  rw [tree] at isDir
  rw [updateParentVnodeStatus_vnode]
  split
  · exact dirLength_le fate d
  · exact good.short m isDir

theorem Good.short_of (good : Good v) (kept : ∀ m ∈ v'.used, (v'.vnode m).type = .directory → (v'.vnode m).length ≤ maxDirLength ∨
      m ∈ v.used ∧ (v'.vnode m).type = (v.vnode m).type ∧ (v'.vnode m).length = (v.vnode m).length)
    (m : Nat) (isDir : v'.tree.IsDir m) : (v'.vnode m).length ≤ maxDirLength := by
  rcases kept m isDir.1 isDir.2 with short | ⟨inUse, type, length⟩
  · exact short
  · rw [length]
    exact good.short m ⟨inUse, type.symm.trans isDir.2⟩

theorem unlinkTarget_file (good : Good v) (inside : (name, fid) ∈ v.tree.children d)
    (file : (v.vnode fid.vnode).type ≠ .directory) : Keeps (v.unlinkTarget d name fid.vnode false fate) := by
  have dir := (Tree.mem_children.mp inside).1
  have apart : fid.vnode ≠ d := by
    intro same
    exact file (by rw [same]; exact dir.2)
  unfold unlinkTarget
  simp only [Bool.false_eq_true, if_false, false_or]
  split
  · rename_i last
    split
    · intro online
      cases (online : false = true)
    intro online
    simp only [setLinkCount, setVnode_same] at last
    refine ⟨good.tree.remove_last inside apart ?_ ?_ ?_ ?_ ?_, ?_⟩
    · intro _
      simp only [tree_node]
      omega
    · exact fun isDir => absurd isDir file
    · rfl
    · intro m isN isD
      simp [deleteEntry, setLinkCount, setVnode_vnode, isN, isD]
    · simp [deleteEntry, setLinkCount, setVnode_vnode, apart.symm, file]
    · refine good.short_of fun m inUse _ => .inr ⟨(Finset.mem_erase.mp inUse).2, ?_⟩
      by_cases isD : m = d <;> by_cases isN : m = fid.vnode <;>
      simp [deleteEntry, setLinkCount, setVnode_vnode, isD, isN, apart, apart.symm]
  · rename_i more
    intro online
    simp only [setLinkCount, setVnode_same] at more
    refine ⟨good.tree.remove_link inside file ?_ ?_ ?_ ?_ ?_, ?_⟩
    · simp only [tree_node]
      omega
    · rfl
    · intro m isN isD
      simp [deleteEntry, setLinkCount, setVnode_vnode, isN, isD]
    · simp [deleteEntry, setLinkCount, setVnode_vnode, apart]
    · simp [deleteEntry, setLinkCount, setVnode_vnode, apart.symm]
    · refine good.short_of fun m inUse _ => .inr ⟨inUse, ?_⟩
      by_cases isD : m = d <;> by_cases isN : m = fid.vnode <;>
        simp [deleteEntry, setLinkCount, setVnode_vnode, isD, isN, apart, apart.symm]

theorem deleteTarget_cases (dir : v.tree.IsDir d) (mustBeDir : Bool) : Fails v (v.deleteTarget d name mustBeDir fate) ∨
    ∃ v' fid, Same v v' ∧ (name, fid) ∈ v'.tree.children d ∧ fid.vnode ≠ d ∧
      ((v'.vnode fid.vnode).type = .directory ↔ mustBeDir) ∧ (mustBeDir → v'.isEmpty fid.vnode) ∧
      v.deleteTarget d name mustBeDir fate = v'.unlinkTarget d name fid.vnode mustBeDir fate := by
  unfold deleteTarget
  by_cases dots : Dots name
  · rw [if_pos dots]
    exact .inl ⟨Same.refl v, (by decide : einval ≠ 0)⟩
  rw [if_neg dots]
  have same := copyIfCloned_same v d fate
  unfold andThen
  by_cases copied : (v.copyIfCloned d fate).2 = 0
  swap
  · rw [if_neg copied]
    exact .inl ⟨same, copied⟩
  rw [if_pos copied]
  generalize (v.copyIfCloned d fate).1 = v' at same
  dsimp only
  cases found : v'.lookup d name with
  | none => exact .inl ⟨same, (by decide : enoent ≠ 0)⟩
  | some fid =>
    dsimp only
    by_cases self : fid.vnode = d
    · rw [if_pos self]
      exact .inl ⟨same, (by decide : einval ≠ 0)⟩
    rw [if_neg self]
    by_cases unused : fid.vnode ∉ v'.used
    · rw [if_pos unused]
      exact .inl ⟨same, (by decide : vnovnode ≠ 0)⟩
    rw [if_neg unused]
    by_cases notDir : mustBeDir ∧ (v'.vnode fid.vnode).type ≠ .directory
    · rw [if_pos notDir]
      exact .inl ⟨same, (by decide : enotdir ≠ 0)⟩
    rw [if_neg notDir]
    by_cases isDir : ¬ mustBeDir ∧ (v'.vnode fid.vnode).type = .directory
    · rw [if_pos isDir]
      exact .inl ⟨same, (by decide : eisdir ≠ 0)⟩
    rw [if_neg isDir]
    by_cases mismatch : (v'.vnode fid.vnode).unique ≠ fid.unique
    · rw [if_pos mismatch]
      exact .inl ⟨same.trans (.of_vnode rfl rfl), (by decide : vsalvage ≠ 0)⟩
    rw [if_neg mismatch]
    by_cases full : mustBeDir ∧ ¬ v'.isEmpty fid.vnode
    · rw [if_pos full]
      exact .inl ⟨same, (by decide : eexist ≠ 0)⟩
    rw [if_neg full]
    refine .inr ⟨v', fid, same, ?_, self, ?_, ?_, rfl⟩
    · rw [Tree.mem_children, same.tree]
      refine ⟨dir, ?_, dots⟩
      rw [← same.tree]
      exact lookup_mem found
    · grind
    · grind

theorem removeFile_keeps (good : Good v) : Keeps (v.removeFile dir name fate) := by
  refine Keeps.inDirectory good fun passed => ?_
  have isDir := (getVolumePackage_dir passed).1
  rcases @deleteTarget_cases v _ name fate isDir false with fails | ⟨v', fid, same, inside, apart, type, -, eq⟩
  · exact (fails.keeps good).andThen fun success => absurd success fails.2
  rw [eq]
  have file : (v'.vnode fid.vnode).type ≠ .directory := by simp [type]
  have kept : Keeps (v'.unlinkTarget dir.vnode name fid.vnode false fate) := unlinkTarget_file (same.good good) inside file
  refine kept.andThen fun _ online => ?_
  rw [updateParentVnodeStatus_online] at online
  exact (kept online).update

theorem nBlocks_short {length : Nat} (short : length ≤ maxDirLength) : 0 ≤ nBlocks length ∧ nBlocks length < 2 ^ 31 := by
  unfold maxDirLength bigMaxPages at short
  unfold nBlocks
  split
  · decide
  have small : ((length + 1023 : Int)).bmod (2 ^ 64) = length + 1023 := by
    rw [Int.bmod_def]
    split <;> omega
  rw [small, Int.tdiv_eq_ediv_of_nonneg (by omega)]
  omega

theorem usageCode_nonpos {blocks checkBlocks : Int} (nonpos : blocks ≤ 0) : v.usageCode blocks checkBlocks = 0 :=
  if_neg (Int.not_lt.mpr nonpos)

theorem isEmpty_children (empty : v.isEmpty n) : v.tree.children n = [] := by
  unfold isEmpty at empty
  rw [List.all_eq_true] at empty
  unfold Tree.children
  split
  · rw [List.filter_eq_nil_iff]
    intro e inside
    have dots := of_decide_eq_true (empty e inside)
    simpa using dots
  · rfl

theorem removeDir_keeps (good : Good v) : Keeps (v.removeDir dir name fate) := by
  refine Keeps.inDirectory good fun passed => ?_
  have isDir := (getVolumePackage_dir passed).1
  rcases @deleteTarget_cases v _ name fate isDir true with fails | ⟨v', fid, same, inside, apart, type, empty, eq⟩
  · exact (fails.keeps good).andThen fun success => absurd success fails.2
  rw [eq]
  have good := same.good good
  have targetDir : (v'.vnode fid.vnode).type = .directory := by simp [type]
  have targetUsed : fid.vnode ∈ v'.used := (good.tree.child _ _ inside).1
  unfold unlinkTarget
  simp only [if_true, true_or]
  split
  · exact (show Keeps (v'.takeOffline, eio) from fun online => by cases (online : false = true)).andThen
      fun success => absurd success (by decide : eio ≠ 0)
  have blocks := nBlocks_short (good.short fid.vnode ⟨targetUsed, targetDir⟩)
  have code : (((v'.decInode (v'.vnode fid.vnode).inode).setVnode fid.vnode
      { v'.vnode fid.vnode with inode := 0 }).vAdjustDiskUsage
        (-(nBlocks (v'.vnode fid.vnode).length).bmod (2 ^ 32)) 0).2 = 0 := by
    refine usageCode_nonpos ?_
    rw [Int.bmod_def]
    split <;> omega
  rw [code]
  unfold andThen
  rw [if_pos rfl]
  intro online
  refine ⟨good.tree.remove_last inside apart ?_ ?_ ?_ ?_ ?_, ?_⟩
  · exact fun file => absurd targetDir file
  · exact fun _ => isEmpty_children (empty rfl)
  · rw [tree_used, updateParentVnodeStatus_used]
    rfl
  · intro m isN isD
    rw [tree_node, updateParentVnodeStatus_vnode, if_neg isD]
    simp [deleteEntry, setVnode_vnode, isN, isD]
  · rw [tree_node, updateParentVnodeStatus_vnode, if_pos rfl]
    simp [deleteEntry, setVnode_vnode, apart.symm, targetDir]
  · refine good.short_of fun m inUse _ => ?_
    rw [updateParentVnodeStatus_used] at inUse
    rw [updateParentVnodeStatus_vnode]
    by_cases isD : m = dir.vnode
    · rw [if_pos isD]
      exact .inl (dirLength_le fate _)
    · refine .inr ⟨(Finset.mem_erase.mp inUse).2, ?_⟩
      by_cases isN : m = fid.vnode <;> simp [deleteEntry, setVnode_vnode, isD, isN, apart]

structure Allocated (v v' : Volume) (d : Nat) (name : Name) (type : VnodeType) (n : Nat) : Prop where
  fresh : v.Fresh type n
  absent : name ∉ (v.vnode d).entries.map Prod.fst
  used : v'.used = insert n v.used
  atN : (v'.vnode n).toNode = { type, unique := (v'.vnode n).unique }
  atD : (v'.vnode d).toNode = { (v.vnode d).toNode with
    entries := (v.vnode d).entries ++ [(name, ⟨n, (v'.vnode n).unique⟩)] }
  others : ∀ m, m ≠ n → m ≠ d → (v'.vnode m).toNode = (v.vnode m).toNode
  length : ∀ m, m ≠ n → (v'.vnode m).length = (v.vnode m).length

structure Untouched (v v' : Volume) (n : Nat) : Prop where
  unused : n ∉ v.used
  nonzero : n ≠ 0
  used : v'.used = v.used
  node : ∀ m, m ≠ n → (v'.vnode m).toNode = (v.vnode m).toNode
  length : ∀ m, m ≠ n → (v'.vnode m).length = (v.vnode m).length

theorem Untouched.good (untouched : Untouched v v' n) (good : Good v) : Good v' := by
  refine ⟨good.tree.forget untouched.unused untouched.nonzero untouched.used untouched.node, ?_⟩
  refine good.short_of fun m inUse _ => .inr ?_
  rw [untouched.used] at inUse
  have other : m ≠ n := by rintro rfl; exact untouched.unused inUse
  exact ⟨inUse, congrArg Node.type (untouched.node m other), untouched.length m other⟩

variable {type : VnodeType}

theorem allocNewVnode_cases {blocks : Int} (inUse : d ∈ v.used) :
    let r := v.allocNewVnode d name type blocks fate
    (r.2 ≠ 0 ∧ (Same v r.1 ∨ Untouched v r.1 fate.vnode)) ∨ (r.2 = 0 ∧ Allocated v r.1 d name type fate.vnode) := by
  unfold allocNewVnode
  have charged := adjustDiskUsage_same v blocks blocks
  by_cases charges : (v.adjustDiskUsage blocks blocks).2 = 0
  swap
  · rw [andThen, if_neg charges]
    exact .inl ⟨charges, .inl charged⟩
  rw [andThen, if_pos charges]
  generalize (v.adjustDiskUsage blocks blocks).1 = v₁ at charged
  dsimp only
  by_cases code : v₁.allocCode type fate ≠ 0
  · rw [if_pos code]
    exact .inl ⟨code, .inl (charged.trans (.of_vnode rfl rfl))⟩
  rw [if_neg code]
  have fresh : v₁.Fresh type fate.vnode := by
    unfold allocCode at code
    split at code
    · rename_i failed
      exact absurd failed code
    · split at code
      · assumption
      · exact absurd (by decide : enospc ≠ 0) code
  unfold Fresh at fresh
  rw [charged.used] at fresh
  have apart : d ≠ fate.vnode := by
    intro same
    rw [same] at inUse
    exact fresh.2.1 inUse
  generalize (if v₁.NewInode fate.inode then fate.inode else 0) = inode
  have used : (v₁.allocVnode type fate.vnode inode).used = insert fate.vnode v.used := by rw [← charged.used]; rfl
  have vnode (m : Nat) : (v₁.allocVnode type fate.vnode inode).vnode m =
      if m = fate.vnode then { type, unique := v₁.nextUnique, inode } else v₁.vnode m := setVnode_vnode ..
  generalize v₁.allocVnode type fate.vnode inode = v₂ at used vnode
  have untouched {w w' : Volume} (same : Same v₂ w) (freed : w'.used = w.used.erase fate.vnode) (kept : w'.vnode = w.vnode) :
      Untouched v w' fate.vnode :=
    { unused := fresh.2.1
      nonzero := fresh.1
      used := by rw [freed, same.used, used, Finset.erase_insert fresh.2.1]
      node := fun m other => by rw [kept, same.node, vnode, if_neg other, charged.node]
      length := fun m other => by rw [kept, same.length, vnode, if_neg other, charged.length] }
  by_cases none : inode = 0
  · rw [if_pos none]
    exact .inl ⟨(by decide : enospc ≠ 0), .inr (untouched (Same.refl v₂) rfl rfl)⟩
  rw [if_neg none]
  have copied := copyIfCloned_same v₂ d fate
  by_cases copies : (v₂.copyIfCloned d fate).2 = 0
  swap
  · rw [andThen, if_neg copies, if_pos copies]
    exact .inl ⟨copies, .inr (untouched copied (by simp) (by simp))⟩
  rw [andThen, if_pos copies]
  generalize (v₂.copyIfCloned d fate).1 = v₃ at copied
  by_cases created : (v₃.createEntry d name ⟨fate.vnode, (v₃.vnode fate.vnode).unique⟩ fate.createCode).2 = 0
  swap
  · rw [if_pos created]
    refine .inl ⟨created, .inr (untouched copied ?_ ?_)⟩
    · rw [createEntry_same created]
      simp
    · rw [createEntry_same created]
      simp
  rw [if_neg (not_not_intro created)]
  refine .inr ⟨created, ?_⟩
  obtain ⟨absent, after⟩ := createEntry_success created
  rw [after]
  have nodeD : (v₃.vnode d).toNode = (v.vnode d).toNode := by rw [copied.node, vnode, if_neg apart, charged.node]
  have nodeN : (v₃.vnode fate.vnode).toNode = { type, unique := v₁.nextUnique } := by rw [copied.node, vnode, if_pos rfl]
  rw [congrArg Node.entries nodeD] at absent
  exact
    { fresh
      absent
      used := copied.used.trans used
      atN := by
        rw [setVnode_vnode, if_neg apart.symm, nodeN]
      atD := by
        rw [setVnode_same, setVnode_vnode, if_neg apart.symm]
        dsimp only
        rw [nodeD]
      others := fun m isN isD => by rw [setVnode_vnode, if_neg isD, copied.node, vnode, if_neg isN, charged.node]
      length := fun m isN => by
        rw [setVnode_vnode]
        split
        · rename_i isD
          rw [isD]
          exact (copied.length d).trans (by rw [vnode, if_neg apart, charged.length])
        · rw [copied.length, vnode, if_neg isN, charged.length] }

theorem Allocated.good (unique : Nat) (alloc : Allocated v w d name type n) (good : Good v)
    (isDir : v.tree.IsDir d) (used : v'.used = w.used)
    (others : ∀ m, m ≠ n → m ≠ d → (v'.vnode m).toNode = (w.vnode m).toNode ∧ (v'.vnode m).length = (w.vnode m).length)
    (atN : (v'.vnode n).toNode = { (w.vnode n).toNode with
      parent := d
      linkCount := if type = .directory then 2 else 1
      entries := if type = .directory then [(dot, ⟨n, (w.vnode n).unique⟩), (dotdot, ⟨d, unique⟩)] else [] })
    (atD : (v'.vnode d).toNode = { (w.vnode d).toNode with
      linkCount := (w.vnode d).linkCount + if type = .directory then 1 else 0 })
    (shortN : type = .directory → (v'.vnode n).length ≤ maxDirLength) (shortD : (v'.vnode d).length ≤ maxDirLength) :
    Good v' := by
  have typeN : (v'.tree.node n).type = type := by
    rw [tree_node, atN, alloc.atN]
  have uniqueN : (v'.tree.node n).unique = (w.vnode n).unique := by
    rw [tree_node, atN]
  refine ⟨good.tree.add alloc.fresh.2.1 alloc.fresh.1 isDir alloc.absent (used.trans alloc.used) ?_ ?_ ?_ ?_ ?_, ?_⟩
  · exact fun m isN isD => (others m isN isD).1.trans (alloc.others m isN isD)
  · rw [tree_node, atN]
  · rw [typeN, uniqueN, tree_node, atD, alloc.atD]
    rfl
  · rw [typeN, tree_node, atN]
    exact fun file => if_neg file
  · rw [typeN, tree_node, atN]
    intro directory
    exact ⟨if_pos directory, _, unique, if_pos directory⟩
  refine good.short_of fun m inUse directory => ?_
  by_cases isN : m = n
  · rw [isN] at directory ⊢
    exact .inl (shortN (typeN.symm.trans directory))
  by_cases isD : m = d
  · rw [isD]
    exact .inl shortD
  rw [used, alloc.used] at inUse
  have kept := others m isN isD
  exact .inr ⟨(Finset.mem_insert.mp inUse).resolve_left isN,
    congrArg Node.type (kept.1.trans (alloc.others m isN isD)), kept.2.trans (alloc.length m isN)⟩

theorem allocNewVnode_keeps {blocks : Int} {next : Volume → Volume × Int} (good : Good v)
    (inUse : d ∈ v.used) (rest : ∀ w, Allocated v w d name type fate.vnode → Keeps (next w)) :
    Keeps (andThen (v.allocNewVnode d name type blocks fate) next) := by
  rcases @allocNewVnode_cases v _ name fate type blocks inUse with
    ⟨fails, same⟩ | ⟨success, alloc⟩
  · refine Keeps.andThen (fun _ => ?_) fun success => absurd success fails
    rcases same with same | untouched
    · exact same.good good
    · exact untouched.good good
  · unfold andThen
    rw [if_pos success]
    exact rest _ alloc

theorem Allocated.linked (alloc : Allocated v w dir.vnode name type fate.vnode) (file : type ≠ .directory) (good : Good v)
    (isDir : v.tree.IsDir dir.vnode) (length : Nat) :
    Good ((w.updateParentVnodeStatus dir.vnode (w.vnode dir.vnode).linkCount fate).updateTargetVnodeStatus fate.vnode dir.vnode 1 length) := by
  have apart : dir.vnode ≠ fate.vnode := by
    intro same
    exact alloc.fresh.2.1 (same ▸ isDir.1)
  have empty : (w.vnode fate.vnode).entries = [] := congrArg Node.entries alloc.atN
  refine alloc.good 0 good isDir ?_ ?_ ?_ ?_ ?_ ?_
  · exact updateParentVnodeStatus_used w dir.vnode (w.vnode dir.vnode).linkCount fate
  · intro m isN isD
    simp [updateTargetVnodeStatus, setVnode_vnode, updateParentVnodeStatus_vnode, isN, isD]
  · simp [updateTargetVnodeStatus, updateParentVnodeStatus_vnode, apart.symm, empty, file]
  · simp [updateTargetVnodeStatus, setVnode_vnode, updateParentVnodeStatus_vnode, apart, file]
  · exact fun directory => absurd directory file
  · simp [updateTargetVnodeStatus, setVnode_vnode, updateParentVnodeStatus_vnode, apart, dirLength_le]

theorem createFile_keeps (good : Good v) : Keeps (v.createFile dir name fate) := by
  unfold createFile
  split
  · exact (Same.refl v).keeps good
  refine Keeps.inDirectory good fun passed => ?_
  have isDir := (getVolumePackage_dir passed).1
  exact allocNewVnode_keeps good isDir.1 fun w alloc _ => alloc.linked (by decide) good isDir 0

theorem symlink_keeps {contents : List UInt8} (good : Good v) : Keeps (v.symlink dir name contents fate) := by
  unfold symlink
  split
  · exact (Same.refl v).keeps good
  refine Keeps.inDirectory good fun passed => ?_
  have isDir := (getVolumePackage_dir passed).1
  refine allocNewVnode_keeps good isDir.1 fun w alloc => ?_
  have linked := alloc.linked (by decide) good isDir contents.length
  dsimp only
  generalize Volume.updateTargetVnodeStatus _ fate.vnode dir.vnode 1 contents.length = w' at linked
  split
  · have same : Same w' w'.takeOffline := .of_vnode rfl rfl
    exact fun _ => same.good linked
  split
  · have same : Same w' (w'.setData (w'.vnode fate.vnode).inode contents) := .of_vnode rfl rfl
    exact fun _ => same.good linked
  · exact fun _ => linked

theorem makeDir_keeps (good : Good v) : Keeps (v.makeDir dir name fate) := by
  unfold makeDir
  split
  · exact (Same.refl v).keeps good
  refine Keeps.inDirectory good fun passed => ?_
  have isDir := (getVolumePackage_dir passed).1
  refine allocNewVnode_keeps good isDir.1 fun w alloc _ => ?_
  have apart : dir.vnode ≠ fate.vnode := by
    intro same
    exact alloc.fresh.2.1 (same ▸ isDir.1)
  refine alloc.good dir.unique good isDir ?_ ?_ ?_ ?_ ?_ ?_
  · exact updateParentVnodeStatus_used w dir.vnode ((w.vnode dir.vnode).linkCount + 1) fate
  · intro m isN isD
    simp [updateTargetVnodeStatus, setVnode_vnode, updateParentVnodeStatus_vnode, isN, isD]
  · simp [updateTargetVnodeStatus, updateParentVnodeStatus_vnode, apart.symm]
  · simp [updateTargetVnodeStatus, setVnode_vnode, updateParentVnodeStatus_vnode, apart]
  · intro _
    simp [maxDirLength, bigMaxPages]
  · simp [updateTargetVnodeStatus, setVnode_vnode, updateParentVnodeStatus_vnode, apart, dirLength_le]

theorem checkVnode_known (known : v.checkVnode fid = 0) : fid.vnode ∈ v.used ∧ (v.vnode fid.vnode).unique = fid.unique := by
  unfold checkVnode at known
  split at known
  · exact absurd known (by decide)
  split at known
  · exact absurd known (by decide)
  split at known
  · exact absurd known (by decide)
  · rename_i both
    push Not at both
    exact both

theorem link_keeps {existing : Fid} (good : Good v) : Keeps (v.link dir name existing fate) := by
  unfold link
  split
  · exact (Same.refl v).keeps good
  refine Keeps.inDirectory good fun passed => ?_
  have isDir := (getVolumePackage_dir passed).1
  by_cases bothDirs : dir.vnode % 2 = 1 ∧ existing.vnode % 2 = 1 ∨ dir.vnode = existing.vnode
  · rw [if_pos bothDirs]
    exact (Same.refl v).keeps good
  rw [if_neg bothDirs]
  have apart : existing.vnode ≠ dir.vnode := fun same => bothDirs (.inr same.symm)
  by_cases unknown : v.checkVnode existing ≠ 0
  · rw [if_pos unknown]
    exact (Same.refl v).keeps good
  rw [if_neg unknown]
  obtain ⟨inUse, unique⟩ := checkVnode_known (not_not.mp unknown)
  by_cases notFile : (v.vnode existing.vnode).type ≠ .file
  · rw [if_pos notFile]
    exact (Same.refl v).keeps good
  rw [if_neg notFile]
  by_cases elsewhere : (v.vnode existing.vnode).parent ≠ dir.vnode
  · rw [if_pos elsewhere]
    exact (Same.refl v).keeps good
  rw [if_neg elsewhere]
  have same := copyIfCloned_same v dir.vnode fate
  refine Keeps.andThen (same.keeps good) fun _ => ?_
  generalize (v.copyIfCloned dir.vnode fate).1 = v₁ at same
  have good := same.good good
  rw [← same.tree] at isDir
  rw [← same.used] at inUse
  have type : (v₁.vnode existing.vnode).type = .file := (congrArg Node.type (same.node _)).trans (not_not.mp notFile)
  have parent : (v₁.vnode existing.vnode).parent = dir.vnode :=
    (congrArg Node.parent (same.node _)).trans (not_not.mp elsewhere)
  have unique : (v₁.vnode existing.vnode).unique = existing.unique := (congrArg Node.unique (same.node _)).trans unique
  by_cases created : (v₁.createEntry dir.vnode name existing fate.createCode).2 = 0
  swap
  · refine Keeps.andThen (fun _ => ?_) fun success => absurd success created
    rw [createEntry_same created]
    exact good
  obtain ⟨absent, after⟩ := createEntry_success created
  unfold andThen
  rw [if_pos created, after]
  intro online
  refine ⟨good.tree.add_link (n := existing.vnode) inUse ?_ parent isDir absent ?_ ?_ ?_ ?_, ?_⟩
  · simp [type]
  · simp [setLinkCount]
  · intro m isN isD
    simp [setLinkCount, setVnode_vnode, updateParentVnodeStatus_vnode, isN, isD]
  · simp [setLinkCount, setVnode_vnode, updateParentVnodeStatus_vnode, apart]
  · simp [setLinkCount, setVnode_vnode, updateParentVnodeStatus_vnode, apart.symm, unique]
  refine good.short_of fun m inUse _ => ?_
  by_cases isD : m = dir.vnode
  · exact .inl (by simp [setLinkCount, setVnode_vnode, updateParentVnodeStatus_vnode, isD, apart.symm, dirLength_le])
  · refine .inr ⟨by simpa [setLinkCount] using inUse, ?_⟩
    by_cases isN : m = existing.vnode <;>
      simp [setLinkCount, setVnode_vnode, updateParentVnodeStatus_vnode, isD, isN, apart]

theorem proceed_ok : proceed r = .ok w ↔ r.2 = 0 ∧ r.1 = w := by
  unfold proceed
  split
  · rename_i success
    simp [success]
  · rename_i failure
    simp [failure]

theorem proceed_error {r' : Volume × Int} : proceed r = .error r' ↔ r.2 ≠ 0 ∧ r = r' := by
  unfold proceed
  split
  · rename_i success
    simp [success]
  · rename_i failure
    simp [failure]

theorem renamePrepare_kept {P : Volume → Prop} {oldDir newDir : Fid} {oldName newName : Name} (start : P v)
    (copies : ∀ w n, P w → P (w.copyIfCloned n fate).1) (offline : ∀ w, P w → P w.takeOffline) :
    (∀ r, v.renamePrepare oldDir oldName newDir newName fate = .error r → P r.1) ∧
      ∀ w found, v.renamePrepare oldDir oldName newDir newName fate = .ok (w, found) → P w := by
  have first := copies v oldDir.vnode start
  have second := copies _ newDir.vnode first
  constructor
  · intro r refused
    rcases ensure_fails_or.mp refused with ⟨-, rfl⟩ | ⟨-, refused⟩
    · exact start
    rcases ensure_fails_or.mp refused with ⟨-, rfl⟩ | ⟨-, refused⟩
    · exact start
    rcases ensure_fails_or.mp refused with ⟨-, rfl⟩ | ⟨-, refused⟩
    · exact start
    rcases except_bind_eq_error.mp refused with failed | ⟨v₁, copied, refused⟩
    · obtain ⟨-, rfl⟩ := proceed_error.mp failed
      exact first
    obtain ⟨-, rfl⟩ := proceed_ok.mp copied
    rcases except_bind_eq_error.mp refused with failed | ⟨v₂, copied, refused⟩
    · obtain ⟨-, rfl⟩ := proceed_error.mp failed
      exact second
    obtain ⟨-, rfl⟩ := proceed_ok.mp copied
    generalize ((v.copyIfCloned oldDir.vnode fate).1.copyIfCloned newDir.vnode fate).1 = v₂ at second refused
    rcases except_bind_eq_error.mp refused with failed | ⟨⟨fileFid, newFileFid⟩, -, refused⟩
    · cases checks : v₂.renameChecks oldDir.vnode newDir.vnode oldName newName fate.replaceCheck with
      | ok found => rw [checks] at failed; cases failed
      | error refusal =>
        rw [checks] at failed
        cases failed
        unfold refuse
        split
        · exact offline v₂ second
        · exact second
    rcases except_bind_eq_error.mp refused with failed | ⟨v₃, -, refused⟩
    · obtain ⟨-, rfl⟩ := proceed_error.mp failed
      split
      · exact copies v₂ fileFid.vnode second
      · exact second
    · cases refused
  · intro w found prepared
    obtain ⟨-, prepared⟩ := ensure_then.mp prepared
    obtain ⟨-, prepared⟩ := ensure_then.mp prepared
    obtain ⟨-, prepared⟩ := ensure_then.mp prepared
    obtain ⟨v₁, copied, prepared⟩ := except_bind_eq_ok.mp prepared
    obtain ⟨-, rfl⟩ := proceed_ok.mp copied
    obtain ⟨v₂, copied, prepared⟩ := except_bind_eq_ok.mp prepared
    obtain ⟨-, rfl⟩ := proceed_ok.mp copied
    generalize ((v.copyIfCloned oldDir.vnode fate).1.copyIfCloned newDir.vnode fate).1 = v₂ at second prepared
    obtain ⟨⟨fileFid, newFileFid⟩, -, prepared⟩ := except_bind_eq_ok.mp prepared
    obtain ⟨v₃, copied, done⟩ := except_bind_eq_ok.mp prepared
    obtain ⟨-, rfl⟩ := proceed_ok.mp copied
    cases done
    split
    · exact copies v₂ fileFid.vnode second
    · exact second

theorem renamePrepare_error (refused : v.renamePrepare oldDir oldName newDir newName fate = .error r) : Same v r.1 :=
  (renamePrepare_kept (Same.refl v) (fun w n same => same.trans (copyIfCloned_same w n fate))
    fun _ same => same.trans (.of_vnode rfl rfl)).1 r refused

structure Prepared (v w : Volume) (oldDir : Fid) (oldName : Name) (newDir : Fid) (newName : Name) (file : Fid)
    (newFile : Option Fid) : Prop where
  same : Same v w
  oldIsDir : w.tree.IsDir oldDir.vnode
  newIsDir : w.tree.IsDir newDir.vnode
  inside : (oldName, file) ∈ w.tree.children oldDir.vnode
  apart : file.vnode ≠ oldDir.vnode ∧ file.vnode ≠ newDir.vnode
  single : (w.vnode file.vnode).type = .directory ∨ oldDir.vnode = newDir.vnode ∨ (w.vnode file.vnode).linkCount = 1
  target : ∀ fid, newFile = some fid → (newName, fid) ∈ w.tree.children newDir.vnode ∧ fid.vnode ∈ w.used ∧
    fid.vnode ≠ oldDir.vnode ∧ fid.vnode ≠ newDir.vnode ∧ fid.vnode ≠ file.vnode

theorem renamePackages_dirs (passed : v.renamePackages oldDir newDir check = 0) :
    v.tree.IsDir oldDir.vnode ∧ v.tree.IsDir newDir.vnode := by
  unfold renamePackages at passed
  split at passed
  · rename_i one
    have isDir := (getVolumePackage_dir passed).1
    exact ⟨isDir, one ▸ isDir⟩
  split at passed
  rename_i first second order
  split at passed
  · rename_i refused
    exact absurd passed refused
  rename_i accepted
  have firstIs := (getVolumePackage_dir (not_not.mp accepted)).1
  have secondIs := (getVolumePackage_dir passed).1
  split at order <;> cases order
  · exact ⟨firstIs, secondIs⟩
  · exact ⟨secondIs, firstIs⟩

theorem renameLookup_ok {new : Nat} {replaceCheck : Int} {newFile : Option Fid}
    (found : v.renameLookup old new oldName newName replaceCheck = .ok (file, newFile)) :
    (oldName, file) ∈ (v.vnode old).entries ∧ (file.vnode ≠ old ∧ file.vnode ≠ new) ∧
      ((v.vnode file.vnode).type = .directory ∨ old = new ∨ (v.vnode file.vnode).linkCount = 1) ∧
      ∀ fid, newFile = some fid → (newName, fid) ∈ (v.vnode new).entries ∧ fid.vnode ∈ v.used ∧
        fid.vnode ≠ old ∧ fid.vnode ≠ new ∧ fid.vnode ≠ file.vnode := by
  unfold renameLookup at found
  cases oldFound : v.lookup old oldName with
  | none => rw [oldFound] at found; cases found
  | some fileFid =>
    rw [oldFound] at found
    obtain ⟨apart, found⟩ := ensure_then.mp found
    obtain ⟨-, found⟩ := ensure_then.mp found
    obtain ⟨-, found⟩ := ensure_then.mp found
    obtain ⟨single, found⟩ := ensure_then.mp found
    cases newFound : v.lookup new newName with
    | none =>
      rw [newFound] at found
      cases found
      exact ⟨lookup_mem oldFound, apart, single, fun fid some => by cases some⟩
    | some newFid =>
      rw [newFound] at found
      obtain ⟨-, found⟩ := ensure_then.mp found
      obtain ⟨others, found⟩ := ensure_then.mp found
      obtain ⟨inUse, found⟩ := ensure_then.mp found
      obtain ⟨-, found⟩ := ensure_then.mp found
      obtain ⟨-, found⟩ := ensure_then.mp found
      obtain ⟨-, found⟩ := ensure_then.mp found
      cases found
      refine ⟨lookup_mem oldFound, apart, single, fun fid some => ?_⟩
      cases some
      exact ⟨lookup_mem newFound, inUse, others⟩

theorem renamePrepare_ok {newFile : Option Fid}
    (prepared : v.renamePrepare oldDir oldName newDir newName fate = .ok (w, file, newFile)) :
    Prepared v w oldDir oldName newDir newName file newFile := by
  obtain ⟨-, prepared⟩ := ensure_then.mp prepared
  obtain ⟨plain, prepared⟩ := ensure_then.mp prepared
  obtain ⟨passed, prepared⟩ := ensure_then.mp prepared
  obtain ⟨v₁, copied, prepared⟩ := except_bind_eq_ok.mp prepared
  obtain ⟨-, rfl⟩ := proceed_ok.mp copied
  obtain ⟨v₂, copied, prepared⟩ := except_bind_eq_ok.mp prepared
  obtain ⟨-, rfl⟩ := proceed_ok.mp copied
  have same := (copyIfCloned_same v oldDir.vnode fate).trans
    (copyIfCloned_same (v.copyIfCloned oldDir.vnode fate).1 newDir.vnode fate)
  generalize ((v.copyIfCloned oldDir.vnode fate).1.copyIfCloned newDir.vnode fate).1 = v₂ at same prepared
  obtain ⟨⟨fileFid, newFileFid⟩, checked, prepared⟩ := except_bind_eq_ok.mp prepared
  obtain ⟨v₃, copied, done⟩ := except_bind_eq_ok.mp prepared
  cases done
  obtain ⟨-, rfl⟩ := proceed_ok.mp copied
  cases checks : v₂.renameChecks oldDir.vnode newDir.vnode oldName newName fate.replaceCheck with
  | error refusal => rw [checks] at checked; cases checked
  | ok found =>
    rw [checks] at checked
    cases checked
    obtain ⟨found', looked, walked⟩ := except_bind_eq_ok.mp checks
    obtain ⟨-, -, same'⟩ := except_bind_eq_ok.mp walked
    cases same'
    obtain ⟨inside, apart, single, target⟩ := renameLookup_ok looked
    obtain ⟨oldIs, newIs⟩ := renamePackages_dirs passed
    push Not at plain
    have last : Same v₂ (if (v₂.vnode file.vnode).type = .directory then v₂.copyIfCloned file.vnode fate else (v₂, 0)).1 := by
      split
      · exact copyIfCloned_same v₂ file.vnode fate
      · exact Same.refl v₂
    generalize (if (v₂.vnode file.vnode).type = .directory then v₂.copyIfCloned file.vnode fate else (v₂, 0)).1 = w at last
    rw [← same.tree, ← last.tree] at oldIs newIs
    have entries (m : Nat) : (w.vnode m).entries = (v₂.vnode m).entries := congrArg Node.entries (last.node m)
    exact
      { same := same.trans last
        oldIsDir := oldIs
        newIsDir := newIs
        inside := Tree.mem_children.mpr ⟨oldIs, by rw [tree_node, entries]; exact inside, plain.1⟩
        apart
        single := by
          rw [congrArg Node.type (last.node _), congrArg Node.linkCount (last.node _)]
          exact single
        target := fun fid some => by
          obtain ⟨inside', inUse, others⟩ := target fid some
          exact ⟨Tree.mem_children.mpr ⟨newIs, by rw [tree_node, entries]; exact inside', plain.2.1⟩, last.used ▸ inUse, others⟩ }

structure Moved (v w : Volume) (old : Nat) (oldName : Name) (newDir : Fid) (newName : Name) (file : Fid) : Prop where
  used : w.used = v.used
  others : ∀ m, m ≠ old → m ≠ newDir.vnode → (w.vnode m).toNode = (v.vnode m).toNode ∧ (w.vnode m).length = (v.vnode m).length
  atOld : old ≠ newDir.vnode → (w.vnode old).toNode = { (v.vnode old).toNode with
    entries := (v.vnode old).entries.filter fun e => e.1 ≠ oldName }
  atNew : (w.vnode newDir.vnode).toNode = { (v.vnode newDir.vnode).toNode with
    entries := (if old = newDir.vnode then (v.vnode newDir.vnode).entries.filter fun e => e.1 ≠ oldName
      else (v.vnode newDir.vnode).entries) ++ [(newName, file)] }
  short : (w.vnode old).length ≤ maxDirLength ∧ (w.vnode newDir.vnode).length ≤ maxDirLength

theorem moveEntry_moved {old : Nat} {oldName newName : Name} {newDir file : Fid} (inside : oldName ∈ (v.vnode old).entries.map Prod.fst)
    (success : (v.createEntry newDir.vnode newName file fate.createCode).2 = 0) :
    newName ∉ (v.vnode newDir.vnode).entries.map Prod.fst ∧
    ∃ w, Moved v w old oldName newDir newName file ∧
      v.moveEntry old oldName newDir newName file fate = (w.setParent old newDir file, 0) := by
  obtain ⟨absent, after⟩ := createEntry_success success
  refine ⟨absent, _, ?_, by unfold moveEntry andThen; rw [if_pos success, after]⟩
  have names : old = newDir.vnode → newName ≠ oldName := by
    rintro rfl rfl
    exact absent inside
  exact
    { used := by simp [deleteEntry]
      others := fun m isOld isNew => by simp [deleteEntry, setVnode_vnode, updateParentVnodeStatus_vnode, isOld, isNew]
      atOld := fun differ => by simp [deleteEntry, setVnode_vnode, updateParentVnodeStatus_vnode, differ]
      atNew := by
        by_cases same : old = newDir.vnode
        · simp [deleteEntry, updateParentVnodeStatus_vnode, same, names same]
        · simp [deleteEntry, setVnode_vnode, updateParentVnodeStatus_vnode, same, Ne.symm same]
      short := by
        by_cases same : old = newDir.vnode
        · simp [updateParentVnodeStatus_vnode, same, dirLength_le]
        · simp [updateParentVnodeStatus_vnode, same, dirLength_le] }

theorem setParent_node {old : Nat} {newDir file : Fid} (apart : file.vnode ≠ old ∧ file.vnode ≠ newDir.vnode) (m : Nat) :
    ((v.setParent old newDir file).vnode m).toNode = if m = file.vnode then { (v.vnode m).toNode with
        parent := newDir.vnode
        entries := if (v.vnode m).type = .directory then retarget (v.vnode m).entries newDir else (v.vnode m).entries }
      else { (v.vnode m).toNode with
        linkCount := (v.vnode m).linkCount + if (v.vnode file.vnode).type = .directory ∧ old ≠ newDir.vnode then
            if m = old then -1 else if m = newDir.vnode then 1 else 0
          else 0 } := by
  unfold setParent
  simp only [setVnode_same]
  by_cases directory : (v.vnode file.vnode).type = .directory
  · by_cases same : old = newDir.vnode
    · by_cases isFile : m = file.vnode <;> simp [setVnode_vnode, isFile, directory, same]
    rw [if_pos (show old ≠ newDir.vnode from same)]
    by_cases isFile : m = file.vnode
    · simp [setVnode_vnode, setLinkCount, isFile, directory, apart.1, apart.2]
    by_cases isOld : m = old
    · simp [setVnode_vnode, setLinkCount, isOld, directory, apart.1.symm, same]
      rfl
    · by_cases isNew : m = newDir.vnode
      · simp [setVnode_vnode, setLinkCount, isNew, directory, apart.2.symm, same, Ne.symm same]
      · simp [setVnode_vnode, setLinkCount, isFile, isOld, isNew, directory]
  · by_cases isFile : m = file.vnode <;> simp [setVnode_vnode, isFile, directory]

theorem setParent_used : (v.setParent old newDir file).used = v.used := by
  unfold setParent
  dsimp only
  split
  · split <;> rfl
  · rfl

theorem setParent_length (m : Nat) : ((v.setParent old newDir file).vnode m).length = (v.vnode m).length := by
  unfold setParent
  dsimp only
  split
  · split
    · simp only [setLinkCount, setVnode_vnode]
      grind
    · simp only [setVnode_vnode]
      grind
  · simp only [setVnode_vnode]
    grind

theorem moveEntry_keeps (good : Good v) (inside : (oldName, file) ∈ v.tree.children old) (newIs : v.tree.IsDir newDir.vnode)
    (apart : file.vnode ≠ old ∧ file.vnode ≠ newDir.vnode)
    (single : old = newDir.vnode ∨ (v.vnode file.vnode).type = .directory ∨ (v.vnode file.vnode).linkCount = 1) :
    Keeps (v.moveEntry old oldName newDir newName file fate) := by
  by_cases success : (v.createEntry newDir.vnode newName file fate.createCode).2 = 0
  swap
  · refine Keeps.andThen (fun _ => ?_) fun succeeds => absurd succeeds success
    rw [createEntry_same success]
    exact good
  have key := List.mem_map_of_mem (f := Prod.fst) (Tree.mem_children.mp inside).2.1
  obtain ⟨absent, w, moved, eq⟩ := @moveEntry_moved v fate old oldName newName newDir file key success
  rw [eq]
  intro _
  have nodeFile := (moved.others file.vnode apart.1 apart.2).1
  have typeFile : (w.vnode file.vnode).type = (v.vnode file.vnode).type := congrArg Node.type nodeFile
  refine ⟨good.tree.move inside newIs apart.1 apart.2 absent single ?_ ?_ ?_ ?_ ?_ ?_
    (l := if (v.vnode file.vnode).type = .directory then retarget (v.vnode file.vnode).entries newDir
      else (v.vnode file.vnode).entries), ?_⟩
  · rw [tree_used, setParent_used, moved.used]
    rfl
  · intro m isFile isOld isNew
    rw [tree_node, setParent_node apart, if_neg isFile]
    simp [isOld, isNew, (moved.others m isOld isNew).1]
  · rw [tree_node, setParent_node apart, if_pos rfl, nodeFile]
    rfl
  · exact fun directory => ⟨newDir.unique, if_pos directory⟩
  · intro differ
    rw [tree_node, setParent_node apart, if_neg apart.1.symm, typeFile, moved.atOld differ]
    by_cases directory : (v.vnode file.vnode).type = .directory
    · simp [differ, directory, Int.sub_eq_add_neg]
    · simp [directory]
  · rw [tree_node, setParent_node apart, if_neg apart.2.symm, typeFile, moved.atNew]
    simp only [tree_node]
    congr 1
    by_cases same : old = newDir.vnode
    · simp [same]
    · simp [same, Ne.symm same]
  · refine good.short_of fun m inUse _ => ?_
    rw [setParent_length]
    by_cases isOld : m = old
    · exact .inl (isOld ▸ moved.short.1)
    by_cases isNew : m = newDir.vnode
    · exact .inl (isNew ▸ moved.short.2)
    rw [setParent_used, moved.used] at inUse
    refine .inr ⟨inUse, ?_, (moved.others m isOld isNew).2⟩
    refine Eq.trans ?_ (congrArg Node.type (moved.others m isOld isNew).1)
    refine (congrArg Node.type (setParent_node (v := w) apart m)).trans ?_
    split <;> rfl

end Volume

end OpenAFS.Viced
