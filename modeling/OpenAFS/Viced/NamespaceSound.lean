import Mathlib.Algebra.BigOperators.Group.Finset.Basic
import OpenAFS.Viced.Namespace

namespace OpenAFS.Viced

open OpenAFS.Dir (dot dotdot)
open Lib
open OpenAFS.Viced.Tree (Dots)

variable {v : Volume} {d n : Nat} {name : Name} {fid : Fid} {fate : CallFate}

namespace Volume

variable {new : Nat}

theorem replaceTarget_node (apart : n ≠ new) (m : Nat) : ((v.replaceTarget new name n).vnode m).toNode =
      if m = n then { (v.vnode n).toNode with linkCount := (v.vnode n).linkCount - 1 }
      else if m = new then { (v.vnode new).toNode with entries := (v.vnode new).entries.filter fun e => e.1 ≠ name }
      else (v.vnode m).toNode := by
  unfold replaceTarget
  dsimp only
  by_cases isN : m = n
  · split <;> simp [deleteEntry, setLinkCount, setVnode_vnode, isN, apart]
  · by_cases isNew : m = new
    · split <;> simp [deleteEntry, setLinkCount, setVnode_vnode, isNew, apart.symm]
    · split <;> simp [deleteEntry, setLinkCount, setVnode_vnode, isN, isNew]

theorem replaceTarget_length (m : Nat) : ((v.replaceTarget new name n).vnode m).length = (v.vnode m).length := by
  unfold replaceTarget
  dsimp only
  split
  · simp only [deleteEntry, setLinkCount, setVnode_vnode, vAdjustDiskUsage_vnode, decInode_vnode, freeVnode_vnode]
    grind
  · simp only [deleteEntry, setLinkCount, setVnode_vnode]
    grind

theorem replaceTarget_used (apart : n ≠ new) :
    (v.replaceTarget new name n).used = if (v.vnode n).linkCount = 1 then v.used.erase n else v.used := by
  have before : ((v.deleteEntry new name).vnode n) = v.vnode n := setVnode_other v apart _
  have count : (v.vnode n).linkCount = 1 ↔ (v.vnode n).linkCount - 1 = 0 := by omega
  unfold replaceTarget
  simp only [setLinkCount, setVnode_same, before, count]
  split <;> rfl

theorem replaceTarget_good (good : Good v) (inside : (name, fid) ∈ v.tree.children new)
    (file : (v.vnode fid.vnode).type ≠ .directory) : Good (v.replaceTarget new name fid.vnode) := by
  have apart : fid.vnode ≠ new := by
    intro same
    exact file (by rw [same]; exact (Tree.mem_children.mp inside).1.2)
  have type (m : Nat) : ((v.replaceTarget new name fid.vnode).vnode m).type = (v.vnode m).type := by
    refine (congrArg Node.type (replaceTarget_node apart m)).trans ?_
    split
    · rename_i isFile
      rw [isFile]
    split
    · rename_i isNew
      rw [isNew]
    · rfl
  have others (m : Nat) (isFile : m ≠ fid.vnode) (isNew : m ≠ new) :
      (v.replaceTarget new name fid.vnode).tree.node m = v.tree.node m := by
    rw [tree_node, replaceTarget_node apart, if_neg isFile, if_neg isNew]
    rfl
  refine ⟨?_, good.short_of fun m inUse _ => .inr ⟨?_, type m, replaceTarget_length m⟩⟩
  · by_cases last : (v.vnode fid.vnode).linkCount = 1
    · refine good.tree.remove_last inside apart (fun _ => last) (fun isDir => absurd isDir file) ?_ others ?_
      · rw [tree_used, replaceTarget_used apart, if_pos last]
        rfl
      · rw [tree_node, replaceTarget_node apart, if_neg apart.symm, if_pos rfl]
        simp [file]
    refine good.tree.remove_link inside file last ?_ others ?_ ?_
    · rw [tree_used, replaceTarget_used apart, if_neg last]
      rfl
    · rw [tree_node, replaceTarget_node apart, if_pos rfl]
      rfl
    · rw [tree_node, replaceTarget_node apart, if_neg apart.symm, if_pos rfl]
      rfl
  · rw [replaceTarget_used apart] at inUse
    split at inUse
    · exact (Finset.mem_erase.mp inUse).2
    · exact inUse

theorem replaceTarget_isDir {m : Nat} (apart : n ≠ new) (other : m ≠ n) :
    (v.replaceTarget new name n).tree.IsDir m ↔ v.tree.IsDir m := by
  refine Tree.isDir_congr ?_ ?_
  · rw [tree_used, replaceTarget_used apart, tree_used]
    split
    · rw [Finset.mem_erase, and_iff_right other]
    · rfl
  rw [tree_node, replaceTarget_node apart, if_neg other]
  split
  · rename_i isNew
    rw [isNew, tree_node]
  · rfl

/-- The branch of a rename that breaks the namespace: a directory is replaced. -/
def ReplacesDirectory (v : Volume) (fate : CallFate) : Call → Prop
  | .rename oldDir oldName newDir newName => ∃ w file fid,
      v.renamePrepare oldDir oldName newDir newName fate = .ok (w, file, some fid) ∧ (w.vnode fid.vnode).type = .directory
  | _ => False

theorem rename_keeps {oldDir newDir : Fid} {oldName newName : Name} (good : Good v)
    (stays : ¬ v.ReplacesDirectory fate (.rename oldDir oldName newDir newName)) :
    Keeps (v.rename oldDir oldName newDir newName fate) := by
  unfold rename
  cases prepares : v.renamePrepare oldDir oldName newDir newName fate with
  | error r => exact fun _ => (renamePrepare_error prepares).good good
  | ok found =>
    obtain ⟨w, file, newFile⟩ := found
    have prepared := renamePrepare_ok prepares
    have good := prepared.same.good good
    have single : oldDir.vnode = newDir.vnode ∨ (w.vnode file.vnode).type = .directory ∨ (w.vnode file.vnode).linkCount = 1 := by
      rcases prepared.single with directory | one | last
      · exact .inr (.inl directory)
      · exact .inl one
      · exact .inr (.inr last)
    cases newFile with
    | none => exact moveEntry_keeps good prepared.inside prepared.newIsDir prepared.apart single
    | some fid =>
      obtain ⟨inside, -, notOld, notNew, notFile⟩ := prepared.target fid rfl
      have replaced : (w.vnode fid.vnode).type ≠ .directory := fun directory => stays ⟨w, file, fid, prepares, directory⟩
      have node := @replaceTarget_node w _ newName _ notNew
      have names : oldDir.vnode = newDir.vnode → oldName ≠ newName := by
        intro one sameName
        have moved := (Tree.mem_children.mp prepared.inside).2.1
        have target := (Tree.mem_children.mp inside).2.1
        rw [one, sameName] at moved
        have keys := good.tree.keys newDir.vnode prepared.newIsDir
        have same := List.inj_on_of_nodup_map keys target moved rfl
        exact notFile (congrArg (fun e : Name × Fid => e.2.vnode) same)
      have file' := node file.vnode
      rw [if_neg notFile.symm, if_neg prepared.apart.2] at file'
      refine moveEntry_keeps (replaceTarget_good good inside replaced) ?_
        ((replaceTarget_isDir notNew notNew.symm).mpr prepared.newIsDir) prepared.apart ?_
      · have there := Tree.mem_children.mp prepared.inside
        refine Tree.mem_children.mpr ⟨(replaceTarget_isDir notNew notOld.symm).mpr there.1, ?_, there.2.2⟩
        rw [Option.elim_some, tree_node, node, if_neg notOld.symm]
        split
        · rename_i one
          exact List.mem_filter.mpr ⟨one ▸ there.2.1, decide_eq_true (names one)⟩
        · exact there.2.1
      · rw [Option.elim_some, congrArg Node.type file', congrArg Node.linkCount file']
        exact single

theorem call_keeps {call : Call} (good : Good v) (stays : ¬ v.ReplacesDirectory fate call) : Keeps (v.call fate call) := by
  cases call with
  | createFile dir name => exact createFile_keeps good
  | makeDir dir name => exact makeDir_keeps good
  | symlink dir name contents => exact symlink_keeps good
  | link dir name existing => exact link_keeps good
  | removeFile dir name => exact removeFile_keeps good
  | removeDir dir name => exact removeDir_keeps good
  | rename oldDir oldName newDir newName => exact rename_keeps good stays

end Volume

namespace Tree

variable {t : Tree}

def dirs (t : Tree) : Finset Nat := t.used.filter fun d => (t.node d).type = .directory

def nameCount (t : Tree) (n : Nat) : Nat := ∑ d ∈ t.dirs, t.names d n

def namedSubdirs (t : Tree) (d : Nat) : Finset Nat := t.dirs.filter fun n => t.names d n ≠ 0

structure Shaped (t : Tree) : Prop where
  zero : 0 ∉ t.used
  root : t.IsDir 1 ∧ (t.node 1).parent = 0
  keys : ∀ d, t.IsDir d → ((t.node d).entries.map Prod.fst).Nodup
  dots : ∀ d, t.IsDir d → dot ∈ (t.node d).entries.map Prod.fst ∧ dotdot ∈ (t.node d).entries.map Prod.fst

/-- Every entry names a vnode, every vnode but the root has its entries, and the links are their numbers. -/
structure NamesOK (t : Tree) : Prop where
  entry : ∀ d, ∀ e ∈ t.children d, e.2.vnode ∈ t.used ∧ (t.node e.2.vnode).unique = e.2.unique ∧ (t.node e.2.vnode).parent = d
  named : ∀ n ∈ t.used, n ≠ 1 → 1 ≤ t.nameCount n
  once : ∀ d, t.IsDir d → d ≠ 1 → t.nameCount d = 1
  up : ∀ d, t.IsDir d → d ≠ 1 → ∀ fid, (dotdot, fid) ∈ (t.node d).entries → fid.vnode = (t.node d).parent
  file : ∀ n ∈ t.used, (t.node n).type ≠ .directory → (t.node n).linkCount = t.nameCount n
  directory : ∀ d, t.IsDir d → (t.node d).linkCount = 2 + (t.namedSubdirs d).card

theorem mem_dirs : d ∈ t.dirs ↔ t.IsDir d := Finset.mem_filter

theorem nameCount_parent (alone : ∀ d, d ≠ (t.node n).parent → t.names d n = 0) :
    t.nameCount n = t.names (t.node n).parent n := by
  refine Finset.sum_eq_single _ (fun d _ other => alone d other) fun noDir => ?_
  rw [mem_dirs] at noDir
  unfold names children
  rw [if_neg noDir, List.countP_nil]

theorem namedSubdirs_eq (zero : 0 ∉ t.used) (root : (t.node 1).parent = 0) (dir : t.IsDir d)
    (parent : ∀ n, t.names d n ≠ 0 → (t.node n).parent = d)
    (named : ∀ n, t.IsDir n → n ≠ 1 → t.names (t.node n).parent n ≠ 0) : t.namedSubdirs d = t.subdirs none d := by
  ext n
  simp only [namedSubdirs, subdirs, Finset.mem_filter, mem_dirs, IsDir]
  constructor
  · rintro ⟨⟨inUse, directory⟩, some⟩
    exact ⟨inUse, directory, parent n some, by simp⟩
  rintro ⟨inUse, directory, above, -⟩
  refine ⟨⟨inUse, directory⟩, ?_⟩
  have nonroot : n ≠ 1 := by
    rintro rfl
    rw [root] at above
    exact zero (above ▸ dir.1)
  have some := named n ⟨inUse, directory⟩ nonroot
  rwa [above] at some

theorem Consistent.namesOK (cons : t.Consistent) : t.NamesOK := by
  have count (n : Nat) : t.nameCount n = t.names (t.node n).parent n :=
    nameCount_parent fun d other => cons.names_eq_zero other.symm
  have once (d : Nat) (dir : t.IsDir d) (nonroot : d ≠ 1) : t.nameCount d = 1 := by
    rw [count, cons.directory d dir nonroot, if_neg (by simp)]
  exact
    { entry := cons.child
      named := fun n inUse nonroot => by
        by_cases directory : (t.node n).type = .directory
        · exact (once n ⟨inUse, directory⟩ nonroot).ge
        · rw [count]
          exact Nat.one_le_iff_ne_zero.mpr (cons.named n inUse directory (by simp))
      once
      up := fun d dir nonroot fid inside => by
        obtain ⟨unique, above⟩ := cons.up d dir nonroot (by simp)
        have same := List.inj_on_of_nodup_map (cons.keys d dir) inside above rfl
        exact congrArg (fun e : Name × Fid => e.2.vnode) same
      file := fun n inUse file => by
        rw [count, cons.file n inUse file, if_neg (by simp), Int.add_zero]
      directory := fun d dir => by
        rw [cons.subdirectories d dir, namedSubdirs_eq cons.zero cons.root.2.1 dir ?_ ?_]
        · intro n some
          by_contra other
          exact some (cons.names_eq_zero other)
        · intro n isDir nonroot
          rw [← count, once n isDir nonroot]
          decide }

theorem NamesOK.consistent (ok : t.NamesOK) (shaped : t.Shaped) : t.Consistent := by
  have alone (n d : Nat) (other : d ≠ (t.node n).parent) : t.names d n = 0 := by
    by_contra some
    obtain ⟨e, inside, same⟩ := names_ne_zero.mp some
    have parent := (ok.entry d e inside).2.2
    rw [same] at parent
    exact other parent.symm
  have count (n : Nat) : t.nameCount n = t.names (t.node n).parent n := nameCount_parent (alone n)
  have named (n : Nat) (inUse : n ∈ t.used) (nonroot : n ≠ 1) : t.names (t.node n).parent n ≠ 0 := by
    rw [← count]
    exact Nat.one_le_iff_ne_zero.mp (ok.named n inUse nonroot)
  have notRoot {n : Nat} (file : (t.node n).type ≠ .directory) : n ≠ 1 := by
    rintro rfl
    exact file shaped.root.1.2
  exact
    { zero := shaped.zero
      root := ⟨shaped.root.1, shaped.root.2, by simp⟩
      keys := shaped.keys
      dots := shaped.dots
      up := fun d dir nonroot _ => by
        obtain ⟨⟨key, fid⟩, inside, same⟩ := List.mem_map.mp (shaped.dots d dir).2
        obtain rfl : key = dotdot := same
        exact ⟨fid.unique, by rw [← ok.up d dir nonroot fid inside]; exact inside⟩
      child := ok.entry
      home := fun n inUse nonroot _ => by
        obtain ⟨e, inside, -⟩ := names_ne_zero.mp (named n inUse nonroot)
        exact (mem_children.mp inside).1
      directory := fun n dir nonroot => by
        rw [← count, ok.once n dir nonroot, if_neg (by simp)]
      file := fun n inUse file => by
        rw [← count, ok.file n inUse file, if_neg (by simp), Int.add_zero]
      named := fun n inUse file _ => named n inUse (notRoot file)
      subdirectories := fun d dir => by
        rw [ok.directory d dir, namedSubdirs_eq shaped.zero shaped.root.2 dir]
        · intro n some
          by_contra other
          exact some (alone n d (Ne.symm other))
        · exact fun n isDir => named n isDir.1 }

end Tree

namespace Volume

/-- A volume that is online, whose directories are well formed and in whose namespace all is as it should be. -/
def Sound (v : Volume) : Prop :=
  v.online ∧ v.tree.Shaped ∧ v.tree.NamesOK ∧ ∀ d, v.tree.IsDir d → (v.vnode d).length ≤ maxDirLength

/-- Calls one after the other, on a volume that is sound at first. A volume that is offline answers no calls. -/
def calls : Machine Volume (Call × CallFate) where
  start := Sound
  step v a := if v.online then some (v.call a.2 a.1).1 else none

/-- In every run whose renames do not replace a directory, the namespace stays as it should be. -/
theorem calls_keep_namespace (reached : calls.ReachWhere (fun v a => ¬ v.ReplacesDirectory a.2 a.1) v)
    (online : v.online) : v.tree.NamesOK := by
  have start (v : Volume) (sound : v.Sound) (_ : v.online) : Good v :=
    ⟨sound.2.2.1.consistent sound.2.1, sound.2.2.2⟩
  have step (v : Volume) (a : Call × CallFate) (v' : Volume) (before : v.online → Good v)
      (stays : ¬ v.ReplacesDirectory a.2 a.1) (taken : calls.step v a = some v') : v'.online → Good v' := by
    simp only [calls, Option.ite_none_right_eq_some] at taken
    obtain ⟨up, taken⟩ := taken
    cases taken
    exact call_keeps (before up) stays
  exact (reached.invariant start step online).tree.namesOK

def twoDirs : Volume where
  used := {1, 3, 5}
  vnode
    | 1 => { type := .directory, unique := 1, linkCount := 4, length := 2048, inode := 1,
             entries := [(dot, ⟨1, 1⟩), (dotdot, ⟨1, 1⟩), ([97], ⟨3, 2⟩), ([98], ⟨5, 3⟩)] }
    | n => { type := .directory, unique := n / 2 + 1, parent := 1, linkCount := 2, length := 2048, inode := n,
             entries := [(dot, ⟨n, n / 2 + 1⟩), (dotdot, ⟨1, 1⟩)] }
  nextUnique := 4
  data _ := []
  links i := if i = 1 ∨ i = 3 ∨ i = 5 then 1 else 0
  diskused := 6
  maxquota := 100
  free := 100
  online := true

theorem twoDirs_isDir : twoDirs.tree.IsDir d ↔ d = 1 ∨ d = 3 ∨ d = 5 := by
  constructor
  · rintro ⟨inUse, -⟩
    simpa [twoDirs] using inUse
  · rintro (rfl | rfl | rfl) <;> decide

theorem twoDirs_sound : Sound twoDirs := by
  have each {p : Nat → Prop} (at1 : p 1) (at3 : p 3) (at5 : p 5) (d : Nat) (isDir : twoDirs.tree.IsDir d) : p d := by
    rcases twoDirs_isDir.mp isDir with rfl | rfl | rfl
    · exact at1
    · exact at3
    · exact at5
  have all (n : Nat) (inUse : n ∈ twoDirs.tree.used) : twoDirs.tree.IsDir n := by
    refine twoDirs_isDir.mpr ?_
    simpa [twoDirs] using inUse
  refine ⟨rfl, ⟨by decide, by decide, ?_, ?_⟩, ⟨?_, ?_, ?_, ?_, ?_, ?_⟩, ?_⟩
  · exact each (by decide) (by decide) (by decide)
  · exact each (by decide) (by decide) (by decide)
  · intro d e inside
    have isDir := (Tree.mem_children.mp inside).1
    exact each (p := fun d => ∀ e ∈ twoDirs.tree.children d, e.2.vnode ∈ twoDirs.tree.used ∧
      (twoDirs.tree.node e.2.vnode).unique = e.2.unique ∧ (twoDirs.tree.node e.2.vnode).parent = d)
      (by decide) (by decide) (by decide) d isDir e inside
  · exact fun n inUse => each (p := fun n => n ≠ 1 → 1 ≤ twoDirs.tree.nameCount n) (by decide) (by decide) (by decide) n
      (all n inUse)
  · exact each (by decide) (by decide) (by decide)
  · intro d isDir nonroot fid inside
    exact each (p := fun d => d ≠ 1 → ∀ e ∈ (twoDirs.tree.node d).entries, e.1 = dotdot →
      e.2.vnode = (twoDirs.tree.node d).parent) (by decide) (by decide) (by decide) d isDir nonroot _ inside rfl
  · exact fun n inUse file => absurd (all n inUse).2 file
  · exact each (by decide) (by decide) (by decide)
  · exact each (by decide) (by decide) (by decide)

theorem calls_keep_namespace_twoDirs :
    (twoDirs.rename ⟨1, 1⟩ [97] ⟨1, 1⟩ [99] {}).2 = 0 ∧ (twoDirs.rename ⟨1, 1⟩ [97] ⟨1, 1⟩ [99] {}).1.tree.NamesOK := by
  refine ⟨by decide, calls_keep_namespace (.step (a := (.rename ⟨1, 1⟩ [97] ⟨1, 1⟩ [99], {})) (.start twoDirs_sound) ?_ rfl)
    (by decide)⟩
  rintro ⟨w, file, fid, prepared, -⟩
  have found : ((twoDirs.renamePrepare ⟨1, 1⟩ [97] ⟨1, 1⟩ [99] {}).toOption.map fun r => r.2.2) = some none := by decide
  rw [prepared] at found
  cases found

theorem replaced_directory_unnamed :
    ¬ ∀ (v : Volume) (call : Call) (fate : CallFate), v.Sound → (v.call fate call).2 = 0 → (v.call fate call).1.online →
      (v.call fate call).1.tree.NamesOK := by
  intro all
  have named := (all twoDirs (.rename ⟨1, 1⟩ [97] ⟨1, 1⟩ [98]) {} twoDirs_sound (by decide) (by decide)).named 5 (by decide)
    (by decide)
  exact absurd named (by decide)

end Volume

end OpenAFS.Viced
