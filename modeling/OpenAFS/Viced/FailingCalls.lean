import OpenAFS.Viced.SessionSound
import OpenAFS.Viced.Usage

namespace OpenAFS.Viced

open Function (update update_self update_of_ne)
open Lib
open OpenAFS.Viced.Tree (Dots)

namespace Volume

def ownCopy (v : Volume) (n i : Nat) : Volume :=
  { (v.setData i ((v.data (v.vnode n).inode).take (v.vnode n).length)).setVnode n
      { v.vnode n with inode := i, cloned := false } with
    links := update (update v.links i 1) (v.vnode n).inode (v.links (v.vnode n).inode - 1) }

end Volume

variable {v v' w : Volume}

inductive Copied (v : Volume) : Volume → Prop
  | refl : Copied v v
  | copy {w : Volume} {n i : Nat} (earlier : Copied v w) (inUse : n ∈ w.used) (directory : (w.vnode n).type = .directory)
    (cloned : (w.vnode n).cloned = true) (made : w.NewInode i) : Copied v (w.ownCopy n i)

/-- The vnodes that are allocated, the usage of the disk and the inodes are as before. -/
structure Restored (v v' : Volume) : Prop where
  used : v'.used = v.used
  vnode : ∀ n ∈ v.used, v'.vnode n = v.vnode n
  diskused : v'.diskused = v.diskused
  free : v'.free = v.free
  links : v'.links = v.links
  data : ∀ i, v.links i ≠ 0 → v'.data i = v.data i

theorem Restored.refl (v : Volume) : Restored v v := ⟨rfl, fun _ _ => rfl, rfl, rfl, rfl, fun _ _ => rfl⟩

def LosesName (v v' : Volume) (fate : CallFate) : Call → Prop
  | .rename oldDir oldName newDir newName => ∃ w fileFid newFileFid, Copied v w ∧
      v.renamePrepare oldDir oldName newDir newName fate = .ok (w, fileFid, some newFileFid) ∧
      v' = w.replaceTarget newDir.vnode newName newFileFid.vnode
  | _ => False

def Undone (v v' : Volume) (fate : CallFate) (call : Call) : Prop :=
  (∃ w, Copied v w ∧ Restored w v') ∨ LosesName v v' fate call

theorem Copied.used (copied : Copied v w) : w.used = v.used := by
  induction copied with
  | refl => rfl
  | copy _ _ _ _ _ ih => exact ih

theorem Copied.kept (copied : Copied v w) {m : Nat} (still : (w.vnode m).cloned = true) : w.vnode m = v.vnode m := by
  induction copied with
  | refl => rfl
  | @copy w n i _ _ _ _ _ ih =>
    by_cases same : m = n
    · rw [same, Volume.ownCopy, Volume.setVnode_same] at still
      cases still
    · rw [Volume.ownCopy, Volume.setVnode_other _ same] at still ⊢
      exact ih still

def losers (v w : Volume) (i : Nat) : Finset Nat :=
  v.used.filter fun n => (v.vnode n).cloned = true ∧ (w.vnode n).cloned = false ∧ (v.vnode n).inode = i

theorem Copied.links (copied : Copied v w) {i : Nat}
    (old : ∀ n ∈ v.used, (v.vnode n).cloned = true → (w.vnode n).cloned = false → (w.vnode n).inode ≠ i) :
    w.links i = v.links i - (losers v w i).card := by
  induction copied with
  | refl =>
    have none : losers v v i = ∅ := by
      refine Finset.filter_eq_empty_iff.mpr fun n _ lost => ?_
      rw [lost.1] at lost
      cases lost.2.1
    rw [none, Finset.card_empty, Nat.sub_zero]
  | @copy w n j earlier inUse directory cloned made ih =>
    have others {m : Nat} (other : m ≠ n) : (w.ownCopy n j).vnode m = w.vnode m := Volume.setVnode_other _ other _
    have own : (w.ownCopy n j).vnode n = { w.vnode n with inode := j, cloned := false } := Volume.setVnode_same _ _ _
    have was : w.vnode n = v.vnode n := earlier.kept cloned
    have inUse : n ∈ v.used := earlier.used ▸ inUse
    have before := ih fun m known was' lost => by
      have other : m ≠ n := by
        rintro rfl
        rw [cloned] at lost
        cases lost
      rw [← others other] at lost ⊢
      exact old m known was' lost
    have notNew : i ≠ j := by
      have differs := old n inUse (was ▸ cloned) (by rw [own])
      rw [own] at differs
      exact differs.symm
    by_cases here : (v.vnode n).inode = i
    · have more : losers v (w.ownCopy n j) i = insert n (losers v w i) := by
        ext m
        by_cases same : m = n
        · have here' : (w.vnode n).inode = i := was ▸ here
          simp [losers, same, own, inUse, ← was, cloned, here']
        · simp [losers, same, others same]
      have fresh : n ∉ losers v w i := fun lost => by
        have lost := (Finset.mem_filter.mp lost).2.2.1
        rw [cloned] at lost
        cases lost
      rw [more, Finset.card_insert_of_notMem fresh]
      show update (update w.links j 1) (w.vnode n).inode _ i = _
      rw [was, here, update_self, before]
      omega
    · have same : losers v (w.ownCopy n j) i = losers v w i := by
        ext m
        by_cases same : m = n
        · simp [losers, same, here]
        · simp [losers, others same]
      rw [same, ← before]
      show update (update w.links j 1) (w.vnode n).inode _ i = _
      rw [was, update_of_ne (Ne.symm here), update_of_ne notNew]

theorem not_restored {u r : Volume} {i : Nat} (before : Copied v u) (same : ∀ n ∈ v.used, r.vnode n = u.vnode n)
    (old : ∀ n ∈ v.used, (v.vnode n).cloned = true → (u.vnode n).cloned = false → (u.vnode n).inode ≠ i)
    (left : r.links i ≠ u.links i) : ¬ ∃ w, Copied v w ∧ Restored w r := by
  rintro ⟨w, copied, restored⟩
  have alike : ∀ n ∈ v.used, w.vnode n = u.vnode n := fun n inUse =>
    (restored.vnode n (copied.used ▸ inUse)).symm.trans (same n inUse)
  have lost : losers v w i = losers v u i := by
    refine Finset.filter_congr fun n inUse => ?_
    rw [alike n inUse]
  refine left ?_
  rw [restored.links, before.links old, copied.links fun n inUse => by rw [alike n inUse]; exact old n inUse, lost]

namespace Volume

variable (v : Volume) (n : Nat) (fate : CallFate)

def Copies : Prop :=
  (v.vnode n).cloned = true → (v.vnode n).inode ≠ 0 ∧ ∃ i, fate.copies n = .copied i ∧ v.NewInode i

/-- The disk is full in the midst of a copy, and the new inode cannot be removed. -/
def LeavesCopy : Prop :=
  (v.vnode n).cloned = true ∧ (v.vnode n).inode ≠ 0 ∧ ∃ i written, fate.copies n = .full i written false ∧ v.NewInode i

def CopyOffline : Prop :=
  (v.vnode n).cloned = true ∧ fate.copies n ≠ .noMemory ∧
    ((v.vnode n).inode = 0 ∨ (∃ errno positive, fate.copies n = .openFails errno positive) ∨ fate.copies n = .broken ∨
      ∃ i written, fate.copies n = .full i written true ∧ v.NewInode i)

inductive CopyEnd (v : Volume) (n : Nat) (fate : CallFate) : Volume × Int → Prop
  | kept (copies : v.Copies n fate) (own : (v.vnode n).cloned = false) : CopyEnd v n fate (v, 0)
  | copied (copies : v.Copies n fate) (cloned : (v.vnode n).cloned = true) (i : Nat) (made : v.NewInode i) :
      CopyEnd v n fate (v.ownCopy n i, 0)
  | offline (offline : v.CopyOffline n fate) (r : Volume × Int) (failure : r.2 ≠ 0) (online : r.1.online = false) :
      CopyEnd v n fate r
  | left (left : v.LeavesCopy n fate) (i : Nat) (made : v.NewInode i) (bytes : List UInt8) :
      CopyEnd v n fate ({ v.setData i bytes with links := update v.links i 1 }, enospc)
  | refused (fails : ¬ v.Copies n fate) (stays : ¬ v.CopyOffline n fate) (clean : ¬ v.LeavesCopy n fate) (code : Int)
      (failure : code ≠ 0) : CopyEnd v n fate (v, code)

variable {v n fate}

theorem CopyEnd.of_refusal {code : Int} (failure : code ≠ 0) (cloned : (v.vnode n).cloned = true)
    (inode : fate.copies n = .noMemory ∨ (v.vnode n).inode ≠ 0)
    (unopened : ∀ errno positive, fate.copies n ≠ .openFails errno positive) (unbroken : fate.copies n ≠ .broken)
    (uncopied : ∀ i, fate.copies n = .copied i → ¬ v.NewInode i)
    (unfilled : ∀ i written removed, fate.copies n = .full i written removed → ¬ v.NewInode i) :
    CopyEnd v n fate (v, code) := by
  refine .refused (fun copies => ?_) (fun offline => ?_) (fun left => ?_) code failure
  · obtain ⟨-, i, same, new⟩ := copies cloned
    exact uncopied i same new
  · obtain ⟨-, memory, none | ⟨errno, positive, same⟩ | same | ⟨i, written, same, new⟩⟩ := offline
    · exact inode.elim memory fun some => some none
    · exact unopened errno positive same
    · exact unbroken same
    · exact unfilled i written true same new
  · obtain ⟨-, -, i, written, same, new⟩ := left
    exact unfilled i written false same new

theorem copyIfCloned_end (directory : (v.vnode n).type = .directory) : CopyEnd v n fate (v.copyIfCloned n fate) := by
  unfold copyIfCloned
  split
  swap
  · rename_i own
    exact .kept (fun cloned => absurd cloned own) (Bool.eq_false_of_not_eq_true own)
  rename_i cloned
  by_cases noMemory : fate.copies n = .noMemory
  · rw [noMemory]
    exact .of_refusal (by decide) cloned (.inl noMemory) (by simp [noMemory]) (by simp [noMemory]) (by simp [noMemory])
      (by simp [noMemory])
  by_cases none : (v.vnode n).inode = 0
  · have offline : v.CopyOffline n fate := ⟨cloned, noMemory, .inl none⟩
    have result : v.copyOnWrite n (v.realCopy (fate.copies n)) = (v.takeOffline, eio) := by
      unfold copyOnWrite realCopy
      cases copy : fate.copies n with
      | noMemory => exact absurd copy noMemory
      | copied i =>
        dsimp only
        by_cases new : v.NewInode i
        · rw [if_pos new]
          exact if_pos none
        · rw [if_neg new]
          exact if_pos none
      | full i written removed =>
        dsimp only
        by_cases new : v.NewInode i
        · rw [if_pos new]
          exact if_pos none
        · rw [if_neg new]
          exact if_pos none
      | _ => exact if_pos none
    rw [result]
    exact .offline offline _ (by decide : eio ≠ 0) rfl
  unfold copyOnWrite realCopy
  cases copy : fate.copies n with
  | noMemory => exact absurd copy noMemory
  | openFails errno positive =>
    dsimp only
    rw [if_neg none]
    exact .offline ⟨cloned, noMemory, .inr (.inl ⟨errno, positive, copy⟩)⟩ _ (by dsimp only; omega) rfl
  | broken =>
    dsimp only
    rw [if_neg none]
    exact .offline ⟨cloned, noMemory, .inr (.inr (.inl copy))⟩ _ (by decide : eio ≠ 0) rfl
  | noInode =>
    dsimp only
    rw [if_neg none]
    exact .of_refusal (by decide) cloned (.inr none) (by simp [copy]) (by simp [copy]) (by simp [copy]) (by simp [copy])
  | full i written removed =>
    dsimp only
    by_cases new : v.NewInode i
    swap
    · rw [if_neg new]
      dsimp only
      rw [if_neg none]
      refine .of_refusal (by decide) cloned (.inr none) (by simp [copy]) (by simp [copy]) (by simp [copy]) ?_
      rintro j _ _ same
      rw [copy] at same
      cases same
      exact new
    rw [if_pos new]
    dsimp only
    rw [if_neg none, if_neg (by simp [new.1, new.2.1])]
    split
    · rename_i isRemoved
      rw [isRemoved] at copy
      exact .offline ⟨cloned, noMemory, .inr (.inr (.inr ⟨i, written, copy, new⟩))⟩ _ (by decide : enospc ≠ 0) rfl
    · rename_i notRemoved
      rw [Bool.eq_false_of_not_eq_true notRemoved] at copy
      exact .left ⟨cloned, none, i, written, copy, new⟩ i new _
  | copied i =>
    dsimp only
    by_cases new : v.NewInode i
    swap
    · rw [if_neg new]
      dsimp only
      rw [if_neg none]
      refine .of_refusal (by decide) cloned (.inr none) (by simp [copy]) (by simp [copy]) ?_ (by simp [copy])
      intro j same
      rw [copy] at same
      cases same
      exact new
    rw [if_pos new]
    dsimp only
    rw [if_neg none, if_neg (by simp [new.1, new.2.1]), if_neg fun other => other.1 directory]
    exact .copied (fun _ => ⟨none, i, copy, new⟩) cloned i new

theorem Copies.online (copies : v.Copies n fate) : ¬ v.CopyOffline n fate := by
  rintro ⟨cloned, -, none | ⟨_, _, same⟩ | same | ⟨_, _, same, -⟩⟩
  · exact (copies cloned).1 none
  all_goals
    obtain ⟨-, i, copied, -⟩ := copies cloned
    rw [same] at copied
    cases copied

theorem LeavesCopy.online (left : v.LeavesCopy n fate) : ¬ v.CopyOffline n fate := by
  obtain ⟨cloned, some, i, written, full, -⟩ := left
  rintro ⟨-, -, none | ⟨_, _, same⟩ | same | ⟨_, _, same, -⟩⟩
  · exact some none
  all_goals
    rw [full] at same
    cases same

theorem LeavesCopy.fails (left : v.LeavesCopy n fate) : ¬ v.Copies n fate := by
  obtain ⟨cloned, -, i, written, full, -⟩ := left
  intro copies
  obtain ⟨-, j, copied, -⟩ := copies cloned
  rw [full] at copied
  cases copied

variable (v) (fate) (dir : Fid) (d : Nat) (name : Name) (type : VnodeType) (blocks : Int)

def Begins : Prop := v.usageCode blocks blocks = 0 ∧ v.allocCode type fate = 0 ∧ v.NewInode fate.inode

def begun : Volume := (v.addUsage blocks).allocVnode type fate.vnode fate.inode

def Inserts : Prop := name ≠ [] ∧ name ∉ (v.vnode d).entries.map Prod.fst ∧ fate.createCode = 0

/-- A call that makes a vnode fails and leaves an inode: a copy, or the inode of the vnode itself. -/
def LeavesInode : Prop :=
  v.Begins fate type blocks ∧ ((v.begun fate type blocks).LeavesCopy d fate ∨
      fate.decrements = false ∧ ¬ (v.begun fate type blocks).CopyOffline d fate ∧
        ¬ ((v.begun fate type blocks).Copies d fate ∧ v.Inserts fate d name))

def Makes : Prop :=
  v.Begins fate type blocks ∧ (v.begun fate type blocks).Copies d fate ∧ v.Inserts fate d name

inductive AllocEnd (v : Volume) (fate : CallFate) (d : Nat) (name : Name) (type : VnodeType) (blocks : Int) :
    Volume × Int → Prop
  | undone (clean : ¬ v.LeavesInode fate d name type blocks) (fails : ¬ v.Makes fate d name type blocks) (w r : Volume)
      (copied : Copied v w) (restored : Restored w r)
      (code : Int) (failure : code ≠ 0) : AllocEnd v fate d name type blocks (r, code)
  | offline (clean : ¬ v.LeavesInode fate d name type blocks) (fails : ¬ v.Makes fate d name type blocks)
      (r : Volume × Int) (failure : r.2 ≠ 0) (online : r.1.online = false) : AllocEnd v fate d name type blocks r
  | left (left : v.LeavesInode fate d name type blocks) (r : Volume) (online : r.online = v.online)
      (stray : ¬ ∃ w, Copied v w ∧ Restored w r) (code : Int) (failure : code ≠ 0) :
      AllocEnd v fate d name type blocks (r, code)
  | made (makes : v.Makes fate d name type blocks) (r : Volume) (online : r.online = v.online) (inUse : fate.vnode ∈ r.used)
      (new : fate.vnode ∉ v.used) : AllocEnd v fate d name type blocks (r, 0)

variable {v fate d name type blocks}

theorem createEntry_inserts {fid : Fid} : (v.createEntry d name fid fate.createCode).2 = 0 ↔ v.Inserts fate d name := by
  unfold createEntry Inserts
  split
  · rename_i empty
    exact iff_of_false (by decide : einval ≠ 0) fun inserts => inserts.1 empty
  split
  · rename_i known
    exact iff_of_false (by decide : eexist ≠ 0) fun inserts => inserts.2.1 known
  split
  · rename_i failure
    exact iff_of_false failure fun inserts => failure inserts.2.2
  · rename_i empty unknown success
    exact iff_of_true rfl ⟨empty, unknown, not_not.mp success⟩

theorem refund_diskused (b : Int) : ((v.addUsage b).vAdjustDiskUsage (-b) 0).1.diskused = v.diskused :=
  refunded v.diskused b

theorem refund_free (b : Int) : ((v.addUsage b).vAdjustDiskUsage (-b) 0).1.free = v.free := by
  show v.free - b - -b = v.free
  omega

structure GivenUp (v w w' : Volume) (fate : CallFate) (blocks : Int) : Prop where
  new : fate.vnode ∉ v.used
  used : w'.used = insert fate.vnode v.used
  copied : Copied v w
  vnode : ∀ m ∈ v.used, w'.vnode m = w.vnode m
  own : ∀ m ∈ v.used, (v.vnode m).cloned = true → (w.vnode m).cloned = false → (w.vnode m).inode ≠ fate.inode
  diskused : w'.diskused = w.diskused + BitVec.ofInt 32 blocks
  free : w'.free = w.free - blocks
  links : w'.links = update w.links fate.inode 1
  none : w.links fate.inode = 0
  data : ∀ i, i ≠ fate.inode → w'.data i = w.data i
  online : w'.online = v.online

def giveUp (w' : Volume) (fate : CallFate) (blocks : Int) : Volume :=
  ((w'.vAdjustDiskUsage (-blocks) 0).1.tryDecInode fate.inode fate).freeVnode fate.vnode

variable {w' : Volume}

section

variable (given : GivenUp v w w' fate blocks)
include given

theorem GivenUp.online_giveUp : (giveUp w' fate blocks).online = v.online := by
  rw [← given.online]
  unfold giveUp tryDecInode
  split <;> rfl

theorem GivenUp.restored (decrements : fate.decrements = true) :
    Restored w (giveUp w' fate blocks) := by
  unfold giveUp tryDecInode
  rw [if_pos decrements]
  refine ⟨?_, fun m inUse => given.vnode m (given.copied.used ▸ inUse), ?_, ?_, ?_, fun i some => given.data i ?_⟩
  · show w'.used.erase fate.vnode = w.used
    rw [given.used, Finset.erase_insert given.new, given.copied.used]
  · show w'.diskused + BitVec.ofInt 32 (-blocks) = w.diskused
    rw [given.diskused, refunded]
  · show w'.free - -blocks = w.free
    rw [given.free]
    omega
  · show update w'.links fate.inode (w'.links fate.inode - 1) = w.links
    rw [given.links, update_self, Function.update_idem, Nat.sub_self, ← given.none, Function.update_eq_self]
  · rintro rfl
    exact some given.none

theorem GivenUp.stray (stays : fate.decrements = false) :
    ¬ ∃ w, Copied v w ∧ Restored w (giveUp w' fate blocks) := by
  unfold giveUp tryDecInode
  rw [if_neg (by simp [stays])]
  refine not_restored given.copied given.vnode given.own ?_
  show w'.links fate.inode ≠ w.links fate.inode
  rw [given.links, update_self, given.none]
  decide

theorem GivenUp.ends (begins : v.Begins fate type blocks)
    (fails : ¬ ((v.begun fate type blocks).Copies d fate ∧ v.Inserts fate d name))
    (stays : ¬ (v.begun fate type blocks).CopyOffline d fate) (clean : ¬ (v.begun fate type blocks).LeavesCopy d fate)
    {code : Int} (failure : code ≠ 0) : AllocEnd v fate d name type blocks (giveUp w' fate blocks, code) := by
  cases decrements : fate.decrements with
  | true =>
    refine .undone ?_ (fun makes => fails makes.2) w _ given.copied (given.restored decrements) code failure
    rintro ⟨-, left | ⟨undecremented, -⟩⟩
    · exact clean left
    · rw [decrements] at undecremented
      cases undecremented
  | false => exact .left ⟨begins, .inr ⟨decrements, stays, fails⟩⟩ _ given.online_giveUp (given.stray decrements) code failure

end

theorem allocCode_fresh (allocated : v.allocCode type fate = 0) : v.Fresh type fate.vnode := by
  unfold allocCode at allocated
  split at allocated
  · rename_i failed
    exact absurd allocated failed
  · split at allocated
    · assumption
    · exact absurd allocated (by decide)

theorem GivenUp.insert_end {fid : Fid} (given : GivenUp v w w' fate blocks) (begins : v.Begins fate type blocks)
    (copies : (v.begun fate type blocks).Copies d fate) (entries : (w'.vnode d).entries = (v.vnode d).entries) :
    let r := w'.createEntry d name fid fate.createCode
    AllocEnd v fate d name type blocks (if r.2 ≠ 0 then (giveUp r.1 fate blocks, r.2) else r) := by
  have same : w'.Inserts fate d name ↔ v.Inserts fate d name := by
    unfold Inserts
    rw [entries]
  dsimp only
  by_cases inserts : (w'.createEntry d name fid fate.createCode).2 = 0
  · have known := same.mp (createEntry_inserts.mp inserts)
    have result := (createEntry_success inserts).2
    generalize w'.createEntry d name fid fate.createCode = r at inserts result ⊢
    obtain ⟨v', code⟩ := r
    obtain rfl : code = 0 := inserts
    obtain rfl : v' = _ := result
    exact .made ⟨begins, copies, known⟩ _ given.online
      (by rw [setVnode_used, given.used]; exact Finset.mem_insert_self _ _) given.new
  · rw [if_pos inserts, createEntry_same inserts]
    exact given.ends begins (fun both => inserts (createEntry_inserts.mpr (same.mpr both.2))) copies.online
      (fun left => left.fails copies) inserts

theorem begun_end (inUse : d ∈ v.used) (directory : (v.vnode d).type = .directory) (begins : v.Begins fate type blocks) :
    let r := andThen ((v.begun fate type blocks).copyIfCloned d fate) fun w =>
      w.createEntry d name ⟨fate.vnode, (w.vnode fate.vnode).unique⟩ fate.createCode
    AllocEnd v fate d name type blocks (if r.2 ≠ 0 then (giveUp r.1 fate blocks, r.2) else r) := by
  have ⟨_, allocated, new⟩ := begins
  have apart : fate.inode ≠ (v.vnode d).inode := (new.2.2 d inUse).symm
  have fresh := allocCode_fresh allocated
  have others {m : Nat} (known : m ∈ v.used) : m ≠ fate.vnode := by
    rintro rfl
    exact fresh.2.1 known
  have vnode {m : Nat} (known : m ∈ v.used) : (v.begun fate type blocks).vnode m = v.vnode m :=
    setVnode_other _ (others known) _
  have links : (v.begun fate type blocks).links = update v.links fate.inode 1 := if_neg new.1
  have data : (v.begun fate type blocks).data = update v.data fate.inode [] := if_neg new.1
  have atOnce : GivenUp v v (v.begun fate type blocks) fate blocks :=
    { new := fresh.2.1
      used := rfl
      copied := .refl
      vnode := fun m known => vnode known
      own := fun m _ cloned own => by rw [cloned] at own; cases own
      diskused := rfl
      free := rfl
      links
      none := new.2.1
      data := fun i other => by rw [data, update_of_ne other]
      online := rfl }
  dsimp only
  have copy : CopyEnd (v.begun fate type blocks) d fate ((v.begun fate type blocks).copyIfCloned d fate) :=
    copyIfCloned_end (by rw [vnode inUse]; exact directory)
  generalize (v.begun fate type blocks).copyIfCloned d fate = r at copy ⊢
  -- an inode that can be made now could be made before
  have older {i : Nat} (made : (v.begun fate type blocks).NewInode i) : i ≠ fate.inode ∧ v.NewInode i := by
    have other : i ≠ fate.inode := by
      rintro rfl
      have used := made.2.1
      rw [links, update_self] at used
      cases used
    refine ⟨other, made.1, ?_, fun m known => ?_⟩
    · have unused := made.2.1
      rwa [links, update_of_ne other] at unused
    · rw [← vnode known]
      exact made.2.2 m (Finset.mem_insert_of_mem known)
  cases copy with
  | kept copies own => exact atOnce.insert_end begins copies (by rw [vnode inUse])
  | copied copies cloned i made =>
    obtain ⟨other, unused⟩ := older made
    rw [vnode inUse] at cloned
    have after : GivenUp v (v.ownCopy d i) ((v.begun fate type blocks).ownCopy d i) fate blocks := by
      refine
        { new := fresh.2.1
          used := rfl
          copied := .copy .refl inUse directory cloned unused
          vnode := fun m known => ?_
          own := fun m known was own => ?_
          diskused := rfl
          free := rfl
          links := ?_
          none := ?_
          data := fun j otherJ => ?_
          online := rfl }
      · have kept := vnode known
        unfold ownCopy
        by_cases here : m = d
        · rw [here] at kept ⊢
          rw [setVnode_same, setVnode_same, kept]
        · rw [setVnode_other _ here, setVnode_other _ here]
          exact kept
      · unfold ownCopy at own ⊢
        by_cases here : m = d
        · rw [here, setVnode_same]
          exact other
        rw [setVnode_other _ here] at own
        have own : (v.vnode m).cloned = false := own
        rw [was] at own
        cases own
      · unfold ownCopy
        rw [vnode inUse, links, update_of_ne apart.symm, Function.update_comm other.symm, Function.update_comm apart]
      · unfold ownCopy
        dsimp only
        rw [update_of_ne apart, update_of_ne other.symm]
        exact new.2.1
      · show update _ i _ j = update _ i _ j
        rw [vnode inUse, data, update_of_ne apart.symm]
        by_cases here : j = i
        · rw [here, update_self, update_self]
        · rw [update_of_ne here, update_of_ne here, update_of_ne otherJ]
    refine after.insert_end begins copies ?_
    unfold ownCopy
    rw [setVnode_same, vnode inUse]
  | offline offline _ failure online =>
    rw [andThen, if_neg failure, if_pos failure]
    refine .offline ?_ (fun makes => makes.2.1.online offline) _ failure ?_
    · rintro ⟨-, left | ⟨-, stays, -⟩⟩
      · exact left.online offline
      · exact stays offline
    · unfold giveUp tryDecInode
      split <;> exact online
  | left left i made bytes =>
    obtain ⟨other, unused⟩ := older made
    have kept {m : Nat} (known : m ∈ v.used) : (giveUp { (v.begun fate type blocks).setData i bytes with
        links := update (v.begun fate type blocks).links i 1 } fate blocks).vnode m = v.vnode m := by
      unfold giveUp
      rw [freeVnode_vnode, tryDecInode_vnode]
      exact vnode known
    refine .left ⟨begins, .inl left⟩ _ ?_ (not_restored (i := i) .refl (fun m known => kept known)
      (fun m _ was own => ?_) ?_) _ (by decide : enospc ≠ 0)
    · unfold giveUp tryDecInode
      split <;> rfl
    · rw [was] at own
      cases own
    rw [unused.2.1]
    unfold giveUp tryDecInode
    split
    · show update (update _ i 1) fate.inode _ i ≠ 0
      rw [update_of_ne other, update_self]
      decide
    · show update _ i 1 i ≠ 0
      rw [update_self]
      decide
  | refused fails stays clean code failure =>
    rw [andThen, if_neg failure, if_pos failure]
    exact atOnce.ends begins (fun both => fails both.1) stays clean failure

theorem allocNewVnode_end (inUse : d ∈ v.used) (directory : (v.vnode d).type = .directory) :
    AllocEnd v fate d name type blocks (v.allocNewVnode d name type blocks fate) := by
  unfold allocNewVnode
  have early (r : Volume) (code : Int) (clean : ¬ v.Begins fate type blocks) (restored : Restored v r) (failure : code ≠ 0) :
      AllocEnd v fate d name type blocks (r, code) := .undone (fun left => clean left.1)
      (fun makes => clean makes.1) v r .refl restored code failure
  by_cases fits : v.usageCode blocks blocks = 0
  swap
  · have fails := mt (adjustDiskUsage_success v).mp fits
    rw [andThen, if_neg fails]
    unfold adjustDiskUsage vAdjustDiskUsage
    dsimp only
    rw [if_pos fits]
    exact early _ _ (fun begins => fits begins.1)
      ⟨rfl, fun _ _ => rfl, refund_diskused blocks, refund_free blocks, rfl, fun _ _ => rfl⟩ fits
  rw [adjustDiskUsage_fits v fits, andThen, if_pos rfl]
  by_cases code : (v.addUsage blocks).allocCode type fate = 0
  swap
  · rw [if_pos code]
    exact early _ _ (fun begins => code begins.2.1)
      ⟨rfl, fun _ _ => rfl, refund_diskused blocks, refund_free blocks, rfl, fun _ _ => rfl⟩ code
  rw [if_neg (not_not_intro code)]
  have fresh : v.Fresh type fate.vnode := allocCode_fresh code
  have others {m : Nat} (known : m ∈ v.used) : m ≠ fate.vnode := by
    rintro rfl
    exact fresh.2.1 known
  by_cases made : (v.addUsage blocks).NewInode fate.inode
  · rw [if_pos made, if_neg made.1]
    exact begun_end inUse directory ⟨fits, code, made⟩
  rw [if_neg made, if_pos rfl]
  refine early _ _ (fun begins => made begins.2.2) ⟨Finset.erase_insert fresh.2.1, fun m known => ?_,
    refund_diskused blocks, refund_free blocks, rfl, fun _ _ => rfl⟩ (by decide)
  exact setVnode_other _ (others known) _

end Volume

def Fine (v : Volume) (r : Volume × Int) : Prop := r.2 ≠ 0 → r.1.online = true → ∃ w, Copied v w ∧ Restored w r.1

theorem Fine.of_same (v : Volume) (code : Int) : Fine v (v, code) := fun _ _ => ⟨v, .refl, .refl v⟩

variable {fate : CallFate} {dir fid : Fid} {name : Name} {type : VnodeType} {blocks : Int}

theorem getVolumePackage_online {check : Int} (passed : v.getVolumePackage fid check = 0) : v.online = true := by
  unfold Volume.getVolumePackage at passed
  split at passed
  · rename_i failed
    exact absurd passed failed
  · rename_i known
    exact checkVnode_online (not_not.mp known)

theorem fine_inDirectory {next : Volume × Int} {bad : Prop}
    (rest : v.online = true → dir.vnode ∈ v.used → (v.vnode dir.vnode).type = .directory → (Fine v next ↔ ¬ bad)) :
    Fine v (v.inDirectory dir fate.check next) ↔ ¬ (v.getVolumePackage dir fate.check = 0 ∧ bad) := by
  unfold Volume.inDirectory
  by_cases passed : v.getVolumePackage dir fate.check = 0
  · rw [if_neg (not_not_intro passed)]
    have online := getVolumePackage_online passed
    obtain ⟨inUse, directory⟩ := (Volume.getVolumePackage_dir passed).1
    rw [rest online inUse directory]
    exact not_congr (and_iff_right passed).symm
  · rw [if_pos passed]
    exact iff_of_true (Fine.of_same v _) fun both => passed both.1

variable {rest : Volume → Volume × Int}

theorem fine_creates (short : Prop)
    (last : ∀ w : Volume, w.online = true → fate.vnode ∈ w.used → fate.vnode ∉ v.used → (Fine v (rest w) ↔ ¬ short)) :
    Fine v (if ¬ fileNameOK name then (v, einval)
        else v.inDirectory dir fate.check (andThen (v.allocNewVnode dir.vnode name type blocks fate) rest)) ↔
      ¬ (fileNameOK name = true ∧ v.getVolumePackage dir fate.check = 0 ∧
        (v.LeavesInode fate dir.vnode name type blocks ∨ v.Makes fate dir.vnode name type blocks ∧ short)) := by
  by_cases ok : fileNameOK name = true
  swap
  · rw [if_pos ok]
    exact iff_of_true (Fine.of_same v _) fun all => ok all.1
  rw [if_neg (not_not_intro ok), and_iff_right ok]
  refine fine_inDirectory fun online inUse directory => ?_
  have ended : v.AllocEnd fate dir.vnode name type blocks (v.allocNewVnode dir.vnode name type blocks fate) :=
    Volume.allocNewVnode_end inUse directory
  generalize v.allocNewVnode dir.vnode name type blocks fate = r at ended ⊢
  cases ended with
  | undone clean fails w r copied restored code failure =>
    rw [andThen, if_neg failure]
    exact iff_of_true (fun _ _ => ⟨w, copied, restored⟩) (not_or.mpr ⟨clean, fun both => fails both.1⟩)
  | offline clean fails _ failure offline =>
    rw [andThen, if_neg failure]
    refine iff_of_true (fun _ online => ?_) (not_or.mpr ⟨clean, fun both => fails both.1⟩)
    rw [offline] at online
    cases online
  | left left r online' stray code failure =>
    rw [andThen, if_neg failure]
    exact iff_of_false (fun fine => stray (fine failure (online'.trans online))) (not_not_intro (.inl left))
  | made makes r online' inUse' new =>
    rw [andThen, if_pos rfl]
    rw [last r (online'.trans online) inUse' new]
    refine not_congr ⟨fun short => .inr ⟨makes, short⟩, ?_⟩
    rintro (⟨-, left | ⟨-, -, fails⟩⟩ | ⟨-, short⟩)
    · exact absurd makes.2.1 left.fails
    · exact absurd makes.2 fails
    · exact short

theorem fine_createFile : Fine v (v.createFile dir name fate) ↔ ¬ (fileNameOK name = true ∧
    v.getVolumePackage dir fate.check = 0 ∧ v.LeavesInode fate dir.vnode name .file (nBlocks 0)) := by
  refine (fine_creates False fun w _ _ _ => iff_of_true (fun failure => absurd rfl failure) id).trans ?_
  simp

theorem fine_makeDir : Fine v (v.makeDir dir name fate) ↔ ¬ (fileNameOK name = true ∧
    v.getVolumePackage dir fate.check = 0 ∧ v.LeavesInode fate dir.vnode name .directory Volume.emptyDirBlocks) := by
  refine (fine_creates False fun w _ _ _ => iff_of_true (fun failure => absurd rfl failure) id).trans ?_
  simp

theorem fine_symlink {contents : List UInt8} : Fine v (v.symlink dir name contents fate) ↔ ¬ (fileNameOK name = true ∧
    v.getVolumePackage dir fate.check = 0 ∧ (v.LeavesInode fate dir.vnode name .symlink (nBlocks contents.length) ∨
      v.Makes fate dir.vnode name .symlink (nBlocks contents.length) ∧ fate.opens = true ∧ fate.written = false)) := by
  refine fine_creates _ fun w online inUse new => ?_
  split
  · rename_i unopened
    exact iff_of_true (fun _ online => by cases online) fun both => unopened both.1
  rename_i opens
  split
  · rename_i written
    refine iff_of_true (fun failure => absurd rfl failure) fun both => ?_
    rw [written] at both
    cases both.2
  rename_i short
  refine iff_of_false (fun fine => ?_) (not_not_intro ⟨not_not.mp opens, Bool.eq_false_of_not_eq_true short⟩)
  obtain ⟨u, copied, restored⟩ := fine (by decide : vdiskfull ≠ 0)
    ((Volume.updateParentVnodeStatus_online w dir.vnode (w.vnode dir.vnode).linkCount fate).trans online)
  have used := restored.used
  rw [copied.used] at used
  have kept := Volume.updateParentVnodeStatus_used w dir.vnode (w.vnode dir.vnode).linkCount fate
  exact new ((kept.symm.trans used) ▸ inUse)

def FineOr (v : Volume) (lost : Volume → Prop) (r : Volume × Int) : Prop :=
  r.2 ≠ 0 → r.1.online = true → (∃ w, Copied v w ∧ Restored w r.1) ∨ lost r.1

theorem fineOr_false {r : Volume × Int} : FineOr v (fun _ => False) r ↔ Fine v r := by
  simp [FineOr, Fine]

theorem fineOr_copies {u : Volume} {d : Nat} {lost : Volume → Prop} {next : Volume → Volume × Int} (bad : Prop)
    (before : Copied v u) (online : u.online = true) (inUse : d ∈ u.used) (directory : (u.vnode d).type = .directory)
    (found : (u.copyIfCloned d fate).2 ≠ 0 → ∀ x, ¬ lost x)
    (rest : ∀ w, Copied v w → (w = u ∨ ∃ i, w = u.ownCopy d i) → u.copyIfCloned d fate = (w, 0) →
      (FineOr v lost (next w) ↔ ¬ bad)) :
    FineOr v lost (andThen (u.copyIfCloned d fate) next) ↔ ¬ (u.LeavesCopy d fate ∨ u.Copies d fate ∧ bad) := by
  have copy : u.CopyEnd d fate (u.copyIfCloned d fate) := Volume.copyIfCloned_end directory
  generalize u.copyIfCloned d fate = r at copy found rest ⊢
  have goes {w : Volume} (copies : u.Copies d fate) (copied : Copied v w) (same : w = u ∨ ∃ i, w = u.ownCopy d i)
      (result : r = (w, 0)) :
      FineOr v lost (andThen (w, 0) next) ↔ ¬ (u.LeavesCopy d fate ∨ u.Copies d fate ∧ bad) := by
    rw [andThen, if_pos rfl, rest w copied same result]
    refine not_congr ⟨fun bad => .inr ⟨copies, bad⟩, ?_⟩
    rintro (left | ⟨-, bad⟩)
    · exact absurd copies left.fails
    · exact bad
  cases copy with
  | kept copies own => exact goes copies before (.inl rfl) rfl
  | copied copies cloned i made => exact goes copies (.copy before inUse directory cloned made) (.inr ⟨i, rfl⟩) rfl
  | offline offline _ failure isOffline =>
    rw [andThen, if_neg failure]
    refine iff_of_true (fun _ online => ?_) ?_
    · rw [isOffline] at online
      cases online
    · rintro (left | ⟨copies, -⟩)
      · exact left.online offline
      · exact copies.online offline
  | left left i made bytes =>
    refine iff_of_false (fun fine => ?_) (not_not_intro (.inl left))
    refine (fine (by decide : enospc ≠ 0) online).elim (not_restored (u := u) (i := i) before (fun n _ => ?_)
      (fun n known _ _ => made.2.2 n (before.used ▸ known)) ?_) (found (by decide : enospc ≠ 0) _)
    · rfl
    · show update u.links i 1 i ≠ u.links i
      rw [update_self, made.2.1]
      decide
  | refused fails stays clean code failure =>
    rw [andThen, if_neg failure]
    exact iff_of_true (fun _ _ => .inl ⟨u, before, .refl u⟩) (not_or.mpr ⟨clean, fun both => fails both.1⟩)

theorem fine_copies {d : Nat} {next : Volume → Volume × Int} (bad : Prop) (online : v.online = true) (inUse : d ∈ v.used)
    (directory : (v.vnode d).type = .directory)
    (rest : ∀ w, Copied v w → (w = v ∨ ∃ i, w = v.ownCopy d i) → (Fine v (next w) ↔ ¬ bad)) :
    Fine v (andThen (v.copyIfCloned d fate) next) ↔ ¬ (v.LeavesCopy d fate ∨ v.Copies d fate ∧ bad) := by
  rw [← fineOr_false]
  exact fineOr_copies _ .refl online inUse directory (fun _ _ => id) fun w copied same _ =>
    fineOr_false.trans (rest w copied same)

def Volume.Links (v : Volume) (dir : Fid) (existing : Fid) : Prop :=
  ¬ (dir.vnode % 2 = 1 ∧ existing.vnode % 2 = 1 ∨ dir.vnode = existing.vnode) ∧ v.checkVnode existing = 0 ∧
    (v.vnode existing.vnode).type = .file ∧ (v.vnode existing.vnode).parent = dir.vnode

theorem fine_link {existing : Fid} : Fine v (v.link dir name existing fate) ↔ ¬ (fileNameOK name = true ∧
    v.getVolumePackage dir fate.check = 0 ∧ v.Links dir existing ∧ v.LeavesCopy dir.vnode fate) := by
  unfold Volume.link
  by_cases ok : fileNameOK name = true
  swap
  · rw [if_pos ok]
    exact iff_of_true (Fine.of_same v _) fun all => ok all.1
  rw [if_neg (not_not_intro ok), and_iff_right ok]
  refine fine_inDirectory fun online inUse directory => ?_
  split
  · rename_i bad
    exact iff_of_true (Fine.of_same v _) fun all => all.1.1 bad
  rename_i apart
  split
  · rename_i unknown
    exact iff_of_true (Fine.of_same v _) fun all => unknown all.1.2.1
  rename_i known
  split
  · rename_i other
    exact iff_of_true (Fine.of_same v _) fun all => other all.1.2.2.1
  rename_i isFile
  split
  · rename_i other
    exact iff_of_true (Fine.of_same v _) fun all => other all.1.2.2.2
  rename_i inside
  rw [and_iff_right ⟨apart, not_not.mp known, not_not.mp isFile, not_not.mp inside⟩]
  refine (fine_copies False online inUse directory fun w copied _ => iff_of_true ?_ id).trans (by simp)
  by_cases created : (w.createEntry dir.vnode name existing fate.createCode).2 = 0
  · rw [andThen, if_pos created]
    exact fun failure => absurd rfl failure
  rw [andThen, if_neg created]
  intro _ _
  rw [Volume.createEntry_same created]
  exact ⟨w, copied, .refl w⟩

def Volume.Removes (v : Volume) (d : Nat) (name : Name) (mustBeDir : Bool) (fid : Fid) : Prop :=
  v.lookup d name = some fid ∧ fid.vnode ≠ d ∧ fid.vnode ∈ v.used ∧
    (mustBeDir = true ↔ (v.vnode fid.vnode).type = .directory) ∧ (v.vnode fid.vnode).unique = fid.unique ∧
    (mustBeDir = true → v.isEmpty fid.vnode = true)

/-- The last name of something goes, and the blocks that are given back come out as a charge, for which there is no room. -/
def Volume.Overcharges (v : Volume) (n : Nat) (mustBeDir : Bool) (fate : CallFate) : Prop :=
  (mustBeDir = true ∨ (v.vnode n).linkCount = 1) ∧ ((v.vnode n).inode = 0 ∨ fate.decrements = true) ∧
    v.usageCode (-(nBlocks (v.vnode n).length).bmod (2 ^ 32)) 0 ≠ 0

/-- A removal leaves a copy of its directory, or is refused for the blocks it gives back. -/
def Volume.RemoveLeaves (v : Volume) (dir : Fid) (name : Name) (mustBeDir : Bool) (fate : CallFate) : Prop :=
  v.getVolumePackage dir fate.check = 0 ∧ ¬ Dots name ∧ (v.LeavesCopy dir.vnode fate ∨ v.Copies dir.vnode fate ∧
    ∃ fid, v.Removes dir.vnode name mustBeDir fid ∧ v.Overcharges fid.vnode mustBeDir fate)

theorem fine_unlinkTarget {d n : Nat} {mustBeDir : Bool} (copied : Copied v w)
    (online : w.online = true) (inUse : n ∈ w.used) (succeeds : ∀ u, (rest u).2 = 0) :
    Fine v (andThen (w.unlinkTarget d name n mustBeDir fate) rest) ↔ ¬ w.Overcharges n mustBeDir fate := by
  have done (u : Volume) : Fine v (andThen (u, 0) rest) := by
    exact fun failure => absurd (succeeds u) failure
  have lowered : (if mustBeDir then w else w.setLinkCount n ((w.vnode n).linkCount - 1)).vnode n =
      { w.vnode n with linkCount := if mustBeDir then (w.vnode n).linkCount else (w.vnode n).linkCount - 1 } := by
    cases mustBeDir
    · exact Volume.setVnode_same w n _
    · rfl
  have same : (if mustBeDir then w else w.setLinkCount n ((w.vnode n).linkCount - 1)).online = w.online ∧
      (if mustBeDir then w else w.setLinkCount n ((w.vnode n).linkCount - 1)).used = w.used ∧
      ∀ blocks, (if mustBeDir then w else w.setLinkCount n ((w.vnode n).linkCount - 1)).usageCode blocks 0 =
        w.usageCode blocks 0 := by
    cases mustBeDir <;> exact ⟨rfl, rfl, fun _ => rfl⟩
  have last : (mustBeDir = true ∨ (if mustBeDir = true then (w.vnode n).linkCount else (w.vnode n).linkCount - 1) = 0) ↔
      mustBeDir = true ∨ (w.vnode n).linkCount = 1 := by
    cases mustBeDir <;> simp [sub_eq_zero]
  unfold Volume.unlinkTarget Volume.Overcharges
  dsimp only
  rw [lowered]
  generalize (if mustBeDir then w else w.setLinkCount n ((w.vnode n).linkCount - 1)) = w₁ at same ⊢
  obtain ⟨online', used, codes⟩ := same
  by_cases isLast : mustBeDir = true ∨ (w.vnode n).linkCount = 1
  swap
  · rw [if_neg (mt last.mp isLast)]
    exact iff_of_true (done _) fun all => isLast all.1
  rw [if_pos (last.mpr isLast), and_iff_right isLast]
  by_cases stuck : (w.vnode n).inode ≠ 0 ∧ ¬ fate.decrements = true
  · rw [if_pos stuck, andThen, if_neg (by decide : eio ≠ 0)]
    refine iff_of_true (fun _ online => by cases online) fun all => ?_
    exact all.1.elim stuck.1 stuck.2
  have lowers : (w.vnode n).inode = 0 ∨ fate.decrements = true := by
    by_contra neither
    exact stuck (not_or.mp neither)
  rw [if_neg stuck, and_iff_right lowers]
  change Fine v (andThen (Volume.freeVnode (Volume.deleteEntry _ d name) n,
    w₁.usageCode (-(nBlocks (w.vnode n).length).bmod (2 ^ 32)) 0) rest) ↔ _
  rw [codes]
  by_cases fits : w.usageCode (-(nBlocks (w.vnode n).length).bmod (2 ^ 32)) 0 = 0
  · rw [fits]
    exact iff_of_true (done _) (not_not_intro rfl)
  rw [andThen, if_neg fits]
  refine iff_of_false (fun fine => ?_) (not_not_intro fits)
  obtain ⟨u, copied', restored⟩ := fine fits (online'.trans online)
  have kept := restored.used
  rw [copied'.used, ← copied.used] at kept
  rw [← kept] at inUse
  exact Finset.notMem_erase n _ inUse

theorem andThen_assoc (r : Volume × Int) (f g : Volume → Volume × Int) :
    andThen (andThen r f) g = andThen r fun v => andThen (f v) g := by
  unfold andThen
  split
  · rfl
  · rfl

theorem fine_remove {mustBeDir : Bool} (succeeds : ∀ u, (rest u).2 = 0) :
    Fine v (v.inDirectory dir fate.check (andThen (v.deleteTarget dir.vnode name mustBeDir fate) rest)) ↔
      ¬ v.RemoveLeaves dir name mustBeDir fate := by
  refine fine_inDirectory fun online inUse directory => ?_
  unfold Volume.deleteTarget
  by_cases dots : Dots name
  · rw [if_pos dots, andThen, if_neg (by decide : einval ≠ 0)]
    exact iff_of_true (Fine.of_same v _) fun all => all.1 dots
  rw [if_neg dots, and_iff_right dots, andThen_assoc]
  refine fine_copies _ online inUse directory fun w copied same => ?_
  have entries : (w.vnode dir.vnode).entries = (v.vnode dir.vnode).entries := by
    obtain rfl | ⟨i, rfl⟩ := same
    · rfl
    · unfold Volume.ownCopy
      rw [Volume.setVnode_same]
  have others : ∀ m, m ≠ dir.vnode → w.vnode m = v.vnode m := by
    obtain rfl | ⟨i, rfl⟩ := same
    · exact fun _ _ => rfl
    · intro m other
      exact Volume.setVnode_other _ other _
  have kept : w.used = v.used ∧ w.online = v.online ∧ ∀ blocks, w.usageCode blocks 0 = v.usageCode blocks 0 := by
    obtain rfl | ⟨i, rfl⟩ := same <;> exact ⟨rfl, rfl, fun _ => rfl⟩
  have stops (code : Int) (failure : code ≠ 0) : Fine v (andThen (w, code) rest) := by
    rw [andThen, if_neg failure]
    exact fun _ _ => ⟨w, copied, .refl w⟩
  have looked : w.lookup dir.vnode name = v.lookup dir.vnode name := by
    unfold Volume.lookup
    rw [entries]
  rw [looked]
  cases found : v.lookup dir.vnode name with
  | none =>
    refine iff_of_true (stops enoent (by decide)) ?_
    rintro ⟨fid, removes, -⟩
    have looked := removes.1
    rw [found] at looked
    cases looked
  | some fid =>
    have alone (bad : ¬ v.Removes dir.vnode name mustBeDir fid) :
        ¬ ∃ fid, v.Removes dir.vnode name mustBeDir fid ∧ v.Overcharges fid.vnode mustBeDir fate := by
      rintro ⟨fid', removes, -⟩
      obtain rfl : fid = fid' := Option.some_inj.mp (found.symm.trans removes.1)
      exact bad removes
    dsimp only
    split
    · rename_i isDir
      exact iff_of_true (stops einval (by decide)) (alone fun removes => removes.2.1 isDir)
    rename_i apart
    rw [kept.1]
    split
    · rename_i unused
      exact iff_of_true (stops vnovnode (by decide)) (alone fun removes => unused removes.2.2.1)
    rename_i known
    rw [others fid.vnode apart]
    split
    · rename_i bad
      exact iff_of_true (stops enotdir (by decide)) (alone fun removes => bad.2 (removes.2.2.2.1.mp bad.1))
    rename_i kind
    split
    · rename_i bad
      exact iff_of_true (stops eisdir (by decide)) (alone fun removes => bad.1 (removes.2.2.2.1.mpr bad.2))
    rename_i kind'
    split
    · rename_i bad
      refine iff_of_true ?_ (alone fun removes => bad removes.2.2.2.2.1)
      exact fun _ online => by cases online
    rename_i unique
    have empty : w.isEmpty fid.vnode = v.isEmpty fid.vnode := by
      unfold Volume.isEmpty
      rw [others fid.vnode apart]
    rw [empty]
    split
    · rename_i bad
      exact iff_of_true (stops eexist (by decide)) (alone fun removes => bad.2 (removes.2.2.2.2.2 bad.1))
    rename_i isEmpty
    rw [fine_unlinkTarget copied (kept.2.1.trans online) (kept.1 ▸ not_not.mp known) succeeds]
    have charges : w.Overcharges fid.vnode mustBeDir fate ↔ v.Overcharges fid.vnode mustBeDir fate := by
      unfold Volume.Overcharges
      rw [others fid.vnode apart, kept.2.2]
    rw [charges]
    refine not_congr ⟨fun charges => ⟨fid, ⟨found, apart, not_not.mp known, ⟨fun isDir => ?_, fun isDir => ?_⟩,
      not_not.mp unique, fun isDir => ?_⟩, charges⟩, ?_⟩
    · by_contra other
      exact kind ⟨isDir, other⟩
    · by_contra other
      exact kind' ⟨other, isDir⟩
    · by_contra full
      exact isEmpty ⟨isDir, full⟩
    · rintro ⟨fid', removes, charges⟩
      obtain rfl : fid = fid' := Option.some_inj.mp (found.symm.trans removes.1)
      exact charges

section Rename

variable {oldDir newDir : Fid} {oldName newName : Name}

theorem renamePrepare_ok_iff {fileFid : Fid} {newFileFid : Option Fid} :
    v.renamePrepare oldDir oldName newDir newName fate = .ok (w, fileFid, newFileFid) ↔
      fileNameOK newName = true ∧ ¬ (Dots oldName ∨ Dots newName ∨ newName = [] ∨ oldName = []) ∧
        v.renamePackages oldDir newDir fate.check = 0 ∧ ∃ v₁ v₂, v.copyIfCloned oldDir.vnode fate = (v₁, 0) ∧
        v₁.copyIfCloned newDir.vnode fate = (v₂, 0) ∧
        v₂.renameChecks oldDir.vnode newDir.vnode oldName newName fate.replaceCheck = .ok (fileFid, newFileFid) ∧
        (if (v₂.vnode fileFid.vnode).type = .directory then v₂.copyIfCloned fileFid.vnode fate else (v₂, 0)) = (w, 0) := by
  have pair (r : Volume × Int) (u : Volume) : r.2 = 0 ∧ r.1 = u ↔ r = (u, 0) := by
    rw [Prod.ext_iff, and_comm]
  constructor
  · intro prepared
    obtain ⟨ok, prepared⟩ := ensure_then.mp prepared
    obtain ⟨plain, prepared⟩ := ensure_then.mp prepared
    obtain ⟨passed, prepared⟩ := ensure_then.mp prepared
    obtain ⟨v₁, first, prepared⟩ := except_bind_eq_ok.mp prepared
    obtain ⟨v₂, second, prepared⟩ := except_bind_eq_ok.mp prepared
    obtain ⟨⟨fileFid', newFileFid'⟩, checked, prepared⟩ := except_bind_eq_ok.mp prepared
    obtain ⟨v₃, third, done⟩ := except_bind_eq_ok.mp prepared
    cases done
    refine ⟨ok, plain, passed, v₁, v₂, (pair _ _).mp (Volume.proceed_ok.mp first), (pair _ _).mp (Volume.proceed_ok.mp second),
      ?_, (pair _ _).mp (Volume.proceed_ok.mp third)⟩
    cases checks : v₂.renameChecks oldDir.vnode newDir.vnode oldName newName fate.replaceCheck with
    | error refusal => rw [checks] at checked; cases checked
    | ok found => rw [checks] at checked; cases checked; rfl
  · rintro ⟨ok, plain, passed, v₁, v₂, first, second, checks, third⟩
    refine ensure_then.mpr ⟨ok, ensure_then.mpr ⟨plain, ensure_then.mpr ⟨passed, ?_⟩⟩⟩
    refine except_bind_eq_ok.mpr ⟨v₁, Volume.proceed_ok.mpr ((pair _ _).mpr first), ?_⟩
    refine except_bind_eq_ok.mpr ⟨v₂, Volume.proceed_ok.mpr ((pair _ _).mpr second), ?_⟩
    refine except_bind_eq_ok.mpr ⟨(fileFid, newFileFid), by rw [checks]; rfl, ?_⟩
    exact except_bind_eq_ok.mpr ⟨w, Volume.proceed_ok.mpr ((pair _ _).mpr third), rfl⟩

/-- A rename leaves a copy of one of its directories, or of the directory it would move. -/
def Volume.RenameLeaves (v : Volume) (oldDir : Fid) (oldName : Name) (newDir : Fid) (newName : Name) (fate : CallFate) : Prop :=
  fileNameOK newName = true ∧ ¬ (Dots oldName ∨ Dots newName ∨ newName = [] ∨ oldName = []) ∧
    v.renamePackages oldDir newDir fate.check = 0 ∧
    (v.LeavesCopy oldDir.vnode fate ∨ v.Copies oldDir.vnode fate ∧
      ∃ v₁, v.copyIfCloned oldDir.vnode fate = (v₁, 0) ∧ (v₁.LeavesCopy newDir.vnode fate ∨ v₁.Copies newDir.vnode fate ∧
        ∃ v₂, v₁.copyIfCloned newDir.vnode fate = (v₂, 0) ∧ ∃ found,
          v₂.renameChecks oldDir.vnode newDir.vnode oldName newName fate.replaceCheck = .ok found ∧
            (v₂.vnode found.1.vnode).type = .directory ∧ v₂.LeavesCopy found.1.vnode fate))

theorem Copied.online (copied : Copied v w) : w.online = v.online := by
  induction copied with
  | refl => rfl
  | copy _ _ _ _ _ ih => exact ih

theorem Copied.node_type (copied : Copied v w) (n : Nat) : (w.vnode n).type = (v.vnode n).type := by
  induction copied with
  | refl => rfl
  | @copy w m i _ _ _ _ _ ih =>
    rw [← ih]
    unfold Volume.ownCopy
    by_cases same : n = m
    · rw [same, Volume.setVnode_same]
    · rw [Volume.setVnode_other _ same]
      rfl

theorem renamePackages_online {check : Int} (passed : v.renamePackages oldDir newDir check = 0) : v.online = true := by
  unfold Volume.renamePackages at passed
  split at passed
  · exact getVolumePackage_online passed
  split at passed
  split at passed
  · rename_i failed
    exact absurd passed failed
  · exact getVolumePackage_online passed

theorem renameChecks_used {old new : Nat} {replaceCheck : Int} {found : Fid × Option Fid}
    (checks : v.renameChecks old new oldName newName replaceCheck = .ok found) : found.1.vnode ∈ v.used := by
  obtain ⟨found', looked, rest⟩ := except_bind_eq_ok.mp checks
  obtain ⟨-, -, same⟩ := except_bind_eq_ok.mp rest
  cases same
  unfold Volume.renameLookup at looked
  cases known : v.lookup old oldName with
  | none => rw [known] at looked; cases looked
  | some fileFid =>
    rw [known] at looked
    obtain ⟨-, looked⟩ := ensure_then.mp looked
    obtain ⟨inUse, looked⟩ := ensure_then.mp looked
    obtain ⟨-, looked⟩ := ensure_then.mp looked
    obtain ⟨-, looked⟩ := ensure_then.mp looked
    cases second : v.lookup new newName with
    | none =>
      rw [second] at looked
      cases looked
      exact inUse
    | some newFid =>
      rw [second] at looked
      obtain ⟨-, looked⟩ := ensure_then.mp looked
      obtain ⟨-, looked⟩ := ensure_then.mp looked
      obtain ⟨-, looked⟩ := ensure_then.mp looked
      obtain ⟨-, looked⟩ := ensure_then.mp looked
      obtain ⟨-, looked⟩ := ensure_then.mp looked
      obtain ⟨-, looked⟩ := ensure_then.mp looked
      cases looked
      exact inUse

theorem fineOr_moveEntry {fileFid : Fid} {newFileFid : Option Fid} (copied : Copied v w)
    (prepared : v.renamePrepare oldDir oldName newDir newName fate = .ok (w, fileFid, newFileFid)) :
    FineOr v (fun x => LosesName v x fate (.rename oldDir oldName newDir newName))
      ((newFileFid.elim w fun fid => w.replaceTarget newDir.vnode newName fid.vnode).moveEntry oldDir.vnode oldName newDir
        newName fileFid fate) := by
  intro failure _
  unfold Volume.moveEntry at failure ⊢
  dsimp only at failure ⊢
  unfold andThen at failure ⊢
  split at failure
  · exact absurd rfl failure
  rename_i inserts
  rw [if_neg inserts, Volume.createEntry_same inserts]
  cases newFileFid with
  | none => exact .inl ⟨w, copied, .refl w⟩
  | some fid => exact .inr ⟨w, fileFid, fid, copied, prepared, rfl⟩

theorem only_result {r : Volume × Int} {P : Volume → Prop} (result : r = (w, 0)) : (∃ u, r = (u, 0) ∧ P u) ↔ P w := by
  constructor
  · rintro ⟨u, same, holds⟩
    rw [result] at same
    cases same
    exact holds
  · exact fun holds => ⟨w, result, holds⟩

theorem fine_rename : FineOr v (fun x => LosesName v x fate (.rename oldDir oldName newDir newName))
    (v.rename oldDir oldName newDir newName fate) ↔ ¬ v.RenameLeaves oldDir oldName newDir newName fate := by
  rw [rename_eq]
  unfold Volume.RenameLeaves
  have early (code : Int) : FineOr v (fun x => LosesName v x fate (.rename oldDir oldName newDir newName)) (v, code) :=
    fun _ _ => .inl ⟨v, .refl, .refl v⟩
  by_cases ok : fileNameOK newName = true
  swap
  · rw [if_pos ok]
    exact iff_of_true (early _) fun all => ok all.1
  rw [if_neg (not_not_intro ok), and_iff_right ok]
  by_cases plain : Dots oldName ∨ Dots newName ∨ newName = [] ∨ oldName = []
  · rw [if_pos plain]
    exact iff_of_true (early _) fun all => all.1 plain
  rw [if_neg plain, and_iff_right plain]
  by_cases passed : v.renamePackages oldDir newDir fate.check = 0
  swap
  · rw [if_pos passed]
    exact iff_of_true (early _) fun all => passed all.1
  rw [if_neg (not_not_intro passed), and_iff_right passed]
  obtain ⟨oldIs, newIs⟩ := Volume.renamePackages_dirs passed
  have online := renamePackages_online passed
  refine fineOr_copies _ .refl online oldIs.1 oldIs.2 (fun failure x lost => ?_) fun v₁ copied₁ _ first => ?_
  · obtain ⟨w, fileFid, newFileFid, -, prepared, -⟩ := lost
    obtain ⟨-, -, -, v₁, v₂, first, -⟩ := renamePrepare_ok_iff.mp prepared
    exact failure (congrArg Prod.snd first)
  rw [only_result first]
  refine fineOr_copies _ copied₁ (copied₁.online.trans online) (copied₁.used ▸ newIs.1)
    ((copied₁.node_type _).trans newIs.2) (fun failure x lost => ?_) fun v₂ copied₂ _ second => ?_
  · obtain ⟨w, fileFid, newFileFid, -, prepared, -⟩ := lost
    obtain ⟨-, -, -, u₁, u₂, first', second, -⟩ := renamePrepare_ok_iff.mp prepared
    rw [first] at first'
    cases first'
    exact failure (congrArg Prod.snd second)
  rw [only_result second]
  cases checks : v₂.renameChecks oldDir.vnode newDir.vnode oldName newName fate.replaceCheck with
  | error refusal =>
    refine iff_of_true (fun _ online => .inl ⟨v₂, copied₂, ?_⟩) ?_
    · unfold Volume.refuse at online ⊢
      dsimp only at online ⊢
      split at online
      · cases online
      · rename_i stays
        rw [if_neg stays]
        exact .refl v₂
    · rintro ⟨found, same, -⟩
      cases same
  | ok found =>
    obtain ⟨fileFid, newFileFid⟩ := found
    dsimp only
    by_cases isDir : (v₂.vnode fileFid.vnode).type = .directory
    · rw [if_pos isDir]
      refine (fineOr_copies False copied₂ (copied₂.online.trans online) (renameChecks_used checks) isDir
        (fun failure x lost => ?_) fun v₃ copied₃ _ third => iff_of_true ?_ id).trans ?_
      · obtain ⟨w, fileFid', newFileFid', -, prepared, -⟩ := lost
        obtain ⟨-, -, -, u₁, u₂, first', second', checks', third⟩ := renamePrepare_ok_iff.mp prepared
        rw [first] at first'
        cases first'
        rw [second] at second'
        cases second'
        rw [checks] at checks'
        cases checks'
        rw [if_pos isDir] at third
        exact failure (congrArg Prod.snd third)
      · exact fineOr_moveEntry copied₃ (renamePrepare_ok_iff.mpr ⟨ok, plain, passed, v₁, v₂, first, second, checks,
          by rw [if_pos isDir]; exact third⟩)
      · refine not_congr ⟨?_, ?_⟩
        · rintro (left | ⟨-, false⟩)
          · exact ⟨_, rfl, isDir, left⟩
          · exact false.elim
        · rintro ⟨found, same, -, left⟩
          cases same
          exact .inl left
    · rw [if_neg isDir, andThen, if_pos rfl]
      refine iff_of_true (fineOr_moveEntry copied₂ (renamePrepare_ok_iff.mpr ⟨ok, plain, passed, v₁, v₂, first, second, checks,
        if_neg isDir⟩)) ?_
      rintro ⟨found, same, isDir', -⟩
      cases same
      exact isDir isDir'

end Rename

/-- A call fails and leaves something behind: an inode that cannot be removed, a symbolic link whose contents do not fit on
the disk, or a removal that is refused for the blocks it gives back. -/
def Volume.LeavesBehind (v : Volume) (fate : CallFate) : Call → Prop
  | .createFile dir name => fileNameOK name = true ∧ v.getVolumePackage dir fate.check = 0 ∧
      v.LeavesInode fate dir.vnode name .file (nBlocks 0)
  | .makeDir dir name => fileNameOK name = true ∧ v.getVolumePackage dir fate.check = 0 ∧
      v.LeavesInode fate dir.vnode name .directory Volume.emptyDirBlocks
  | .symlink dir name contents => fileNameOK name = true ∧ v.getVolumePackage dir fate.check = 0 ∧
      (v.LeavesInode fate dir.vnode name .symlink (nBlocks contents.length) ∨
        v.Makes fate dir.vnode name .symlink (nBlocks contents.length) ∧ fate.opens = true ∧ fate.written = false)
  | .link dir name existing => fileNameOK name = true ∧ v.getVolumePackage dir fate.check = 0 ∧ v.Links dir existing ∧
      v.LeavesCopy dir.vnode fate
  | .removeFile dir name => v.RemoveLeaves dir name false fate
  | .removeDir dir name => v.RemoveLeaves dir name true fate
  | .rename oldDir oldName newDir newName => v.RenameLeaves oldDir oldName newDir newName fate

theorem fineOr_call (call : Call) :
    FineOr v (fun x => LosesName v x fate call) (v.call fate call) ↔ ¬ v.LeavesBehind fate call := by
  cases call with
  | createFile dir name => exact fineOr_false.trans fine_createFile
  | makeDir dir name => exact fineOr_false.trans fine_makeDir
  | symlink dir name contents => exact fineOr_false.trans fine_symlink
  | link dir name existing => exact fineOr_false.trans fine_link
  | removeFile dir name => exact fineOr_false.trans (fine_remove fun _ => rfl)
  | removeDir dir name => exact fineOr_false.trans (fine_remove fun _ => rfl)
  | rename oldDir oldName newDir newName => exact fine_rename

/-- Every reference that a call takes is put back once. A call that fails changes nothing exactly if it leaves nothing
behind. -/
theorem failing_call_undone (v : Volume) (fate : CallFate) (call : Call) :
    ((safss v fate call).1.taken = (safss v fate call).1.putBack ∧
      ((safss v fate call).2 ≠ 0 → (safss v fate call).1.volume.online = true →
        Undone v (safss v fate call).1.volume fate call)) ↔ ¬ v.LeavesBehind fate call := by
  have served := safss_served v fate call
  rw [and_iff_right served.settled, ← fineOr_call]
  constructor
  · intro undone failure online
    rw [← served.volume online]
    exact undone (served.code ▸ failure) (served.online.trans online)
  intro fine failure online
  have online' : (v.call fate call).1.online = true := served.online.symm.trans online
  rw [served.volume online']
  exact fine (served.code ▸ failure) online'

def shortWrite : CallFate := { vnode := 2, inode := 2, written := false }

/-- The new vnode stays, with its name. -/
theorem short_symlink_stays : ¬ ∀ (v : Volume) (fate : CallFate) (call : Call),
    (safss v fate call).1.taken = (safss v fate call).1.putBack ∧
      ((safss v fate call).2 ≠ 0 → (safss v fate call).1.volume.online = true →
        Undone v (safss v fate call).1.volume fate call) := by
  intro all
  have undone := (all Volume.smallRoot shortWrite (.symlink ⟨1, 1⟩ [97] [98])).2 (by decide +kernel) (by decide +kernel)
  rcases undone with ⟨w, copied, restored⟩ | lost
  · have used := restored.used.trans copied.used
    exact absurd used (by decide +kernel)
  · exact lost

end OpenAFS.Viced
