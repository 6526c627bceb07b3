import OpenAFS.Viced.Transfer

namespace OpenAFS.Viced

open Lib

variable {v : Volume} {o : Options} {n : Nat} {req : StoreRequest} {check : Int} {fate : StoreFate}

def Private (v : Volume) (n : Nat) (fate : StoreFate) : Prop :=
  v.links (v.vnode n).inode = 1 ∨ ¬ (0 < nBlocks (v.vnode n).length ∧ fate.freeBefore - nBlocks (v.vnode n).length < 0) ∧
      (∃ inode, fate.copy = .copied inode ∧ inode ≠ 0 ∧ v.links inode = 0) ∧ fate.reopens

def freeThen (v : Volume) (n : Nat) (fate : StoreFate) : Int :=
  if v.links (v.vnode n).inode = 1 then v.free else fate.freeAfter

structure OwnInode (v : Volume) (n : Nat) (fate : StoreFate) (v' : Volume) : Prop where
  data : v'.data (v'.vnode n).inode = v.data (v.vnode n).inode
  length : (v'.vnode n).length = (v.vnode n).length
  own : ¬ 2 ≤ v.links (v'.vnode n).inode
  others : ∀ i, 2 ≤ v.links i → v'.data i = v.data i
  free : v'.free = freeThen v n fate
  diskused : v'.diskused = v.diskused
  maxquota : v'.maxquota = v.maxquota

theorem Volume.diskUsage_success {blocks : Int} : (v.diskUsage blocks).2 = 0 ↔ ¬ (0 < blocks ∧ v.free - blocks < 0) := by
  unfold diskUsage
  split
  · rename_i none
    exact iff_of_false (show vdiskfull ≠ 0 by decide) (not_not_intro none)
  · rename_i some
    exact iff_of_true rfl some

theorem Volume.copyOnWrite_success {copy : CopyFate} (present : (v.vnode n).inode ≠ 0)
    (agree : (v.vnode n).length = (v.data (v.vnode n).inode).length) :
    (v.copyOnWrite n copy).2 = 0 ↔ ∃ inode, copy = .copied inode ∧ inode ≠ 0 ∧ v.links inode = 0 := by
  unfold copyOnWrite
  cases copy with
  | noMemory => simp [eio]
  | openFails errno positive => simp [present]; omega
  | noInode => simp [present, enospc]
  | full inode written removed =>
    dsimp only
    rw [if_neg present]
    split
    · simp [enospc]
    · split <;> simp [enospc]
  | broken => simp [present, eio]
  | copied inode =>
    dsimp only
    rw [if_neg present]
    split
    · rename_i bad
      refine iff_of_false (by simp [enospc]) ?_
      rintro ⟨other, same, some, unused⟩
      cases same
      exact bad.elim some fun used => used unused
    · rename_i good
      push Not at good
      rw [if_neg (by omega)]
      exact iff_of_true rfl ⟨inode, rfl, good⟩

theorem Volume.copyOnWrite_copied {inode : Nat} (present : (v.vnode n).inode ≠ 0) (some : inode ≠ 0)
    (unused : v.links inode = 0) (agree : (v.vnode n).length = (v.data (v.vnode n).inode).length) :
    v.copyOnWrite n (.copied inode) =
      ({ (v.setData inode (v.data (v.vnode n).inode)).setVnode n { v.vnode n with inode, cloned := false } with
        links := Function.update (Function.update v.links inode 1) (v.vnode n).inode (v.links (v.vnode n).inode - 1) }, 0) := by
  unfold copyOnWrite
  dsimp only
  rw [if_neg present, if_neg (by simp [some, unused]), if_neg (by omega), List.take_of_length_le agree.ge]

theorem privateCopy_own (present : (v.vnode n).inode ≠ 0)
    (agree : (v.vnode n).length = (v.data (v.vnode n).inode).length) (private' : Private v n fate) :
    OwnInode v n fate (privateCopy v n fate).1 := by
  by_cases own : v.links (v.vnode n).inode = 1
  · unfold privateCopy
    rw [if_pos own]
    exact
      { data := rfl
        length := rfl
        own := by rw [own]; decide
        others := fun i shared => rfl
        free := (if_pos own).symm
        diskused := rfl
        maxquota := rfl }
  obtain ⟨room, ⟨inode, copied, some, unused⟩, reopens⟩ := private'.resolve_left own
  have fits : (v.setFree fate.freeBefore).diskUsage (nBlocks (v.vnode n).length) =
      (v.setFree (fate.freeBefore - nBlocks (v.vnode n).length), 0) := if_neg room
  have copy := Volume.copyOnWrite_copied (v := v.setFree (fate.freeBefore - nBlocks (v.vnode n).length)) present
    some unused agree
  unfold privateCopy
  rw [if_neg own, fits, copied, andThen, if_pos rfl]
  rw [copy, andThen, if_pos rfl]
  exact
    { data := by simp [Volume.setFree, Volume.setVnode, Volume.setData]
      length := by simp [Volume.setFree, Volume.setVnode, Volume.setData]
      own := by simp [Volume.setFree, Volume.setVnode, Volume.setData, unused]
      others := fun i shared => by
        have other : i ≠ inode := by rintro rfl; omega
        exact Function.update_of_ne other _ _
      free := (if_neg own).symm
      diskused := rfl
      maxquota := rfl }

theorem privateCopy_success (present : (v.vnode n).inode ≠ 0) (agree : (v.vnode n).length = (v.data (v.vnode n).inode).length) :
    (privateCopy v n fate).2 = 0 ↔ Private v n fate := by
  unfold privateCopy Private
  split
  · rename_i own
    exact iff_of_true rfl (.inl own)
  rename_i shared
  rw [andThen_success, Volume.diskUsage_success, or_iff_right shared]
  refine and_congr_right fun room => ?_
  unfold Volume.diskUsage
  rw [if_neg room, andThen_success]
  refine and_congr (Volume.copyOnWrite_success present agree) ?_
  split
  · rename_i reopens
    exact iff_of_true rfl reopens
  · rename_i fails
    exact iff_of_false (show enoent ≠ 0 by decide) fails

def adjustSize (v : Volume) (n : Nat) (req : StoreRequest) : Int :=
  nBlocks (newLength req (v.data (v.vnode n).inode).length) - nBlocks (v.vnode n).length

structure Begins (v : Volume) (o : Options) (n : Nat) (req : StoreRequest) (check : Int) (fate : StoreFate) : Prop where
  allowed : check = 0
  used : n ∈ v.used
  file : (v.vnode n).type = .file
  pos : req.pos ≠ 2 ^ 64 - 1
  present : (v.vnode n).inode ≠ 0
  opens : fate.opens
  stats : fate.stats
  own : Private v n fate
  fits : (v.setFree (freeThen v n fate)).usageCode (adjustSize v n req) (adjustSize v n req - v.spareComp o) = 0

variable {v' : Volume}

theorem Volume.usageCode_congr {v : Volume} (free : v'.free = v.free) (maxquota : v'.maxquota = v.maxquota)
    (diskused : v'.diskused = v.diskused) (blocks checkBlocks : Int) :
    v'.usageCode blocks checkBlocks = v.usageCode blocks checkBlocks := by
  unfold usageCode
  rw [free, maxquota, diskused]

theorem OwnInode.usageCode (own : OwnInode v n fate v') (blocks checkBlocks : Int) :
    v'.usageCode blocks checkBlocks = (v.setFree (freeThen v n fate)).usageCode blocks checkBlocks := by
  refine Volume.usageCode_congr ?_ ?_ ?_ blocks checkBlocks
  · exact own.free
  · exact own.maxquota
  · exact own.diskused

theorem OwnInode.charged (own : OwnInode v n fate v') (charge blocks : Int) :
    (v'.addUsage charge).usageCode blocks 0 = ((v.setFree (freeThen v n fate)).addUsage charge).usageCode blocks 0 := by
  refine Volume.usageCode_congr ?_ ?_ ?_ blocks 0
  · exact congrArg (· - charge) own.free
  · exact own.maxquota
  · exact congrArg (· + BitVec.ofInt 32 charge) own.diskused

theorem OwnInode.spareComp (own : OwnInode v n fate v') : v'.spareComp o = v.spareComp o := by
  unfold Volume.spareComp
  rw [own.maxquota]

theorem commonStoreData64_begins (agree : (v.vnode n).length = (v.data (v.vnode n).inode).length)
    (success : (commonStoreData64 v o n req check fate).2 = 0) : Begins v o n req check fate := by
  obtain ⟨allowed, success⟩ := (check_success id).mp success
  obtain ⟨used, success⟩ := (check_success fun _ => show vnovnode ≠ 0 by decide).mp success
  obtain ⟨file, success⟩ := (check_success fun _ => show eisdir ≠ 0 by decide).mp success
  obtain ⟨absent, success⟩ := (check_success fun _ => show enoent ≠ 0 by decide).mp success
  obtain ⟨opens, success⟩ := (check_success fun _ => show enoent ≠ 0 by decide).mp success
  obtain ⟨stats, success⟩ := (check_success fun _ => show eio ≠ 0 by decide).mp success
  obtain ⟨copied, stored⟩ := andThen_success.mp success
  push Not at absent
  have own := (privateCopy_success absent.2 agree).mp copied
  have copy := privateCopy_own absent.2 agree own
  obtain ⟨fits, -⟩ := andThen_success.mp stored
  rw [Volume.adjustDiskUsage_success, copy.usageCode, copy.spareComp, copy.length] at fits
  exact
    { allowed := not_not.mp allowed
      used := not_not.mp used
      file := not_not.mp file
      pos := absent.1
      present := absent.2
      opens := not_not.mp opens
      stats := not_not.mp stats
      own
      fits }

theorem Begins.commonStoreData64 (agree : (v.vnode n).length = (v.data (v.vnode n).inode).length)
    (begins : Begins v o n req check fate) :
    commonStoreData64 v o n req check fate = finishStore o n req fate (newLength req (v.data (v.vnode n).inode).length)
        ((privateCopy v n fate).1.addUsage (adjustSize v n req)) := by
  have copied := (privateCopy_success begins.present agree).mpr begins.own
  have copy := privateCopy_own begins.present agree begins.own
  have fits := begins.fits
  rw [← copy.usageCode, ← copy.spareComp (o := o)] at fits
  unfold Viced.commonStoreData64 storeDataRXStyle
  rw [if_neg (not_not_intro begins.allowed), if_neg (not_not_intro begins.used), if_neg (not_not_intro begins.file),
    if_neg (not_or.mpr ⟨begins.pos, begins.present⟩), if_neg (not_not_intro begins.opens),
    if_neg (not_not_intro begins.stats), andThen, if_pos copied]
  unfold storeData
  dsimp only
  rw [copy.length, ← adjustSize, Volume.adjustDiskUsage_fits _ fits, andThen, if_pos rfl]

structure Stored (v v' : Volume) (n : Nat) (req : StoreRequest) (stream : List UInt8) : Prop where
  sent : req.length ≤ stream.length
  data : v'.data (v'.vnode n).inode = wanted (v.data (v.vnode n).inode) req stream
  length : (v'.vnode n).length = (wanted (v.data (v.vnode n).inode) req stream).length
  clones : ∀ i, 2 ≤ v.links i → v'.data i = v.data i

/-- Whatever the file holds, a store that reports success has stored the data. -/
def SuccessIsTrue (v : Volume) (o : Options) (n : Nat) (req : StoreRequest) (check : Int) (fate : StoreFate) : Prop :=
  ∀ old : List UInt8, old.length = (v.data (v.vnode n).inode).length → let v := v.setData (v.vnode n).inode old
    let r := commonStoreData64 v o n req check fate
    r.2 = 0 → Stored v r.1 n req fate.stream

/-- The failure of a transfer is reported because the correction of the disk usage fails. -/
def Reported (v : Volume) (o : Options) (n : Nat) (req : StoreRequest) (fate : StoreFate) : Prop :=
  ∃ size, Leaves o req fate (v.data (v.vnode n).inode).length size ∧
    ((v.setFree (freeThen v n fate)).addUsage (adjustSize v n req)).usageCode
      (nBlocks size - nBlocks (newLength req (v.data (v.vnode n).inode).length)) 0 ≠ 0

theorem finishStore_done {w : Volume} {length : Nat} {file : List UInt8}
    (done : transfer o req fate (w.data (w.vnode n).inode) = (file, 0)) :
    finishStore o n req fate length w = ((w.setData (w.vnode n).inode file).setVnode n { w.vnode n with length }, 0) := by
  unfold finishStore
  dsimp only
  rw [done]
  exact if_pos rfl

theorem finishStore_fails {w : Volume} {length : Nat} (fails : (transfer o req fate (w.data (w.vnode n).inode)).2 ≠ 0) :
    (finishStore o n req fate length w).2 =
      w.usageCode (nBlocks (transfer o req fate (w.data (w.vnode n).inode)).1.length - nBlocks length) 0 := by
  unfold finishStore
  dsimp only
  rw [if_neg fails]
  exact Volume.usageCode_congr rfl rfl rfl _ _

theorem finishStore_data (w : Volume) (length : Nat) :
    (finishStore o n req fate length w).1.data ((finishStore o n req fate length w).1.vnode n).inode =
      (transfer o req fate (w.data (w.vnode n).inode)).1 := by
  unfold finishStore
  dsimp only
  split <;> simp [Volume.vAdjustDiskUsage, Volume.addUsage, Volume.setVnode, Volume.setData]

section

variable (agree : (v.vnode n).length = (v.data (v.vnode n).inode).length)
include agree

section

variable (begins : Begins v o n req check fate)
include begins

theorem Begins.copied :
    let w := (privateCopy v n fate).1.addUsage (adjustSize v n req)
    w.data (w.vnode n).inode = v.data (v.vnode n).inode :=
  (privateCopy_own begins.present agree begins.own).data

theorem Begins.data :
    let r := Viced.commonStoreData64 v o n req check fate
    r.1.data (r.1.vnode n).inode = (transfer o req fate (v.data (v.vnode n).inode)).1 := by
  dsimp only
  rw [begins.commonStoreData64 agree, finishStore_data, begins.copied agree]

theorem Begins.failed (fails : (transfer o req fate (v.data (v.vnode n).inode)).2 ≠ 0) :
    (Viced.commonStoreData64 v o n req check fate).2 = ((v.setFree (freeThen v n fate)).addUsage (adjustSize v n req)).usageCode
        (nBlocks (transfer o req fate (v.data (v.vnode n).inode)).1.length -
          nBlocks (newLength req (v.data (v.vnode n).inode).length)) 0 := by
  have copied := begins.copied agree
  rw [begins.commonStoreData64 agree, finishStore_fails (by rw [copied]; exact fails), copied,
    (privateCopy_own begins.present agree begins.own).charged]

theorem Begins.success :
    (Viced.commonStoreData64 v o n req check fate).2 = 0 ↔ ¬ Reported v o n req fate := by
  by_cases done : (transfer o req fate (v.data (v.vnode n).inode)).2 = 0
  · refine iff_of_true ?_ ?_
    · have copied := begins.copied agree
      rw [begins.commonStoreData64 agree, finishStore_done (Prod.ext rfl ?_)]
      rw [copied]
      exact done
    · rintro ⟨size, leaves, refused⟩
      exact leaves.fails.1 done
  rw [begins.failed agree done]
  constructor
  · rintro passes ⟨size, leaves, refused⟩
    rw [← leaves.fails.2] at refused
    exact refused passes
  · intro silent
    by_contra refused
    exact silent ⟨_, transfer_fails done, refused⟩

end

theorem Begins.stored (sum : req.pos + req.length < 2 ^ 64)
    (begins : Begins v o n req check fate) (done : Done o req fate (v.data (v.vnode n).inode).length) :
    Stored v (Viced.commonStoreData64 v o n req check fate).1 n req fate.stream := by
  have copy := privateCopy_own begins.present agree begins.own
  obtain ⟨transferred, sent⟩ := done.wanted
  have transferred := (congrArg (transfer o req fate) (begins.copied agree)).trans transferred
  rw [begins.commonStoreData64 agree, finishStore_done transferred]
  exact
    { sent
      data := by simp [Volume.setVnode, Volume.setData]
      length := by
        rw [length_wanted _ sent, Volume.setVnode_same]
        unfold newLength
        rw [Nat.mod_eq_of_lt sum]
      clones := fun i shared => by
        have other : i ≠ ((privateCopy v n fate).1.vnode n).inode := by
          rintro rfl
          exact copy.own shared
        exact (Function.update_of_ne other _ _).trans (copy.others i shared) }

end

theorem setData_data (v : Volume) (n : Nat) (old : List UInt8) :
    (v.setData (v.vnode n).inode old).data ((v.setData (v.vnode n).inode old).vnode n).inode = old :=
  Function.update_self _ _ _

theorem begins_setData {old : List UInt8} (size : old.length = (v.data (v.vnode n).inode).length) :
    Begins (v.setData (v.vnode n).inode old) o n req check fate ↔ Begins v o n req check fate := by
  have charge : adjustSize (v.setData (v.vnode n).inode old) n req = adjustSize v n req := by
    unfold adjustSize
    rw [setData_data, size]
    rfl
  constructor
  · intro begins
    exact { begins with fits := charge ▸ begins.fits }
  · intro begins
    exact { begins with fits := charge.symm ▸ begins.fits }

theorem reported_setData {old : List UInt8} (size : old.length = (v.data (v.vnode n).inode).length) :
    Reported (v.setData (v.vnode n).inode old) o n req fate ↔ Reported v o n req fate := by
  unfold Reported adjustSize
  rw [setData_data, size]
  rfl

theorem exists_other (b : UInt8) : ∃ c : UInt8, c ≠ 0 ∧ c ≠ b := by
  by_cases one : b = 1
  · exact ⟨2, by decide, by rw [one]; decide⟩
  · exact ⟨1, by decide, fun same => one same.symm⟩

/-- A store tells the truth about the data if and only if it does not begin, does all it was asked for, or fails in a way
that the correction of the disk usage reports. -/
theorem store_success_true (agree : (v.vnode n).length = (v.data (v.vnode n).inode).length)
    (small : (v.data (v.vnode n).inode).length < 2 ^ 63) (sum : req.pos + req.length < 2 ^ 64) :
    SuccessIsTrue v o n req check fate ↔ (Begins v o n req check fate →
        Done o req fate (v.data (v.vnode n).inode).length ∨ Reported v o n req fate) := by
  have agrees {old : List UInt8} (size : old.length = (v.data (v.vnode n).inode).length) :
      ((v.setData (v.vnode n).inode old).vnode n).length =
        ((v.setData (v.vnode n).inode old).data ((v.setData (v.vnode n).inode old).vnode n).inode).length := by
    rw [setData_data, size]
    exact agree
  constructor
  · intro truth begins
    by_contra neither
    push Not at neither
    obtain ⟨notDone, silent⟩ := neither
    have stored (old : List UInt8) (size : old.length = (v.data (v.vnode n).inode).length) :
        req.length ≤ fate.stream.length ∧ (transfer o req fate old).1 = wanted old req fate.stream := by
      have begins := (begins_setData size).mpr begins
      have stored := truth old size ((begins.success (agrees size)).mpr (mt (reported_setData size).mp silent))
      have data := (begins.data (agrees size)).symm.trans stored.data
      rw [setData_data] at data
      exact ⟨stored.sent, data⟩
    obtain ⟨c, nonzero, other⟩ := exists_other (byteAt fate.stream (req.length - 1))
    have sent := (stored _ rfl).1
    exact not_wanted notDone small sum sent nonzero other (stored _ List.length_replicate).2
  · intro condition old size w r success
    have begins := commonStoreData64_begins (agrees size) success
    rcases condition ((begins_setData size).mp begins) with done | reported
    · refine begins.stored (agrees size) sum ?_
      rw [setData_data, size]
      exact done
    · exact absurd ((reported_setData size).mpr reported) ((begins.success (agrees size)).mp success)

def oneFile : Volume where
  used := {2}
  vnode _ := { type := .file, unique := 1, parent := 1, linkCount := 1, length := 1, inode := 1 }
  nextUnique := 2
  data _ := [7]
  links _ := 1
  diskused := 1
  maxquota := 100
  free := 100
  online := true

def plainOptions : Options where
  blocksSpare := 0
  pctSpare := 0
  sendBufSize := 16384

/-- A store in which the disk does all it is asked for; the client may send less than it has announced. -/
def storeOf (stream : List UInt8) : StoreFate where
  opens := true
  stats := true
  freeBefore := 0
  freeAfter := 0
  copy := .noInode
  reopens := true
  truncates := true
  byteWrite := .failed
  setsLength := true
  stream
  pieces _ := stream.length
  shortWrites _ := none

theorem store_success_true_oneFile :
    SuccessIsTrue oneFile plainOptions 2 { pos := 0, length := 1, fileLength := 1 } 0 (storeOf [8]) := by
  refine (store_success_true rfl (by decide) (by decide)).mpr fun begins => .inl (.stored ?_ ⟨1, ?_, le_rfl⟩ (by decide) ?_)
  · exact fun lengthens => absurd lengthens.1 (by decide)
  · intro i first
    obtain rfl : i = 0 := by omega
    exact ⟨by decide, by decide, rfl⟩
  · exact fun long => absurd long (by decide)

/-- A client that aborts a store is told that it has succeeded. -/
theorem aborted_store_succeeds : ¬ ∀ (v : Volume) (o : Options) (n : Nat) (req : StoreRequest) (check : Int) (fate : StoreFate),
      (v.vnode n).length = (v.data (v.vnode n).inode).length → req.pos + req.length < 2 ^ 64 →
      (commonStoreData64 v o n req check fate).2 = 0 →
      Stored v (commonStoreData64 v o n req check fate).1 n req fate.stream := by
  intro all
  have stored := all oneFile plainOptions 2 { pos := 0, length := 2, fileLength := 2 } 0 (storeOf []) rfl (by decide)
    (by decide)
  exact absurd stored.sent (by decide)

end OpenAFS.Viced
