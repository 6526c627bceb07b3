import OpenAFS.Vol.NameiFailures

namespace OpenAFS.Vol.Namei

/-- The digits of `flipbase64.c`: `+=0..9A..Za..z` -/
def cXlate : List Nat := [43, 61] ++ List.range' 48 10 ++ List.range' 65 26 ++ List.range' 97 26

def cReverse : List Nat :=
  List.replicate 43 99 ++ [0] ++ List.replicate 4 99 ++ List.range' 2 10 ++ List.replicate 3 99 ++ [1] ++ List.replicate 3 99 ++
    List.range' 12 26 ++ List.replicate 6 99 ++ List.range' 38 26 ++ List.replicate 133 99

def flipDigits (a : BitVec 64) : List Nat :=
  if _ : a = 0 then [] else cXlate.getD (a &&& 0x3f).toNat 0 :: flipDigits (a >>> 6)
termination_by a.toNat
decreasing_by bv_omega

/-- Low digits come first. -/
def int64ToFlipbase64 (a : BitVec 64) : List Nat := if a = 0 then [cXlate.getD 0 0] else flipDigits a

def flipbase64From (result : BitVec 64) (shift : Nat) : List Nat → BitVec 64
  | [] => result
  | c :: s =>
    let n := cReverse.getD c 99
    if 64 ≤ n then flipbase64From result shift s else flipbase64From (result ||| BitVec.ofNat 64 n <<< shift) (shift + 6) s

def flipbase64ToInt64 (s : List Nat) : BitVec 64 := flipbase64From 0 0 s

def specDir : List Nat := [115, 112, 101, 99, 105, 97, 108]

/-- The components of `n_path` below the directory of the partition. -/
def handleToName (vid : BitVec 32) (ino : Inode) : List (List Nat) :=
  let vno := ino &&& vnodeMask
  [int64ToFlipbase64 ((vid &&& 0xff).setWidth 64), int64ToFlipbase64 (vid.signExtend 64)] ++
    (if vno = vnodeMask then [specDir] else [int64ToFlipbase64 (vno >>> 14 &&& 0xff), int64ToFlipbase64 (vno >>> 9 &&& 0x1ff)]) ++
    [int64ToFlipbase64 ino]

/-- Owner, group and mode. -/
structure Status where
  uid : BitVec 32
  gid : BitVec 32
  mode : BitVec 32

def setOGM (parm tag : BitVec 32) : Status where
  uid := parm &&& 0x7fff
  gid := parm.sshiftRight 15 &&& 0x7fff
  mode := parm.sshiftRight 27 &&& 0x18 ||| tag &&& 0x7

def Status.getOGM (status : Status) : BitVec 32 × BitVec 32 :=
  (status.uid ||| status.gid <<< 15 ||| (status.mode &&& 0x18) <<< 27, status.mode &&& 0x7)

structure ViceInodeInfo where
  inodeNumber : Inode
  param : List (BitVec 32)
  deriving DecidableEq

def decodeVolumeName (name : List Nat) : Option (BitVec 32) :=
  if name.length ≤ 2 then none else some ((flipbase64ToInt64 name).setWidth 32)

def decodeInode (name : List Nat) (status : Status) (volid : BitVec 32) : Option ViceInodeInfo :=
  let ino := flipbase64ToInt64 name
  if name ≠ int64ToFlipbase64 ino then none
  else
    let (parm, tag) := status.getOGM
    if ino &&& inodeSpecial = inodeSpecial then some ⟨ino, [parm, -1, tag, volid]⟩
    else some ⟨ino, [volid, (ino &&& vnodeMask).setWidth 32, (ino >>> 32 &&& 0xffffffff).setWidth 32, parm]⟩

theorem cReverse_cXlate : ∀ n < 64, cReverse.getD (cXlate.getD n 0) 99 = n := by decide +kernel

theorem digits_joined (a result : BitVec 64) (shift : Nat) :
    result ||| (a &&& 0x3f) <<< shift ||| (a >>> 6) <<< (shift + 6) = result ||| a <<< shift := by
  have six : ∀ i < 64, (0x3f : BitVec 64).getLsbD i = decide (i < 6) := by decide
  apply BitVec.eq_of_getLsbD_eq
  intro i inside
  grind

theorem flipbase64From_flipDigits (a result : BitVec 64) (shift : Nat) :
    flipbase64From result shift (flipDigits a) = result ||| a <<< shift := by
  induction a using flipDigits.induct generalizing result shift with
  | case1 =>
    rw [flipDigits]
    simp [flipbase64From]
  | case2 a some ih =>
    have small : (a &&& 0x3f).toNat < 64 := by
      rw [BitVec.toNat_and]
      exact Nat.lt_succ_of_le Nat.and_le_right
    rw [flipDigits, dif_neg some, flipbase64From, cReverse_cXlate _ small]
    rw [if_neg (Nat.not_le.mpr small), ih, BitVec.ofNat_toNat, BitVec.setWidth_eq]
    exact digits_joined a result shift

theorem flipbase64_roundTrip (a : BitVec 64) : flipbase64ToInt64 (int64ToFlipbase64 a) = a := by
  unfold flipbase64ToInt64 int64ToFlipbase64
  split
  · next zero =>
    rw [zero]
    decide
  · rw [flipbase64From_flipDigits]
    simp

theorem volid_kept (vid : BitVec 32) : (vid.signExtend 64).setWidth 32 = vid := by
  ext i inside
  simp
  grind

theorem decodeVolumeName_eq (vid : BitVec 32) :
    decodeVolumeName (int64ToFlipbase64 (vid.signExtend 64)) = if vid.toNat < 4096 then none else some vid := by
  have size : (int64ToFlipbase64 (vid.signExtend 64)).length ≤ 2 ↔ vid.toNat < 4096 := by
    have wide : (vid.signExtend 64).toNat = _ := BitVec.toNat_signExtend vid
    have small := vid.isLt
    generalize vid.signExtend 64 = a at wide
    simp only [BitVec.toNat_setWidth, BitVec.msb_eq_true_iff_two_mul_ge] at wide
    unfold int64ToFlipbase64
    rw [flipDigits, flipDigits, flipDigits]
    repeat' split
    all_goals
      simp only [List.length_cons, List.length_nil]
      split at wide <;> bv_omega
  unfold decodeVolumeName
  rw [flipbase64_roundTrip]
  simp only [size, volid_kept]

theorem getOGM_setOGM (parm tag : BitVec 32) : (setOGM parm tag).getOGM = (parm, tag &&& 7) := by
  have owner : ∀ i < 32, (0x7fff : BitVec 32).getLsbD i = decide (i < 15) := by decide
  have mode : ∀ i < 32, (0x18 : BitVec 32).getLsbD i = decide (i = 3 ∨ i = 4) := by decide
  have three : ∀ i < 32, (0x7 : BitVec 32).getLsbD i = decide (i < 3) := by decide
  unfold setOGM Status.getOGM
  refine Prod.ext (BitVec.eq_of_getLsbD_eq fun i inside => ?_) (BitVec.eq_of_getLsbD_eq fun i inside => ?_)
  · simp only [BitVec.getLsbD_or, BitVec.getLsbD_shiftLeft, BitVec.getLsbD_and, BitVec.getLsbD_sshiftRight]
    grind
  · simp only [BitVec.getLsbD_or, BitVec.getLsbD_and]
    grind

theorem flipbase64_injective : Function.Injective int64ToFlipbase64 := Function.LeftInverse.injective flipbase64_roundTrip

theorem handleToName_last (vid : BitVec 32) (ino : Inode) : (handleToName vid ino).getLast? = some (int64ToFlipbase64 ino) :=
  List.getLast?_concat

/-- The directory of a volume says whose it is, and no two inodes have one name. -/
theorem handleToName_decoded (vid : BitVec 32) (ino : Inode) :
    (handleToName vid ino)[1]?.bind decodeVolumeName = (if vid.toNat < 4096 then none else some vid) ∧
      ∀ vid' ino', handleToName vid' ino' = handleToName vid ino → vid' = vid ∧ ino' = ino := by
  refine ⟨decodeVolumeName_eq vid, fun vid' ino' same => ?_⟩
  have vids := flipbase64_injective (Option.some.inj (congrArg (·[1]?) same))
  have inos := congrArg List.getLast? same
  rw [handleToName_last, handleToName_last] at inos
  exact ⟨by rw [← volid_kept vid', vids, volid_kept], flipbase64_injective (Option.some.inj inos)⟩

theorem decodeInode_special (p1 p3 p4 : BitVec 32) :
    decodeInode (int64ToFlipbase64 (makeSpecIno p1 p3)) (setOGM p1 p3) p4 = some ⟨makeSpecIno p1 p3, [p1, -1, p3 &&& 7, p4]⟩ := by
  have special : makeSpecIno p1 p3 &&& inodeSpecial = inodeSpecial := by
    unfold makeSpecIno
    grind
  unfold decodeInode
  rw [flipbase64_roundTrip, if_neg (not_not.mpr rfl), getOGM_setOGM]
  exact if_pos special

theorem decodeInode_data (p1 p3 p4 other : BitVec 32) {p2 : BitVec 32} {tag : Nat} (data : p2.toNat ≠ inodeSpecial.toNat)
    (small : p2.setWidth 64 &&& vnodeMask = p2.setWidth 64) (within : tag < maxVols) :
    decodeInode (int64ToFlipbase64 (dataIno p2 p3 tag)) (setOGM p4 other) p1 = some ⟨dataIno p2 p3 tag, [p1, p2, p3, p4]⟩ := by
  have place := (dataIno_place p3 small within).1
  have ordinary : dataIno p2 p3 tag &&& inodeSpecial ≠ inodeSpecial := by
    intro special
    exact data (place.symm.trans (congrArg BitVec.toNat special))
  have vno : (dataIno p2 p3 tag &&& vnodeMask).setWidth 32 = p2 := by
    apply BitVec.eq_of_toNat_eq
    rw [BitVec.toNat_setWidth]
    exact (congrArg (· % 2 ^ 32) place).trans (Nat.mod_eq_of_lt p2.isLt)
  have uniq : (dataIno p2 p3 tag >>> 32 &&& 0xffffffff).setWidth 32 = p3 := by
    have low : ∀ i < 64, (0xffffffff : BitVec 64).getLsbD i = decide (i < 32) := by decide
    apply BitVec.eq_of_getLsbD_eq
    intro i inside
    have high : tag.testBit (i + 6) = false := Nat.testBit_lt_two_pow <|
      Nat.lt_of_lt_of_le (Nat.lt_trans within (by decide)) (Nat.pow_le_pow_right (n := 2) (i := 6) (by decide) (Nat.le_add_left ..))
    rw [BitVec.getLsbD_setWidth, BitVec.getLsbD_and, low i (by omega)]
    simp [dataIno, BitVec.getLsbD_ofNat, inside]
    grind
  unfold decodeInode
  rw [flipbase64_roundTrip, if_neg (not_not.mpr rfl), getOGM_setOGM]
  dsimp only
  rw [if_neg ordinary, vno, uniq]

theorem createFile_made {fail : Option Op} {d d' : Disk} {noDir : Bool} {name : Name} {parm : BitVec 32}
    (made : createFile fail noDir d name parm = (true, d')) : d' name = some { parm } := by
  rcases createFile_cases fail noDir d name parm with ⟨-, -, f, failed⟩ | ⟨failed, -⟩ | ⟨-, -, created⟩
  · cases failed.symm.trans made
  · cases failed.symm.trans made
  · cases created.symm.trans made
    exact Function.update_self ..

/-- What is read back of a file is what it was made with, but for the high bits of a special file's type. -/
theorem created_decoded {fail : Option Op} {lh : Name} {d d' : Disk} {noDir : Bool} {p1 p2 p3 p4 : BitVec 32} {ino : Inode}
    (made : icreate fail lh d noDir p1 p2 p3 p4 = (some ino, d')) (data : p2.toNat ≠ inodeSpecial.toNat) :
    let vid := if p2 = -1 then p4 else p1
    ∃ f, d' (vid, ino) = some f ∧ (handleToName vid ino).getLast?.bind (decodeInode · (setOGM f.parm
      (if p2 = -1 then p3 else .ofNat 32 (tagOf ino))) vid) = some ⟨ino, [p1, p2, if p2 = -1 then p3 &&& 7 else p3, p4]⟩ := by
  unfold icreate at made
  split at made
  · cases made
  split at made
  · next special =>
    simp only [if_pos special, handleToName_last, Option.bind_some]
    rw [special]
    unfold icreateSpecial at made
    dsimp only at made
    split at made
    · cases made
    next created =>
    split at made
    · have parm : (setLinkCount fail { parm := p1 } 0 1 false).2.parm = p1 := by
        unfold setLinkCount
        grind [File.setLinks, File.setRow]
      split at made <;> cases made
      refine ⟨_, Function.update_self .., ?_⟩
      rw [parm]
      exact decodeInode_special p1 p3 p4
    · cases made
      exact ⟨_, createFile_made created, decodeInode_special p1 p3 p4⟩
  split at made
  · cases made
  next ordinary small =>
  simp only [if_neg ordinary, handleToName_last, Option.bind_some]
  unfold icreateData at made
  split at made
  · cases made
  next claimed =>
  dsimp only at made
  split at made
  · cases made
  next created =>
  cases made
  obtain ⟨f, -, given⟩ := Option.bind_eq_some_iff.mp claimed
  rcases getFreeTag_cases fail f p2.toNat with ⟨refused, -⟩ | ⟨tag, free, -, claims⟩
  · cases refused.symm.trans given
  cases claims.symm.trans given
  exact ⟨_, createFile_made created, decodeInode_data p1 p3 p4 _ data (not_not.mp small) (freeColumn_free free).1⟩

theorem created_decoded_first :
    ∃ f, (icreate none (7, 5) (Function.update (fun _ => none) (7, 5) (some {})) false 7 1 3 9).2 (7, 12884901889) = some f ∧
      (handleToName 7 12884901889).getLast?.bind (decodeInode · (setOGM f.parm 0) 7) = some ⟨12884901889, [7, 1, 3, 9]⟩ :=
  @created_decoded none (7, 5) _ _ false 7 1 3 9 12884901889 (Prod.ext (by decide +kernel) rfl) (by decide)

end OpenAFS.Vol.Namei
