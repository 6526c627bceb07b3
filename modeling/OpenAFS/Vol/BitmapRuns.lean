import OpenAFS.Vol.VnodeAgree

namespace OpenAFS.Vol

open List

namespace VnodeIndex

inductive BitmapFault where
  | assertion
  /-- A bit at or beyond `bitmapSize` is set. -/
  | overrun
  deriving DecidableEq, Repr

/-- `OS_SIZE` in an `int`. -/
def osSize (length : Nat) : Int := (length : Int).bmod (2 ^ 32)

/-- `diskSize` is 2 to the power `logSize`. -/
def nVnodes (vcp : VnodeClassInfo) (size : Int) : Nat :=
  if size ≤ vcp.diskSize then 0 else (size - vcp.diskSize).toNat / vcp.diskSize

def bitmapSize (nVnodes : Nat) : Nat := (nVnodes / 8 + 10) / 4 * 4

/-- The loop of `VGetBitmap_r` over the records that it reads, as far as the bits go. -/
def buildLoop (magic : UInt32) : List DiskVnode → Nat → List Bool → Except BitmapFault (List Bool)
  | [], _, bitmap => .ok bitmap
  | vnode :: rest, bitNumber, bitmap =>
    if vnode.type ≠ vNull then
      if vnode.vnodeMagic ≠ magic then .ok bitmap
      else if bitNumber / 8 < bitmap.length / 8 then buildLoop magic rest (bitNumber + 1) (bitmap.set bitNumber true)
      else .error .overrun
    else buildLoop magic rest (bitNumber + 1) bitmap

/-- `VGetBitmap_r` of a file of `length` bytes when it is measured, with the records that can be read afterwards. -/
def vGetBitmap (vcp : VnodeClassInfo) (length : Nat) (records : List DiskVnode) (ix : VnodeIndex) :
    Except BitmapFault VnodeIndex :=
  let size := osSize length
  if size = -1 then .error .assertion
  else
    let bitmap := List.replicate (8 * bitmapSize (nVnodes vcp size)) false
    (buildLoop vcp.magic (records.take (nVnodes vcp size + 100)) 0 bitmap).map fun bitmap => { ix with bitmap, bitmapOffset := 0 }

/-- The words that the search of `VAllocBitmapEntry_r` reads, by the offsets of their first bytes. -/
def wordsRead (bitmap : List Bool) : Nat → Nat → List Nat
  | 0, _ => []
  | fuel + 1, bp =>
    if 8 * bp < bitmap.length then
      bp :: if ((bitmap.drop (8 * bp)).take 32).all id then wordsRead bitmap fuel (bp + 4) else []
    else []

/-- The size is a positive multiple of 4 bytes, and the words before `bitmapOffset` have no clear bit. -/
structure Searchable (ix : VnodeIndex) : Prop where
  words : 32 ∣ ix.bitmap.length
  positive : 0 < ix.bitmap.length
  aligned : 4 ∣ ix.bitmapOffset
  full : ∀ m < 8 * ix.bitmapOffset, ix.bit m = true

/-- The bit `n` is the lowest clear one, behind the bit map if there is none in it; it is set, and no other. -/
structure AllocatesLowest (ix : VnodeIndex) (n : Nat) (ix' : VnodeIndex) : Prop where
  clear : ix.bit n = false
  lowest : ∀ m < n, ix.bit m = true
  size : n < ix.bitmap.length ∧ ix'.bitmap.length = ix.bitmap.length ∨
    n = ix.bitmap.length ∧ ix'.bitmap.length = ix.bitmap.length + 8 * VOLUME_BITMAP_GROWSIZE
  only : ∀ m, ix'.bit m = true ↔ ix.bit m = true ∨ m = n
  inside : ∀ bp ∈ wordsRead ix.bitmap ix.bitmap.length ix.bitmapOffset, 8 * (bp + 4) ≤ ix.bitmap.length

structure FreesOnly (ix : VnodeIndex) (n : Nat) (done : Bool) (ix' : VnodeIndex) : Prop where
  inside : done = decide (n < ix.bitmap.length)
  size : ix'.bitmap.length = ix.bitmap.length
  only : ∀ m, ix'.bit m = true ↔ ix.bit m = true ∧ m ≠ n

inductive BitmapOp where
  | alloc
  | free (bitNumber : Nat)
  deriving DecidableEq, Repr

def perform (ix : VnodeIndex) : BitmapOp → VnodeIndex
  | .alloc => ix.allocBitmapEntry.2
  | .free n => (ix.freeBitmapEntry n).2

def Performs (ix : VnodeIndex) : BitmapOp → Prop
  | .alloc => ix.AllocatesLowest ix.allocBitmapEntry.1 ix.allocBitmapEntry.2
  | .free n => ix.FreesOnly n (ix.freeBitmapEntry n).1 (ix.freeBitmapEntry n).2

/-- The bit map is built within its bounds, and every run on it goes right. -/
def Served : Except BitmapFault VnodeIndex → Prop
  | .ok ix => ∀ ops : List BitmapOp, (ops.foldl perform ix).Searchable ∧ ∀ op, (ops.foldl perform ix).Performs op
  | .error .overrun => False
  | .error .assertion => True

def unaddled (magic : UInt32) (records : List DiskVnode) : List DiskVnode :=
  records.takeWhile fun vnode => vnode.type = vNull ∨ vnode.vnodeMagic = magic

/-- The records in use lie in the part of the file that the bit map is made for. -/
def Covered (vcp : VnodeClassInfo) (size : Int) (records : List DiskVnode) : Prop :=
  ∀ n r, (unaddled vcp.magic (records.take (nVnodes vcp size + 100)))[n]? = some r → r.type ≠ vNull →
    n < 8 * bitmapSize (nVnodes vcp size)

variable {ix : VnodeIndex} {bitmap : List Bool} {bp fuel n : Nat}

theorem word_full (all : ((bitmap.drop (8 * bp)).take 32).all id = true) (inside : 8 * bp + 32 ≤ bitmap.length) {m : Nat}
    (low : 8 * bp ≤ m) (high : m < 8 * bp + 32) : bitmap.getD m false = true := by
  rw [all_eq_true] at all
  have small : m < bitmap.length := by omega
  rw [getD_eq_getElem _ _ small]
  have here : m - 8 * bp < ((bitmap.drop (8 * bp)).take 32).length := by
    rw [length_take, length_drop]
    omega
  have set := all _ (getElem_mem here)
  rw [getElem_take, getElem_drop] at set
  have place : 8 * bp + (m - 8 * bp) = m := by omega
  simpa only [place, id_eq] using set

theorem word_inside (words : 32 ∣ bitmap.length) (aligned : 4 ∣ bp) (more : 8 * bp < bitmap.length) :
    8 * (bp + 4) ≤ bitmap.length := by
  omega

theorem wordsRead_inside (words : 32 ∣ bitmap.length) (aligned : 4 ∣ bp) :
    ∀ w ∈ wordsRead bitmap fuel bp, 8 * (w + 4) ≤ bitmap.length := by
  induction fuel generalizing bp with
  | zero => exact fun w none => absurd none not_mem_nil
  | succ fuel ih =>
    intro w read
    rw [wordsRead] at read
    split at read
    · next more =>
      rcases List.mem_cons.mp read with rfl | later
      · exact word_inside words aligned more
      · split at later
        · exact ih (Nat.dvd_add aligned (Nat.dvd_refl 4)) w later
        · cases later
    · cases read

theorem allocLoop_full (words : 32 ∣ bitmap.length) (aligned : 4 ∣ bp) (enough : bitmap.length ≤ 8 * bp + fuel) :
    (∀ w, allocLoop bitmap fuel bp = some w → 4 ∣ w ∧ ∀ m, 8 * bp ≤ m → m < 8 * w → bitmap.getD m false = true) ∧
      (allocLoop bitmap fuel bp = none → ∀ m, 8 * bp ≤ m → m < bitmap.length → bitmap.getD m false = true) := by
  induction fuel generalizing bp with
  | zero => exact ⟨fun w found => (nomatch found), fun _ m low high => by omega⟩
  | succ fuel ih =>
    rw [allocLoop]
    split
    · next more =>
      split
      · next full =>
        obtain ⟨found, none⟩ := ih (Nat.dvd_add aligned (Nat.dvd_refl 4)) (by omega)
        have front {m : Nat} (low : 8 * bp ≤ m) (before : m < 8 * (bp + 4)) := word_full full (by omega) low (by omega)
        refine ⟨fun w stopped => ⟨(found w stopped).1, fun m low high => ?_⟩, fun stopped m low high => ?_⟩
        · by_cases before : m < 8 * (bp + 4)
          · exact front low before
          · exact (found w stopped).2 m (Nat.le_of_not_lt before) high
        · by_cases before : m < 8 * (bp + 4)
          · exact front low before
          · exact none stopped m (Nat.le_of_not_lt before) high
      · refine ⟨fun w stopped => ?_, fun stopped => by cases stopped⟩
        cases stopped
        exact ⟨aligned, fun m low high => by omega⟩
    · next done => exact ⟨fun w found => (nomatch found), fun _ m low high => by omega⟩

theorem Searchable.alloc (sound : ix.Searchable) :
    ix.allocBitmapEntry.2.Searchable ∧ ix.AllocatesLowest ix.allocBitmapEntry.1 ix.allocBitmapEntry.2 := by
  obtain ⟨words, positive, aligned, full⟩ := sound
  have inside := @wordsRead_inside ix.bitmap ix.bitmapOffset ix.bitmap.length words aligned
  obtain ⟨clear, only, -⟩ := allocBitmapEntry_spec ix
  obtain ⟨found, none⟩ := @allocLoop_full ix.bitmap ix.bitmapOffset ix.bitmap.length words aligned (by omega)
  have before {m : Nat} {k : Nat} (searched : ∀ m, 8 * ix.bitmapOffset ≤ m → m < k → ix.bit m = true) (low : m < k) :
      ix.bit m = true := by
    by_cases early : m < 8 * ix.bitmapOffset
    · exact full m early
    · exact searched m (Nat.le_of_not_lt early) low
  unfold allocBitmapEntry at clear only ⊢
  cases stopped : allocLoop ix.bitmap ix.bitmap.length ix.bitmapOffset with
  | some w =>
    obtain ⟨place, front⟩ := found w stopped
    rw [stopped] at clear only
    dsimp only at clear only ⊢
    have small := (firstClear (allocLoop_spec stopped)).1
    have kept {m : Nat} (set : ix.bit m = true) := (only m).2 (.inl set)
    refine ⟨⟨by rwa [length_set], by rwa [length_set], place, fun m low => kept (before front low)⟩,
      clear, fun m low => ?_, .inl ⟨small, length_set⟩, only, inside⟩
    by_cases early : m < 8 * w
    · exact before front early
    have behind : m - 8 * w < (ix.bitmap.drop (8 * w)).findIdx fun b => !b := by omega
    have set := not_of_lt_findIdx behind
    have there : 8 * w + (m - 8 * w) = m := by omega
    simp only [getElem_drop, there] at set
    unfold bit
    rw [getD_eq_getElem _ _ (by omega)]
    simpa using set
  | none =>
    rw [stopped] at clear only
    have all {m : Nat} (low : m < ix.bitmap.length) : ix.bit m = true := before (none stopped) low
    have size : (ix.bitmap ++ (List.replicate (8 * VOLUME_BITMAP_GROWSIZE) false).set 0 true).length =
        ix.bitmap.length + 8 * VOLUME_BITMAP_GROWSIZE := by
      rw [length_append, length_set, length_replicate]
    obtain ⟨k, words⟩ := words
    have offset : ix.bitmap.length / 8 = 4 * k := by omega
    refine ⟨⟨?_, by rw [size]; omega, ⟨k, offset⟩, fun m low => ?_⟩, clear, fun m => all, .inr ⟨rfl, size⟩, only, inside⟩
    · rw [size, words]
      exact Nat.dvd_add (Nat.dvd_mul_right 32 k) (by decide)
    · have low : m < 8 * (ix.bitmap.length / 8) := low
      exact (only m).2 (.inl (all (by omega)))

theorem Searchable.free (sound : ix.Searchable) (n : Nat) :
    (ix.freeBitmapEntry n).2.Searchable ∧ ix.FreesOnly n (ix.freeBitmapEntry n).1 (ix.freeBitmapEntry n).2 := by
  obtain ⟨words, positive, aligned, full⟩ := sound
  obtain ⟨cleared, failed, -⟩ := freeBitmapEntry_spec n ix
  have size := freeBitmapEntry_length n ix
  by_cases small : n < ix.bitmap.length
  · have done : (ix.freeBitmapEntry n).1 = true := by
      unfold freeBitmapEntry
      rw [if_neg (by omega)]
    have only := cleared done
    refine ⟨⟨by rwa [size], by rwa [size], ?_, fun m low => ?_⟩, by rw [done, decide_eq_true small], size, only⟩
    · unfold freeBitmapEntry
      rw [if_neg (by omega)]
      split
      · exact Nat.dvd_mul_left 4 _
      · exact aligned
    have offset : (ix.freeBitmapEntry n).2.bitmapOffset =
        if n / 8 < ix.bitmapOffset then n / 8 / 4 * 4 else ix.bitmapOffset := by
      unfold freeBitmapEntry
      rw [if_neg (by omega)]
    rw [offset] at low
    refine (only m).2 ⟨full m ?_, ?_⟩
    · split at low <;> omega
    · split at low <;> omega
  · have undone : (ix.freeBitmapEntry n).1 = false := by
      unfold freeBitmapEntry
      rw [if_pos (by omega)]
    rw [failed undone, undone]
    refine ⟨⟨words, positive, aligned, full⟩, (decide_eq_false small).symm, rfl, fun m => ?_⟩
    refine ⟨fun set => ⟨set, ?_⟩, And.left⟩
    rintro rfl
    rw [bit_of_length_le (Nat.le_of_not_lt small)] at set
    cases set

theorem Searchable.run (sound : ix.Searchable) (ops : List BitmapOp) : (ops.foldl perform ix).Searchable := by
  induction ops generalizing ix with
  | nil => exact sound
  | cons op ops ih =>
    cases op with
    | alloc => exact ih sound.alloc.1
    | free n => exact ih (sound.free n).1

theorem buildLoop_cases {magic : UInt32} {records : List DiskVnode} {i : Nat} (whole : 8 ∣ bitmap.length) :
    (buildLoop magic records i bitmap = .error .overrun ∧
        ∃ n r, (unaddled magic records)[n]? = some r ∧ r.type ≠ vNull ∧ bitmap.length ≤ i + n) ∨
      (∃ bitmap', buildLoop magic records i bitmap = .ok bitmap' ∧ bitmap'.length = bitmap.length) ∧
        ∀ n r, (unaddled magic records)[n]? = some r → r.type ≠ vNull → i + n < bitmap.length := by
  induction records generalizing i bitmap with
  | nil => exact .inr ⟨⟨bitmap, rfl, rfl⟩, fun n r found => by cases found⟩
  | cons vnode rest ih =>
    unfold buildLoop unaddled
    by_cases addled : vnode.type ≠ vNull ∧ vnode.vnodeMagic ≠ magic
    · rw [if_pos addled.1, if_pos addled.2, takeWhile_cons_of_neg (by simpa using addled)]
      exact .inr ⟨⟨bitmap, rfl, rfl⟩, fun n r found => by cases found⟩
    have sound : vnode.type = vNull ∨ vnode.vnodeMagic = magic := by
      by_cases used : vnode.type = vNull
      · exact .inl used
      · exact .inr (not_not.mp fun bad => addled ⟨used, bad⟩)
    rw [takeWhile_cons_of_pos (by rwa [decide_eq_true_eq])]
    -- What the rest of the loop does is said of the records one place further on.
    have later {bitmap' : List Bool} (size : bitmap'.length = bitmap.length) (inside : vnode.type ≠ vNull → i < bitmap.length) :
        (buildLoop magic rest (i + 1) bitmap' = .error .overrun ∧
            ∃ n r, (vnode :: unaddled magic rest)[n]? = some r ∧ r.type ≠ vNull ∧ bitmap.length ≤ i + n) ∨
          (∃ bitmap'', buildLoop magic rest (i + 1) bitmap' = .ok bitmap'' ∧ bitmap''.length = bitmap.length) ∧
            ∀ n r, (vnode :: unaddled magic rest)[n]? = some r → r.type ≠ vNull → i + n < bitmap.length := by
      rw [← size] at whole
      rcases ih whole with ⟨past, n, r, found, used, beyond⟩ | ⟨⟨bitmap'', built, size'⟩, all⟩
      · exact .inl ⟨past, n + 1, r, found, used, by omega⟩
      refine .inr ⟨⟨bitmap'', built, size'.trans size⟩, fun n r found used => ?_⟩
      cases n with
      | zero =>
        cases found
        exact inside used
      | succ n =>
        have low := all n r found used
        omega
    by_cases used : vnode.type = vNull
    · rw [if_neg (not_not.mpr used)]
      exact later rfl fun other => absurd used other
    rw [if_pos used, if_neg (not_not.mpr (sound.resolve_left used))]
    by_cases inside : i / 8 < bitmap.length / 8
    · rw [if_pos inside]
      exact later length_set fun _ => by omega
    · rw [if_neg inside]
      exact .inl ⟨rfl, 0, vnode, rfl, used, by omega⟩

/-- The bit map of an index serves every run of the allocator exactly if no record in use was read from behind the part of the file
that it was made for. -/
theorem bitmap_served (vcp : VnodeClassInfo) (length : Nat) (records : List DiskVnode) (ix : VnodeIndex) :
    Served (vGetBitmap vcp length records ix) ↔ osSize length = -1 ∨ Covered vcp (osSize length) records := by
  unfold vGetBitmap
  dsimp only
  split
  · next failed => exact iff_of_true trivial (.inl failed)
  next known =>
  rw [or_iff_right known]
  have size : (List.replicate (8 * bitmapSize (nVnodes vcp (osSize length))) false).length =
      8 * bitmapSize (nVnodes vcp (osSize length)) := length_replicate
  have whole : 8 ∣ (List.replicate (8 * bitmapSize (nVnodes vcp (osSize length))) false).length := by
    rw [size]
    exact Nat.dvd_mul_right 8 _
  rcases @buildLoop_cases _ vcp.magic (records.take (nVnodes vcp (osSize length) + 100)) 0 whole with
    ⟨past, n, r, found, used, beyond⟩ | ⟨⟨bitmap', built, size'⟩, all⟩
  · rw [past]
    refine iff_of_false id fun covered => ?_
    have low := covered n r found used
    omega
  rw [built]
  refine iff_of_true (fun ops => ?_) fun n r found used => ?_
  · rw [size] at size'
    have first : Searchable { ix with bitmap := bitmap', bitmapOffset := 0 } := by
      unfold bitmapSize at size'
      have words : 32 ∣ bitmap'.length := ⟨(nVnodes vcp (osSize length) / 8 + 10) / 4, by omega⟩
      have positive : 0 < bitmap'.length := by omega
      exact ⟨words, positive, Nat.dvd_zero 4, fun m low => absurd low (Nat.not_lt_zero m)⟩
    have sound := first.run ops
    refine ⟨sound, fun op => ?_⟩
    cases op with
    | alloc => exact sound.alloc.2
    | free n => exact (sound.free n).2
  · have low := all n r found used
    omega

/-- A file of one record that has 65 by the time it is read: its bit map has 64 bits. -/
theorem grown_file_overruns :
    ¬ Served (vGetBitmap vSmall 64 (List.replicate 65 ⟨1, vSmall.magic, 1, 0⟩) ⟨[], [], 0, fun _ => none⟩) := by
  have past : buildLoop vSmall.magic ((List.replicate 65 ⟨1, vSmall.magic, 1, 0⟩).take (nVnodes vSmall (osSize 64) + 100)) 0
      (List.replicate (8 * bitmapSize (nVnodes vSmall (osSize 64))) false) = .error .overrun := by
    decide +kernel
  unfold vGetBitmap
  dsimp only
  rw [past]
  exact id

end VnodeIndex

end OpenAFS.Vol
