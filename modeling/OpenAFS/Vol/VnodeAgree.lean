import OpenAFS.Lib.Machine
import OpenAFS.Vol.VnodeBitmap

namespace OpenAFS.Vol

open Function (update)
open Lib List

namespace VnodeIndex

variable {ix : VnodeIndex} {n m : Nat}

theorem getD_set (l : List Bool) (n m : Nat) (b : Bool) :
    (l.set n b).getD m false = if m = n ∧ n < l.length then b else l.getD m false := by
  rw [getD_eq_getElem?_getD, getElem?_set, getD_eq_getElem?_getD]
  by_cases same : n = m
  · subst same
    by_cases small : n < l.length
    · rw [if_pos rfl, if_pos small, if_pos ⟨rfl, small⟩]
      rfl
    · rw [if_pos rfl, if_neg small, if_neg (fun all => small all.2), getElem?_eq_none (Nat.le_of_not_lt small)]
  · rw [if_neg same, if_neg (fun all => same all.1.symm)]

theorem bit_of_length_le (large : ix.bitmap.length ≤ n) : ix.bit n = false := by
  unfold bit
  rw [getD_eq_getElem?_getD, getElem?_eq_none large]
  rfl

theorem allocLoop_spec {bitmap : List Bool} {fuel bp found : Nat} (stopped : allocLoop bitmap fuel bp = some found) :
    ∃ b ∈ bitmap.drop (8 * found), b = false := by
  induction fuel generalizing bp with
  | zero => cases stopped
  | succ fuel ih =>
    unfold allocLoop at stopped
    split at stopped
    · split at stopped
      · exact ih stopped
      next full =>
      cases stopped
      simp only [all_eq_true, id_eq, not_forall] at full
      rcases full with ⟨b, inside, clear⟩
      exact ⟨b, mem_of_mem_take inside, Bool.eq_false_iff.mpr clear⟩
    · cases stopped

theorem firstClear {bitmap : List Bool} {i : Nat} (some_ : ∃ b ∈ bitmap.drop i, b = false) :
    i + (bitmap.drop i).findIdx (fun b => !b) < bitmap.length ∧
      bitmap.getD (i + (bitmap.drop i).findIdx (fun b => !b)) false = false := by
  rcases some_ with ⟨b, inside, clear⟩
  have small : (bitmap.drop i).findIdx (fun b => !b) < (bitmap.drop i).length :=
    findIdx_lt_length_of_exists ⟨b, inside, by rw [clear]; rfl⟩
  have found : (!(bitmap.drop i)[(bitmap.drop i).findIdx (fun b => !b)]) = true := findIdx_getElem (w := small)
  rw [getElem_drop] at found
  have inBitmap : i + (bitmap.drop i).findIdx (fun b => !b) < bitmap.length := by
    rw [length_drop] at small
    omega
  constructor
  · exact inBitmap
  · rw [getD_eq_getElem _ _ inBitmap]
    exact Bool.not_eq_true' _ ▸ found

theorem allocBitmapEntry_spec (ix : VnodeIndex) : ix.bit ix.allocBitmapEntry.1 = false ∧
    (∀ m, ix.allocBitmapEntry.2.bit m = true ↔ ix.bit m = true ∨ m = ix.allocBitmapEntry.1) ∧
    ix.allocBitmapEntry.2.file = ix.file ∧ ix.allocBitmapEntry.2.cache = ix.cache := by
  unfold allocBitmapEntry
  cases stopped : allocLoop ix.bitmap ix.bitmap.length ix.bitmapOffset with
  | some bp =>
    rcases firstClear (allocLoop_spec stopped) with ⟨inBitmap, clear⟩
    refine ⟨clear, ?_, rfl, rfl⟩
    intro m
    show (ix.bitmap.set _ true).getD m false = true ↔ _
    rw [getD_set]
    by_cases same : m = 8 * bp + (ix.bitmap.drop (8 * bp)).findIdx (fun b => !b)
    · rw [if_pos ⟨same, same ▸ inBitmap⟩]
      exact ⟨fun _ => .inr same, fun _ => rfl⟩
    · rw [if_neg (fun all => same all.1)]
      exact ⟨fun set => .inl set, fun either => either.resolve_right same⟩
  | none =>
    refine ⟨bit_of_length_le (Nat.le_refl _), ?_, rfl, rfl⟩
    intro m
    show (ix.bitmap ++ (List.replicate _ false).set 0 true).getD m false = true ↔ ix.bitmap.getD m false = true ∨ _
    by_cases small : m < ix.bitmap.length
    · rw [getD_append _ _ _ _ small]
      exact ⟨fun set => .inl set, fun either => either.resolve_right (Nat.ne_of_lt small)⟩
    have large := Nat.le_of_not_lt small
    have clear : ix.bitmap.getD m false = false := bit_of_length_le large
    rw [getD_append_right _ _ _ _ large, getD_set, clear]
    by_cases same : m = ix.bitmap.length
    · rw [if_pos ⟨by omega, by simp [VOLUME_BITMAP_GROWSIZE]⟩]
      exact ⟨fun _ => .inr same, fun _ => rfl⟩
    rw [if_neg (fun all => same (by omega)), getD_eq_getElem?_getD, getElem?_replicate]
    constructor
    · intro set
      split at set <;> cases set
    intro either
    rcases either with set | here
    · cases set
    · exact absurd here same

theorem freeBitmapEntry_spec (n : Nat) (ix : VnodeIndex) :
    ((ix.freeBitmapEntry n).1 = true → ∀ m, (ix.freeBitmapEntry n).2.bit m = true ↔ ix.bit m = true ∧ m ≠ n) ∧
      ((ix.freeBitmapEntry n).1 = false → (ix.freeBitmapEntry n).2 = ix) ∧
      (ix.freeBitmapEntry n).2.file = ix.file ∧ (ix.freeBitmapEntry n).2.cache = ix.cache := by
  unfold freeBitmapEntry
  simp only
  split
  · exact ⟨(fun done => by cases done), fun _ => rfl, rfl, rfl⟩
  refine ⟨fun _ m => ?_, (fun done => by cases done), rfl, rfl⟩
  show (ix.bitmap.set n false).getD m false = true ↔ ix.bit m = true ∧ m ≠ n
  rw [getD_set]
  by_cases same : m = n
  · subst same
    have clear : (if m = m ∧ m < ix.bitmap.length then false else ix.bitmap.getD m false) = false := by
      split
      · rfl
      · next large =>
        exact bit_of_length_le (Nat.le_of_not_lt fun small => large ⟨rfl, small⟩)
    rw [clear]
    exact ⟨(fun set => by cases set), fun all => absurd rfl all.2⟩
  · rw [if_neg (fun all => same all.1)]
    exact ⟨fun set => ⟨set, same⟩, fun all => all.1⟩

theorem length_markLoop (magic : UInt32) (l : List DiskVnode) (i : Nat) (bitmap : List Bool) (unique : Nat) :
    (markLoop magic l i bitmap unique).2.1.length = bitmap.length := by
  induction l generalizing i bitmap unique with
  | nil => rfl
  | cons vnode rest ih =>
    unfold markLoop
    split
    · split
      · rfl
      · rw [ih, length_set]
    · rw [ih]

theorem markLoop_spec {magic : UInt32} (l : List DiskVnode) : ∀ {i : Nat} {bitmap : List Bool} {unique : Nat},
    (markLoop magic l i bitmap unique).1 = true → i + l.length ≤ bitmap.length →
    ∀ m, (markLoop magic l i bitmap unique).2.1.getD m false = true ↔
      bitmap.getD m false = true ∨ ∃ k r, l[k]? = some r ∧ r.type ≠ vNull ∧ m = i + k := by
  induction l with
  | nil =>
    intro i bitmap unique _ _ m
    constructor
    · intro set
      exact .inl set
    intro either
    rcases either with set | ⟨k, r, found, -⟩
    · exact set
    · cases found
  | cons vnode rest ih =>
    intro i bitmap unique sound room m
    rw [length_cons] at room
    unfold markLoop at sound ⊢
    by_cases used : vnode.type ≠ vNull
    · rw [if_pos used] at sound ⊢
      by_cases magical : vnode.vnodeMagic ≠ magic
      · rw [if_pos magical] at sound
        cases sound
      rw [if_neg magical] at sound ⊢
      rw [ih sound (by rw [length_set]; omega), getD_set]
      constructor
      · intro either
        rcases either with set | ⟨k, r, found, inUse, rfl⟩
        · split at set
          · next here => exact .inr ⟨0, vnode, rfl, used, here.1⟩
          · exact .inl set
        · exact .inr ⟨k + 1, r, found, inUse, by omega⟩
      intro either
      rcases either with set | ⟨k, r, found, inUse, rfl⟩
      · left
        split
        · rfl
        · exact set
      cases k with
      | zero =>
        left
        rw [if_pos ⟨rfl, by omega⟩]
      | succ k =>
        right
        exact ⟨k, r, found, inUse, by omega⟩
    · rw [if_neg used] at sound ⊢
      rw [ih sound (by omega)]
      constructor
      · intro either
        rcases either with set | ⟨k, r, found, inUse, rfl⟩
        · exact .inl set
        · exact .inr ⟨k + 1, r, found, inUse, by omega⟩
      intro either
      rcases either with set | ⟨k, r, found, inUse, rfl⟩
      · exact .inl set
      cases k with
      | zero =>
        rw [getElem?_cons_zero, Option.some_inj] at found
        subst found
        exact absurd inUse used
      | succ k =>
        right
        exact ⟨k, r, found, inUse, by omega⟩

theorem getBitmap_spec {magic : UInt32} {nextVnodeUnique readable : Nat} {ix : VnodeIndex}
    (ok : (ix.getBitmap magic nextVnodeUnique readable).1 = true) :
    ∀ m, (ix.getBitmap magic nextVnodeUnique readable).2.bit m = true ↔
      m < readable ∧ ∃ r, ix.file[m]? = some r ∧ r.type ≠ vNull := by
  intro m
  unfold getBitmap at ok ⊢
  simp only [Bool.and_eq_true] at ok
  show (markLoop magic _ 0 _ 0).2.1.getD m false = true ↔ _
  rw [markLoop_spec _ ok.1]
  · constructor
    · intro either
      rcases either with set | ⟨k, r, found, inUse, here⟩
      · rw [getD_eq_getElem?_getD, getElem?_replicate] at set
        split at set <;> cases set
      rw [Nat.zero_add] at here
      subst here
      rw [getElem?_take] at found
      split at found
      · next inside => exact ⟨inside, r, found, inUse⟩
      · cases found
    · rintro ⟨inside, r, found, inUse⟩
      right
      exact ⟨m, r, by rw [getElem?_take_of_lt inside]; exact found, inUse, (Nat.zero_add m).symm⟩
  · rw [length_replicate, Nat.zero_add]
    calc (ix.file.take readable).length ≤ ix.file.length := length_take_le' _ _
      _ ≤ 8 * ((ix.file.length / 8 + 10) / 4 * 4) := by omega

theorem write_found {ix : VnodeIndex} {n m : Nat} {disk r : DiskVnode} (found : (ix.write n disk).file[m]? = some r)
    (inUse : r.type ≠ vNull) : (m = n ∧ r = disk) ∨ (m ≠ n ∧ ix.file[m]? = some r) := by
  unfold write at found
  split at found
  · next small =>
    simp only [getElem?_set] at found
    by_cases same : n = m
    · rw [if_pos same, if_pos small, Option.some_inj] at found
      exact .inl ⟨same.symm, found.symm⟩
    · rw [if_neg same] at found
      exact .inr ⟨fun h => same h.symm, found⟩
  next large =>
  by_cases before : m < ix.file.length
  · rw [append_assoc, getElem?_append_left before] at found
    exact .inr ⟨by omega, found⟩
  rw [append_assoc, getElem?_append_right (Nat.le_of_not_lt before)] at found
  by_cases between : m - ix.file.length < n - ix.file.length
  · rw [getElem?_append_left (by rw [length_replicate]; exact between), getElem?_replicate,
      if_pos between, Option.some_inj] at found
    rw [← found] at inUse
    exact absurd rfl inUse
  rw [getElem?_append_right (by rw [length_replicate]; omega), length_replicate, getElem?_singleton] at found
  split at found
  · next last =>
    rw [Option.some_inj] at found
    exact .inl ⟨by omega, found.symm⟩
  · cases found

theorem grow_found {ix : VnodeIndex} {n k m : Nat} {r : DiskVnode} (found : (ix.grow n k).file[m]? = some r)
    (inUse : r.type ≠ vNull) : ix.file[m]? = some r := by
  unfold grow at found
  split at found
  · exact found
  by_cases before : m < ix.file.length
  · rw [getElem?_append_left before] at found
    exact found
  rw [getElem?_append_right (Nat.le_of_not_lt before), getElem?_replicate] at found
  split at found
  · rw [Option.some_inj] at found
    rw [← found] at inUse
    exact absurd rfl inUse
  · cases found

theorem write_bitmap (ix : VnodeIndex) (n : Nat) (disk : DiskVnode) :
    (ix.write n disk).bitmap = ix.bitmap ∧ (ix.write n disk).cache = ix.cache := by
  unfold write
  split
  · exact ⟨rfl, rfl⟩
  · exact ⟨rfl, rfl⟩

theorem grow_bitmap (ix : VnodeIndex) (n k : Nat) : (ix.grow n k).bitmap = ix.bitmap ∧ (ix.grow n k).cache = ix.cache := by
  unfold grow
  split
  · exact ⟨rfl, rfl⟩
  · exact ⟨rfl, rfl⟩

theorem cached_same (ix : VnodeIndex) (n : Nat) (vnp : Option Vnode) : (ix.cached n vnp).cache n = vnp := by
  exact Function.update_self n vnp ix.cache

theorem cached_other (ix : VnodeIndex) (vnp : Option Vnode) (other : m ≠ n) : (ix.cached n vnp).cache m = ix.cache m := by
  exact Function.update_of_ne other vnp ix.cache

theorem allocBitmapEntry_length (ix : VnodeIndex) (whole : 8 ∣ ix.bitmap.length) : 8 ∣ ix.allocBitmapEntry.2.bitmap.length := by
  unfold allocBitmapEntry
  split
  · show 8 ∣ (ix.bitmap.set _ true).length
    rw [length_set]
    exact whole
  · show 8 ∣ (ix.bitmap ++ (List.replicate _ false).set 0 true).length
    rw [length_append, length_set, length_replicate]
    exact Nat.dvd_add whole (Nat.dvd_mul_right 8 VOLUME_BITMAP_GROWSIZE)

theorem freeBitmapEntry_length (n : Nat) (ix : VnodeIndex) : (ix.freeBitmapEntry n).2.bitmap.length = ix.bitmap.length := by
  unfold freeBitmapEntry
  simp only
  split
  · rfl
  · exact length_set

theorem freeBitmapEntry_set (whole : 8 ∣ ix.bitmap.length) (set : ix.bit n = true) : (ix.freeBitmapEntry n).1 = true := by
  unfold freeBitmapEntry
  simp only
  split
  · next large =>
    have outside : ix.bitmap.length ≤ n := by
      omega
    rw [bit_of_length_le outside] at set
    cases set
  · rfl

structure Agrees (ix : VnodeIndex) : Prop where
  whole : 8 ∣ ix.bitmap.length
  disk : ∀ n r, ix.file[n]? = some r → r.type ≠ vNull → ix.bit n = true
  cache : ∀ n vnp, ix.cache n = some vnp → vnp.disk.type ≠ vNull → ix.bit n = true

section

variable (agrees : ix.Agrees)
include agrees

theorem Agrees.of {ix' : VnodeIndex} (bitmap : ix'.bitmap = ix.bitmap)
    (disk : ∀ m r, ix'.file[m]? = some r → r.type ≠ vNull → ix.file[m]? = some r ∨ ix.bit m = true)
    (cache : ∀ m vnp, ix'.cache m = some vnp → vnp.disk.type ≠ vNull → ix.cache m = some vnp ∨ ix.bit m = true) :
    ix'.Agrees := by
  have bits : ∀ m, ix'.bit m = ix.bit m := by
    intro m
    unfold bit
    rw [bitmap]
  constructor
  · rw [bitmap]
    exact agrees.whole
  · intro m r found inUse
    rw [bits]
    rcases disk m r found inUse with old | set
    · exact agrees.disk m r old inUse
    · exact set
  · intro m vnp found inUse
    rw [bits]
    rcases cache m vnp found inUse with old | set
    · exact agrees.cache m vnp old inUse
    · exact set

theorem Agrees.write {disk : DiskVnode} (has : disk.type ≠ vNull → ix.bit n = true) :
    (ix.write n disk).Agrees := by
  rcases write_bitmap ix n disk with ⟨bitmap, cache⟩
  apply agrees.of bitmap
  · intro m r found inUse
    rcases write_found found inUse with ⟨rfl, rfl⟩ | ⟨-, old⟩
    · exact .inr (has inUse)
    · exact .inl old
  · intro m vnp found _
    rw [cache] at found
    exact .inl found

theorem Agrees.grow (k : Nat) : (ix.grow n k).Agrees := by
  rcases grow_bitmap ix n k with ⟨bitmap, cache⟩
  apply agrees.of bitmap
  · intro m r found inUse
    exact .inl (grow_found found inUse)
  · intro m vnp found _
    rw [cache] at found
    exact .inl found

theorem Agrees.cached {vnp : Option Vnode}
    (has : ∀ v, vnp = some v → v.disk.type ≠ vNull → ix.bit n = true) : (ix.cached n vnp).Agrees := by
  have bitmap : (ix.cached n vnp).bitmap = ix.bitmap := rfl
  apply agrees.of bitmap
  · intro m r found _
    exact .inl found
  intro m v found inUse
  by_cases same : m = n
  · subst same
    rw [cached_same] at found
    exact .inr (has v found inUse)
  · rw [cached_other _ _ same] at found
    exact .inl found

theorem Agrees.allocBitmapEntry : ix.allocBitmapEntry.2.Agrees := by
  rcases allocBitmapEntry_spec ix with ⟨-, bits, file, cache⟩
  constructor
  · exact allocBitmapEntry_length ix agrees.whole
  · intro m r found inUse
    rw [file] at found
    exact (bits m).mpr (.inl (agrees.disk m r found inUse))
  · intro m vnp found inUse
    rw [cache] at found
    exact (bits m).mpr (.inl (agrees.cache m vnp found inUse))

theorem Agrees.freeBitmapEntry (disk : ∀ r, ix.file[n]? = some r → r.type = vNull)
    (cache : ∀ vnp, ix.cache n = some vnp → vnp.disk.type = vNull) : (ix.freeBitmapEntry n).2.Agrees := by
  rcases freeBitmapEntry_spec n ix with ⟨done, failed, file, cache'⟩
  cases result : (ix.freeBitmapEntry n).1 with
  | true =>
    constructor
    · rw [freeBitmapEntry_length]
      exact agrees.whole
    · intro m r found inUse
      rw [file] at found
      apply (done result m).mpr
      constructor
      · exact agrees.disk m r found inUse
      · intro here
        subst here
        exact inUse (disk r found)
    · intro m vnp found inUse
      rw [cache'] at found
      apply (done result m).mpr
      constructor
      · exact agrees.cache m vnp found inUse
      · intro here
        subst here
        exact inUse (cache vnp found)
  | false =>
    rw [failed result]
    exact agrees

end

theorem bit_free_alloc (ix : VnodeIndex) (whole : 8 ∣ ix.bitmap.length) (m : Nat) :
    (ix.allocBitmapEntry.2.freeBitmapEntry ix.allocBitmapEntry.1).2.bit m = ix.bit m := by
  rcases allocBitmapEntry_spec ix with ⟨clear, bits, -⟩
  have freed := freeBitmapEntry_set (allocBitmapEntry_length ix whole) ((bits ix.allocBitmapEntry.1).mpr (.inr rfl))
  rw [Bool.eq_iff_iff, (freeBitmapEntry_spec ix.allocBitmapEntry.1 ix.allocBitmapEntry.2).1 freed m, bits m]
  constructor
  · intro all
    exact all.1.resolve_right all.2
  intro set
  constructor
  · exact .inl set
  · intro here
    rw [here, clear] at set
    cases set

theorem getBitmap_agrees {magic : UInt32} {nextVnodeUnique readable : Nat}
    (ok : (ix.getBitmap magic nextVnodeUnique readable).1 = true)
    (read : ∀ n r, ix.file[n]? = some r → readable ≤ n → r.type = vNull) (empty : ∀ n, ix.cache n = none) :
    (ix.getBitmap magic nextVnodeUnique readable).2.Agrees := by
  constructor
  · show 8 ∣ (markLoop magic _ 0 (List.replicate _ false) 0).2.1.length
    rw [length_markLoop, length_replicate]
    exact Nat.dvd_mul_right 8 _
  · intro n r found inUse
    apply (getBitmap_spec ok n).mpr
    constructor
    · exact Nat.lt_of_not_le fun outside => inUse (read n r found outside)
    · exact ⟨r, found, inUse⟩
  · intro n vnp found _
    rw [show (ix.getBitmap magic nextVnodeUnique readable).2.cache n = ix.cache n from rfl, empty] at found
    cases found

end VnodeIndex

end OpenAFS.Vol
