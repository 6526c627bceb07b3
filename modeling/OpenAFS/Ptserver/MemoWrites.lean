import OpenAFS.Lib.ByteOrder
import OpenAFS.Lib.FileBytes
import OpenAFS.Ptserver.Database
import OpenAFS.Ptserver.MapLaws

namespace OpenAFS.Ptserver

open Lib

def prType : UInt32 := 0x3f

def netLong (bp : List UInt8) (p : Nat) : UInt32 :=
  bytesWord [byteAt bp p, byteAt bp (p + 1), byteAt bp (p + 2), byteAt bp (p + 3)]

/-- `xPT`: the type of the entry at an address in a buffer. -/
def xPT (bp : List UInt8) (p : Nat) (x : UInt32) : Bool := netLong bp p &&& prType = x

def negId (bp : List UInt8) (p : Nat) : Int := (-netLong bp (p + 4)).toBitVec.toInt

structure SgMaps where
  found : Map
  flagged : Map

namespace SgMaps

def remove (maps : SgMaps) (node : Int) : SgMaps :=
  ⟨bicMap maps.found (addMap nilMap node), bicMap maps.flagged (addMap nilMap node)⟩

/-- The loop of `pt_mywrite` over the `l` bytes behind position `p` of the entries, which are at `cp` in the buffer. -/
def removeFrom (bp : List UInt8) (maps : SgMaps) (cp p l : Nat) : SgMaps :=
  if l = 0 then maps
  else
    let o := p % entrySize
    let c := min (entrySize - o) l
    let maps := if o = 0 ∧ 8 ≤ c ∧ xPT bp cp prGrp then maps.remove (negId bp cp) else maps
    removeFrom bp maps (cp + c) (p + c) (l - c)
termination_by l
decreasing_by
  unfold entrySize
  omega

end SgMaps

/-- `pt_mywrite`: the maps, and what the routine returns that writes. -/
def ptMywrite (headersize : Nat) (save : Int → List UInt8 → Nat → Int) (maps : SgMaps) (fno : Int) (bp : List UInt8)
    (pos : Nat) : SgMaps × Int :=
  let maps :=
    if fno = 0 ∧ headersize < pos + bp.length then
      let p : Int := pos - headersize
      let l : Int := bp.length
      if p < 0 then maps.removeFrom bp 0 0 (l + p).toNat else maps.removeFrom bp 0 p.toNat l.toNat
    else maps
  (maps, save fno bp pos)

namespace SgMaps

variable {bp : List UInt8} {maps : SgMaps} {cp p l : Nat} {x : Int}

structure Distinct (maps : SgMaps) : Prop where
  found : Ptserver.Distinct maps.found.pages
  flagged : Ptserver.Distinct maps.flagged.pages

def Has (maps : SgMaps) (x : Int) : Prop := inMap maps.found x = true ∨ inMap maps.flagged x = true

theorem inMap_bic_single {m : Map} (distinct : Ptserver.Distinct m.pages) (node n : Int) :
    Ptserver.Distinct (bicMap m (addMap nilMap node)).pages ∧
      (inMap (bicMap m (addMap nilMap node)) n = true ↔ inMap m n = true ∧ n ≠ node) := by
  have empty : Ptserver.Distinct nilMap.pages := List.nodup_nil
  have single := distinct_addMap empty node
  refine ⟨distinct_andMap distinct single, ?_⟩
  rw [inMap_bicMap distinct single, inMap_addMap empty (.inl rfl)]
  change (_ && !(_ || false)) = true ↔ _
  rw [Bool.or_false, Bool.and_eq_true, Bool.not_eq_true', decide_eq_false_iff_not]

theorem remove_spec (distinct : maps.Distinct) (node : Int) :
    (maps.remove node).Distinct ∧ ((maps.remove node).Has x ↔ maps.Has x ∧ x ≠ node) := by
  obtain ⟨found, inFound⟩ := inMap_bic_single distinct.found node x
  obtain ⟨flagged, inFlagged⟩ := inMap_bic_single distinct.flagged node x
  exact ⟨⟨found, flagged⟩, (or_congr inFound inFlagged).trans or_and_right.symm⟩

def LooksAt (bp : List UInt8) (cp p l : Nat) (x : Int) : Prop :=
  ∃ j, p ≤ entrySize * j ∧ entrySize * j + 8 ≤ p + l ∧ xPT bp (cp + (entrySize * j - p)) prGrp = true ∧
    negId bp (cp + (entrySize * j - p)) = x

theorem LooksAt.step : LooksAt bp cp p l x ↔
      (p % entrySize = 0 ∧ 8 ≤ min (entrySize - p % entrySize) l ∧ xPT bp cp prGrp = true) ∧ negId bp cp = x ∨
        LooksAt bp (cp + min (entrySize - p % entrySize) l) (p + min (entrySize - p % entrySize) l)
          (l - min (entrySize - p % entrySize) l) x := by
  unfold LooksAt entrySize
  constructor
  · rintro ⟨j, first, last, group, same⟩
    by_cases here : 192 * j = p
    · rw [here, Nat.sub_self] at group same
      exact .inl ⟨⟨by omega, by omega, group⟩, same⟩
    · have place : cp + (192 * j - p) = cp + min (192 - p % 192) l + (192 * j - (p + min (192 - p % 192) l)) := by omega
      rw [place] at group same
      exact .inr ⟨j, by omega, by omega, group, same⟩
  · rintro (⟨⟨start, room, group⟩, same⟩ | ⟨j, first, last, group, same⟩)
    · have place : cp + (192 * (p / 192) - p) = cp := by omega
      exact ⟨p / 192, by omega, by omega, place.symm ▸ group, place.symm ▸ same⟩
    · have place : cp + min (192 - p % 192) l + (192 * j - (p + min (192 - p % 192) l)) = cp + (192 * j - p) := by omega
      rw [place] at group same
      exact ⟨j, by omega, by omega, group, same⟩

theorem removeFrom_spec (distinct : maps.Distinct) : (maps.removeFrom bp cp p l).Distinct ∧
      ((maps.removeFrom bp cp p l).Has x ↔ maps.Has x ∧ ¬ LooksAt bp cp p l x) := by
  induction l using Nat.strong_induction_on generalizing maps cp p with
  | _ l ih =>
    rw [removeFrom]
    split
    · rename_i done
      refine ⟨distinct, (and_iff_left ?_).symm⟩
      rintro ⟨j, first, last, -⟩
      omega
    rename_i more
    have less : l - min (entrySize - p % entrySize) l < l := by
      unfold entrySize
      omega
    rw [LooksAt.step, not_or, ← and_assoc]
    dsimp only
    split
    · rename_i here
      obtain ⟨distinct', has⟩ := @remove_spec _ x distinct (negId bp cp)
      obtain ⟨distinct'', has'⟩ := ih _ less distinct'
      refine ⟨distinct'', has'.trans (and_congr_left fun _ => has.trans (and_congr_right fun _ => ?_))⟩
      rw [not_and, imp_iff_right here]
      exact ne_comm
    · rename_i nothing
      obtain ⟨distinct', has⟩ := ih _ less distinct
      exact ⟨distinct', has.trans (and_congr_left fun _ => (and_iff_left fun both => nothing both.1).symm)⟩

end SgMaps

/-- The first 8 bytes of entry `j` are among those written, and they are those of a group. -/
structure WritesGroup (headersize pos : Nat) (bp : List UInt8) (j : Nat) : Prop where
  start : pos ≤ headersize + entrySize * j
  end_ : headersize + entrySize * j + 8 ≤ pos + bp.length
  group : xPT bp (headersize + entrySize * j - pos) prGrp = true

section Writes

variable {headersize pos : Nat} {save : Int → List UInt8 → Nat → Int} {maps : SgMaps} {bp : List UInt8} {j : Nat}

theorem ptMywrite_behind (behind : headersize ≤ pos) (some : headersize < pos + bp.length) :
    (ptMywrite headersize save maps 0 bp pos).1 = maps.removeFrom bp 0 (pos - headersize) bp.length := by
  have notBefore : ¬ ((pos : Int) - headersize < 0) := by omega
  have offset : ((pos : Int) - headersize).toNat = pos - headersize := by omega
  unfold ptMywrite
  rw [if_pos ⟨rfl, some⟩]
  simp only [if_neg notBefore, offset, Int.toNat_natCast]

theorem ptMywrite_across (across : pos < headersize) (some : headersize < pos + bp.length) :
    (ptMywrite headersize save maps 0 bp pos).1 = maps.removeFrom bp 0 0 (pos + bp.length - headersize) := by
  have before : (pos : Int) - headersize < 0 := by omega
  have rest : ((bp.length : Int) + (pos - headersize)).toNat = pos + bp.length - headersize := by omega
  unfold ptMywrite
  rw [if_pos ⟨rfl, some⟩]
  simp only [if_pos before, rest]

theorem WritesGroup.looksAt (writes : WritesGroup headersize pos bp j) (behind : headersize ≤ pos) :
    SgMaps.LooksAt bp 0 (pos - headersize) bp.length (negId bp (headersize + entrySize * j - pos)) := by
  have start := writes.start
  have last := writes.end_
  have place : 0 + (entrySize * j - (pos - headersize)) = headersize + entrySize * j - pos := by omega
  exact ⟨j, by omega, by omega, place.symm ▸ writes.group, place.symm ▸ rfl⟩

end Writes

/-- The maps forget every group whose entry is written when the write begins behind the header. Of a write that begins in
    the header they forget the groups whose entries are where the loop looks, from the start of the buffer on. -/
theorem written_groups_forgotten (headersize : Nat) (save : Int → List UInt8 → Nat → Int) (maps : SgMaps)
    (bp : List UInt8) (pos : Nat) (found : Built maps.found) (flagged : Built maps.flagged) :
    (∀ j, WritesGroup headersize pos bp j →
        ¬ (ptMywrite headersize save maps 0 bp pos).1.Has (negId bp (headersize + entrySize * j - pos))) ↔
      headersize ≤ pos ∨ ∀ j, WritesGroup headersize pos bp j → ¬ maps.Has (negId bp (headersize + entrySize * j - pos)) ∨
          ∃ i, headersize + entrySize * i + 8 ≤ pos + bp.length ∧ xPT bp (entrySize * i) prGrp = true ∧
            negId bp (entrySize * i) = negId bp (headersize + entrySize * j - pos) := by
  have distinct : maps.Distinct := ⟨found.distinct, flagged.distinct⟩
  by_cases behind : headersize ≤ pos
  · refine iff_of_true (fun j writes => ?_) (.inl behind)
    have last := writes.end_
    rw [ptMywrite_behind behind (by omega), (SgMaps.removeFrom_spec distinct).2]
    exact fun both => both.2 (writes.looksAt behind)
  rw [or_iff_right behind]
  refine forall_congr' fun j => forall_congr' fun writes => ?_
  have start := writes.start
  have last := writes.end_
  rw [ptMywrite_across (by omega) (by omega), (SgMaps.removeFrom_spec distinct).2, not_and_or, not_not]
  refine or_congr_right (exists_congr fun i => ?_)
  rw [Nat.zero_add, Nat.sub_zero, Nat.zero_add, and_iff_right (Nat.zero_le _)]
  exact and_congr_left fun _ => by omega

/-- The page of 1024 bytes with the end of the header and a first entry, that of group -205. -/
def straddling : List UInt8 := List.replicate 64 0 ++ ([0, 0, 0, 2, 255, 255, 255, 51] ++ List.replicate 952 0)

theorem length_straddling : straddling.length = 1024 := by
  unfold straddling
  rw [List.length_append, List.length_append, List.length_replicate, List.length_replicate]
  rfl

theorem written_groups_forgotten_straddling : (∀ j, WritesGroup headerSize 65536 straddling j →
        ¬ (ptMywrite headerSize (fun _ _ _ => 0) ⟨nilMap, nilMap⟩ 0 straddling 65536).1.Has
          (negId straddling (headerSize + entrySize * j - 65536))) ↔
      headerSize ≤ 65536 ∨ ∀ j, WritesGroup headerSize 65536 straddling j →
        ¬ (⟨nilMap, nilMap⟩ : SgMaps).Has (negId straddling (headerSize + entrySize * j - 65536)) ∨
          ∃ i, headerSize + entrySize * i + 8 ≤ 65536 + straddling.length ∧ xPT straddling (entrySize * i) prGrp = true ∧
            negId straddling (entrySize * i) = negId straddling (headerSize + entrySize * j - 65536) :=
  written_groups_forgotten _ _ _ _ _ .nil .nil

theorem byteAt_straddling {p : Nat} (outside : p < 64 ∨ 72 ≤ p) : byteAt straddling p = 0 := by
  unfold straddling
  rw [byteAt_append, List.length_replicate, byteAt_append, byteAt_replicate, byteAt_replicate]
  split
  · rfl
  · rw [if_neg]
    change ¬ p - 64 < 8
    omega

/-- A group stays in a map when the page is written in which the entries begin. -/
theorem first_entries_not_forgotten : ¬ ∀ (headersize : Nat) (save : Int → List UInt8 → Nat → Int) (maps : SgMaps)
    (bp : List UInt8) (pos : Nat), Built maps.found → Built maps.flagged → ∀ j, WritesGroup headersize pos bp j →
      ¬ (ptMywrite headersize save maps 0 bp pos).1.Has (negId bp (headersize + entrySize * j - pos)) := by
  intro forgets
  have built : Built (addMap nilMap 205) := .add .nil (by decide)
  have writes : WritesGroup headerSize 65536 straddling 0 :=
    ⟨by decide, by rw [length_straddling]; decide, by decide +kernel⟩
  refine forgets headerSize (fun _ _ _ => 0) ⟨addMap nilMap 205, nilMap⟩ straddling 65536 built .nil 0 writes ?_
  have looked : ¬ SgMaps.LooksAt straddling 0 0 (65536 + straddling.length - headerSize)
      (negId straddling (headerSize + entrySize * 0 - 65536)) := by
    rintro ⟨j, -, -, group, -⟩
    rw [Nat.zero_add, Nat.sub_zero] at group
    have outside : ∀ i < 4, entrySize * j + i < 64 ∨ 72 ≤ entrySize * j + i := by
      unfold entrySize
      omega
    unfold xPT netLong at group
    have first : byteAt straddling (entrySize * j) = 0 := byteAt_straddling (outside 0 (by decide))
    rw [first, byteAt_straddling (outside 1 (by decide)),
      byteAt_straddling (outside 2 (by decide)), byteAt_straddling (outside 3 (by decide))] at group
    revert group
    decide
  have distinct : SgMaps.Distinct ⟨addMap nilMap 205, nilMap⟩ := ⟨built.distinct, List.nodup_nil⟩
  rw [ptMywrite_across (by decide) (by rw [length_straddling]; decide), (SgMaps.removeFrom_spec distinct).2]
  exact ⟨.inl (by decide +kernel), looked⟩

end OpenAFS.Ptserver
