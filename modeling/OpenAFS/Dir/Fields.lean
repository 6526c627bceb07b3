import OpenAFS.Dir.Directory

namespace OpenAFS.Dir

open Lib

theorem length_le_pwrite (d : DirFile) (p : Nat) (bytes : List UInt8) : d.length ≤ (pwrite d p bytes).length := by
  rw [length_pwrite]
  split <;> omega

variable {d d' : DirFile} {p x page b page' b' : Nat}

theorem byteAt_pwrite_of_outside {bytes : List UInt8}
    (outside : x < p ∨ p + bytes.length ≤ x) : byteAt (pwrite d p bytes) x = byteAt d x := by
  rw [byteAt_pwrite, if_neg (by omega)]

theorem hasPage_of_length {pages : Nat} (length : pageSize * pages ≤ d.length)
    (inside : page < pages) : hasPage d page = true := by
  unfold hasPage pageSize at *
  rw [decide_eq_true_eq]
  omega

theorem shortAt_lt (d : DirFile) (p : Nat) : shortAt d p < 65536 := by
  have high := (byteAt d p).toNat_lt
  have low := (byteAt d (p + 1)).toNat_lt
  unfold shortAt
  omega

theorem shortAt_congr (high : byteAt d' p = byteAt d p)
    (low : byteAt d' (p + 1) = byteAt d (p + 1)) : shortAt d' p = shortAt d p := by
  rw [shortAt, shortAt, high, low]

theorem longAt_congr (same : ∀ i < 4, byteAt d' (p + i) = byteAt d (p + i)) : longAt d' p = longAt d p := by
  have first := same 0 (by decide)
  rw [Nat.add_zero] at first
  rw [longAt, longAt, first, same 1 (by decide), same 2 (by decide), same 3 (by decide)]

theorem byteAt_putShort_of_outside {v : Nat} (outside : x < p ∨ p + 2 ≤ x) :
    byteAt (putShort d p v) x = byteAt d x := byteAt_pwrite_of_outside outside

theorem shortAt_putShort {d : DirFile} {p v : Nat} (small : v < 65536) : shortAt (putShort d p v) p = v := by
  have high : byteAt (putShort d p v) p = .ofNat (v / 256) := by
    rw [putShort, byteAt_pwrite, if_pos ⟨Nat.le_refl p, by simp⟩, Nat.sub_self]
    rfl
  have low : byteAt (putShort d p v) (p + 1) = .ofNat v := by
    rw [putShort, byteAt_pwrite, if_pos ⟨by omega, by simp⟩, Nat.add_sub_cancel_left]
    rfl
  rw [shortAt, high, low, UInt8.toNat_ofNat', UInt8.toNat_ofNat']
  omega

theorem shortAt_putShort_of_outside {v q : Nat} (outside : q + 2 ≤ p ∨ p + 2 ≤ q) : shortAt (putShort d p v) q = shortAt d q :=
  shortAt_congr (byteAt_putShort_of_outside (by omega)) (byteAt_putShort_of_outside (by omega))

theorem byteAt_putLong_of_outside {v : UInt32} (outside : x < p ∨ p + 4 ≤ x) :
    byteAt (putLong d p v) x = byteAt d x := byteAt_pwrite_of_outside outside

theorem longAt_putLong (d : DirFile) (p : Nat) (v : UInt32) : longAt (putLong d p v) p = v := by
  have bytes : ∀ i < 4, byteAt (putLong d p v) (p + i) = byteAt (wordBytes v) i := by
    intro i small
    rw [putLong, byteAt_pwrite, if_pos ⟨by omega, by rw [wordBytes_length]; omega⟩, Nat.add_sub_cancel_left]
  have first := bytes 0 (by decide)
  rw [Nat.add_zero] at first
  rw [longAt, first, bytes 1 (by decide), bytes 2 (by decide), bytes 3 (by decide)]
  exact bytesWord_wordBytes v

def mapBits : Nat := 128

theorem bitAt_congr (same : byteAt d' (freebitmapAt page + b / 8) = byteAt d (freebitmapAt page + b / 8)) :
    bitAt d' page b = bitAt d page b := by
  rw [bitAt, bitAt, same]

theorem bit_or_mask (byte : UInt8) (b c : Nat) :
    (byte ||| bitMask b).toBitVec.getLsbD c = (byte.toBitVec.getLsbD c || decide (b % 8 = c)) := by
  rw [bitMask, UInt8.toBitVec_or, BitVec.getLsbD_or, BitVec.getLsbD_twoPow]
  simp only [Nat.mod_lt b (by decide : 0 < 8), decide_true, Bool.true_and]

theorem bit_and_mask (byte : UInt8) (b c : Nat) (small : c < 8) :
    (byte &&& ~~~ bitMask b).toBitVec.getLsbD c = (byte.toBitVec.getLsbD c && !decide (b % 8 = c)) := by
  rw [bitMask, UInt8.toBitVec_and, UInt8.toBitVec_not, BitVec.getLsbD_and, BitVec.getLsbD_not, BitVec.getLsbD_twoPow]
  simp only [Nat.mod_lt b (by decide : 0 < 8), decide_true, Bool.true_and, small]

theorem freebitmapAt_inj (small : b < mapBits) (small' : b' < mapBits)
    (same : freebitmapAt page + b / 8 = freebitmapAt page' + b' / 8) : page = page' ∧ b / 8 = b' / 8 := by
  unfold freebitmapAt pageSize mapBits at *
  omega

theorem byteAt_setBit_of_outside (outside : x ≠ freebitmapAt page + b / 8) : byteAt (setBit d page b) x = byteAt d x :=
  byteAt_pwrite_of_outside (by simp only [List.length_singleton]; omega)

theorem byteAt_clearBit_of_outside (outside : x ≠ freebitmapAt page + b / 8) : byteAt (clearBit d page b) x = byteAt d x :=
  byteAt_pwrite_of_outside (by simp only [List.length_singleton]; omega)

theorem bitAt_setBit (small : b < mapBits) (small' : b' < mapBits) :
    bitAt (setBit d page b) page' b' = (bitAt d page' b' || decide (page = page' ∧ b = b')) := by
  by_cases here : freebitmapAt page + b / 8 = freebitmapAt page' + b' / 8
  · obtain ⟨rfl, byte⟩ := freebitmapAt_inj small small' here
    rw [bitAt, setBit, byteAt_pwrite, if_pos (by simp [here]), ← here, Nat.sub_self]
    change (byteAt d (freebitmapAt page + b / 8) ||| bitMask b).toBitVec.getLsbD (b' % 8) = _
    rw [bit_or_mask, bitAt, ← byte]
    congr 1
    simp only [true_and, decide_eq_decide]
    omega
  · have other : ¬ (page = page' ∧ b = b') := by
      rintro ⟨rfl, rfl⟩
      exact here rfl
    rw [bitAt_congr (byteAt_setBit_of_outside (Ne.symm here))]
    simp [other]

theorem bitAt_clearBit (small : b < mapBits) (small' : b' < mapBits) :
    bitAt (clearBit d page b) page' b' = (bitAt d page' b' && !decide (page = page' ∧ b = b')) := by
  by_cases here : freebitmapAt page + b / 8 = freebitmapAt page' + b' / 8
  · obtain ⟨rfl, byte⟩ := freebitmapAt_inj small small' here
    rw [bitAt, clearBit, byteAt_pwrite, if_pos (by simp [here]), ← here, Nat.sub_self]
    change (byteAt d (freebitmapAt page + b / 8) &&& ~~~ bitMask b).toBitVec.getLsbD (b' % 8) = _
    rw [bit_and_mask _ _ _ (Nat.mod_lt _ (by decide)), bitAt, ← byte]
    congr 2
    simp only [true_and, decide_eq_decide]
    omega
  · have other : ¬ (page = page' ∧ b = b') := by
      rintro ⟨rfl, rfl⟩
      exact here rfl
    rw [bitAt_congr (byteAt_clearBit_of_outside (Ne.symm here))]
    simp [other]

theorem dirHash_lt (string : List UInt8) : dirHash string < nHashEnt := by
  unfold dirHash nHashEnt
  dsimp only
  split
  · omega
  · split <;> omega

end OpenAFS.Dir
