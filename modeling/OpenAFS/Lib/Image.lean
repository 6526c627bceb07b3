import Mathlib.Data.List.GetD
import Mathlib.Data.List.OfFn
import OpenAFS.Lib.ByteOrder

namespace OpenAFS.Lib

abbrev Image := Nat → UInt8

def putBytes (m : Image) (p : Nat) (bytes : List UInt8) : Image :=
  fun q => if p ≤ q ∧ q < p + bytes.length then bytes.getD (q - p) 0 else m q

def getWord (m : Image) (p : Nat) : UInt32 := bytesWord [m p, m (p + 1), m (p + 2), m (p + 3)]

def putWord (m : Image) (p : Nat) (x : UInt32) : Image := putBytes m p (wordBytes x)

def copy (dst : Image) (d : Nat) (src : Image) (s n : Nat) : Image :=
  fun q => if d ≤ q ∧ q < d + n then src (s + (q - d)) else dst q

variable {m m' : Image} {p q n : Nat}

theorem putBytes_inside {bytes : List UInt8} {i : Nat} (inside : i < bytes.length) : putBytes m p bytes (p + i) = bytes[i] := by
  unfold putBytes
  rw [if_pos ⟨by omega, by omega⟩, Nat.add_sub_cancel_left, List.getD_eq_getElem _ _ inside]

theorem putBytes_outside {bytes : List UInt8} (outside : q < p ∨ p + bytes.length ≤ q) : putBytes m p bytes q = m q := by
  unfold putBytes
  rw [if_neg (by omega)]

variable {f : Fin n → UInt8}

theorem putBytes_ofFn (i : Fin n) : putBytes m p (List.ofFn f) (p + i) = f i := by
  rw [putBytes_inside (by rw [List.length_ofFn]; exact i.isLt), List.getElem_ofFn]

theorem putBytes_ofFn_outside (outside : q < p ∨ p + n ≤ q) : putBytes m p (List.ofFn f) q = m q := by
  apply putBytes_outside
  rwa [List.length_ofFn]

theorem putWord_outside {x : UInt32} (outside : q < p ∨ p + 4 ≤ q) : putWord m p x q = m q :=
  putBytes_outside outside

theorem getWord_congr (same : ∀ i < 4, m (p + i) = m' (q + i)) : getWord m p = getWord m' q := by
  unfold getWord
  rw [same 1 (by decide), same 2 (by decide), same 3 (by decide)]
  rw [show m p = m' q from same 0 (by decide)]

theorem getWord_putWord {x : UInt32} : getWord (putWord m p x) p = x := by
  have byte {i : Nat} (inside : i < 4) : putWord m p x (p + i) = (wordBytes x)[i] := putBytes_inside inside
  have first : putWord m p x p = (wordBytes x)[0] := byte (by decide : 0 < 4)
  calc
    getWord (putWord m p x) p = bytesWord (wordBytes x) := by
      unfold getWord
      rw [first, byte (by decide : 1 < 4), byte (by decide : 2 < 4), byte (by decide : 3 < 4)]
      rfl
    _ = x := bytesWord_wordBytes x

theorem getWord_putWord_apart {x : UInt32} (apart : q + 4 ≤ p ∨ p + 4 ≤ q) : getWord (putWord m p x) q = getWord m q :=
  getWord_congr fun i small => putWord_outside (by omega)

theorem getWord_putBytes_apart (apart : q + 4 ≤ p ∨ p + n ≤ q) :
    getWord (putBytes m p (List.ofFn f)) q = getWord m q :=
  getWord_congr fun i small => putBytes_ofFn_outside (by omega)

theorem copy_inside {src : Image} {s i : Nat} (inside : i < n) : copy m p src s n (p + i) = src (s + i) := by
  unfold copy
  rw [if_pos ⟨by omega, by omega⟩, Nat.add_sub_cancel_left]

theorem copy_outside {src : Image} {s : Nat} (outside : q < p ∨ p + n ≤ q) : copy m p src s n q = m q := by
  unfold copy
  rw [if_neg (by omega)]

end OpenAFS.Lib
