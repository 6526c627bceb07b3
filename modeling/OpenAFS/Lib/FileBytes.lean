import Mathlib.Data.List.GetD
import Mathlib.Data.UInt

namespace OpenAFS.Lib

open List

variable {α : Type*}

def pread (file : List α) (pos n : Nat) : List α := (file.drop pos).take n

variable (file : List α) (pos : Nat) (n : Nat)

theorem length_pread : (pread file pos n).length = min n (file.length - pos) := by
  unfold pread
  rw [length_take, length_drop]

variable [Zero α]

/-- What `write` makes of a file; a gap before `pos` is filled with zeros, and writing nothing does nothing. -/
def pwrite (file : List α) (pos : Nat) (data : List α) : List α :=
  if data.isEmpty then file
  else file.take pos ++ List.replicate (pos - file.length) 0 ++ data ++ file.drop (pos + data.length)

def ftruncate (file : List α) (length : Nat) : List α :=
  file.take length ++ List.replicate (length - file.length) 0

def byteAt (file : List α) (p : Nat) : α := file.getD p 0

theorem byteAt_of_length_le {file : List α} {p : Nat} (past : file.length ≤ p) : byteAt file p = 0 :=
  getD_eq_default _ _ past

theorem byteAt_append (left right : List α) (p : Nat) :
    byteAt (left ++ right) p = if p < left.length then byteAt left p else byteAt right (p - left.length) := by
  split
  · rename_i inside
    exact getD_append _ _ _ _ inside
  · rename_i outside
    exact getD_append_right _ _ _ _ (Nat.le_of_not_lt outside)

theorem byteAt_take (p : Nat) : byteAt (file.take n) p = if p < n then byteAt file p else 0 := by
  unfold byteAt
  rw [getD_eq_getElem?_getD, getD_eq_getElem?_getD, getElem?_take]
  split <;> rfl

theorem byteAt_drop (p : Nat) : byteAt (file.drop n) p = byteAt file (n + p) := by
  unfold byteAt
  rw [getD_eq_getElem?_getD, getD_eq_getElem?_getD, getElem?_drop]

theorem byteAt_replicate (p : Nat) : byteAt (List.replicate n (0 : α)) p = 0 := by
  unfold byteAt
  rw [getD_eq_getElem?_getD, getElem?_replicate]
  split <;> rfl

theorem ext_byteAt {left right : List α} (length : left.length = right.length)
    (same : ∀ p, byteAt left p = byteAt right p) : left = right := by
  apply ext_getElem length
  intro p inLeft inRight
  have here := same p
  unfold byteAt at here
  rwa [getD_eq_getElem _ _ inLeft, getD_eq_getElem _ _ inRight] at here

theorem takeWhile_append_congr {q : α → Bool} {left left' right : List α} (length : left'.length = left.length)
    (same : ∀ i ≤ ((left ++ right).takeWhile q).length, i < left.length → byteAt left' i = byteAt left i) :
    (left' ++ right).takeWhile q = (left ++ right).takeWhile q := by
  induction left generalizing left' with
  | nil => rw [eq_nil_of_length_eq_zero length]
  | cons a left ih =>
    cases left' with
    | nil => cases length
    | cons a' left' =>
      rw [length_cons, length_cons, Nat.add_right_cancel_iff] at length
      have here : a' = a := same 0 (Nat.zero_le _) (Nat.zero_lt_succ _)
      subst here
      simp only [cons_append, takeWhile_cons] at same ⊢
      split
      · rename_i goes
        rw [if_pos goes] at same
        rw [ih length]
        intro i before inside
        exact same (i + 1) (Nat.succ_le_succ before) (Nat.succ_lt_succ inside)
      · rfl

variable (data : List α)

theorem length_pwrite :
    (pwrite file pos data).length = if data = [] then file.length else max file.length (pos + data.length) := by
  unfold pwrite
  cases data with
  | nil => rfl
  | cons a data =>
    simp only [isEmpty_cons, Bool.false_eq_true, if_false, length_append, length_take,
      length_replicate, length_drop, reduceCtorEq]
    omega

theorem byteAt_pwrite (p : Nat) : byteAt (pwrite file pos data) p =
      if pos ≤ p ∧ p < pos + data.length then byteAt data (p - pos) else byteAt file p := by
  unfold pwrite
  cases data with
  | nil =>
    have outside : ¬ (pos ≤ p ∧ p < pos + ([] : List α).length) := by simp only [length_nil]; omega
    rw [if_neg outside]
    rfl
  | cons a data =>
    simp only [isEmpty_cons, Bool.false_eq_true, if_false]
    have head : (file.take pos ++ List.replicate (pos - file.length) (0 : α)).length = pos := by
      simp only [length_append, length_take, length_replicate]
      omega
    by_cases before : p < pos
    · have outside : ¬ (pos ≤ p ∧ p < pos + (a :: data).length) := by omega
      rw [if_neg outside, append_assoc, byteAt_append, head, if_pos before, byteAt_append, byteAt_take,
        if_pos before, byteAt_replicate]
      split
      · rfl
      · rename_i past
        rw [length_take] at past
        exact (byteAt_of_length_le (by omega)).symm
    · rw [append_assoc, byteAt_append, head, if_neg before, byteAt_append]
      by_cases inside : p < pos + (a :: data).length
      · rw [if_pos (by omega), if_pos ⟨by omega, inside⟩]
      · rw [if_neg (by omega), if_neg (by omega), byteAt_drop]
        congr 1
        omega

theorem length_ftruncate (length : Nat) : (ftruncate file length).length = length := by
  unfold ftruncate
  rw [length_append, length_take, length_replicate]
  omega

theorem byteAt_ftruncate (length p : Nat) :
    byteAt (ftruncate file length) p = if p < length then byteAt file p else 0 := by
  unfold ftruncate
  rw [byteAt_append, byteAt_take, byteAt_replicate, length_take]
  by_cases kept : p < length
  · split
    · rfl
    · exact (byteAt_of_length_le (by omega)).symm
  · simp only [if_neg kept, ite_self]

theorem pwrite_append (first second : List α) :
    pwrite (pwrite file pos first) (pos + first.length) second = pwrite file pos (first ++ second) := by
  apply ext_byteAt
  · rw [length_pwrite, length_pwrite, length_pwrite, length_append]
    cases first <;> cases second <;> simp
    omega
  intro p
  rw [byteAt_pwrite, byteAt_pwrite, byteAt_pwrite, byteAt_append, length_append]
  by_cases early : pos ≤ p ∧ p < pos + first.length
  · rw [if_neg (by omega), if_pos early, if_pos (by omega), if_pos (by omega)]
  by_cases late : pos + first.length ≤ p ∧ p < pos + first.length + second.length
  · rw [if_pos late, if_pos (by omega), if_neg (by omega)]
    congr 1
    omega
  · rw [if_neg late, if_neg early, if_neg (by omega)]

theorem drop_pwrite {file data : List α} {pos n : Nat} (behind : pos + data.length ≤ n) :
    (pwrite file pos data).drop n = file.drop n := by
  unfold pwrite
  cases data with
  | nil => rfl
  | cons a data =>
    simp only [isEmpty_cons, Bool.false_eq_true, if_false]
    have head : (file.take pos ++ List.replicate (pos - file.length) (0 : α) ++ a :: data).length = pos + (a :: data).length := by
      simp only [length_append, length_take, length_replicate]
      omega
    rw [drop_append, drop_of_length_le (by omega), head, nil_append, drop_drop]
    congr 1
    omega

theorem drop_pwrite_start :
    (pwrite file pos data).drop pos = data ++ file.drop (pos + data.length) := by
  unfold pwrite
  cases data with
  | nil => rfl
  | cons a data =>
    simp only [isEmpty_cons, Bool.false_eq_true, if_false]
    have head : (file.take pos ++ List.replicate (pos - file.length) (0 : α)).length = pos := by
      simp only [length_append, length_take, length_replicate]
      omega
    rw [append_assoc, drop_left' head]

theorem drop_ftruncate : (ftruncate file (pos + n)).drop pos = ftruncate (file.drop pos) n := by
  apply ext_byteAt
  · rw [length_drop, length_ftruncate, length_ftruncate]
    omega
  intro p
  rw [byteAt_drop, byteAt_ftruncate, byteAt_ftruncate, byteAt_drop]
  by_cases inside : p < n
  · rw [if_pos inside, if_pos (by omega)]
  · rw [if_neg inside, if_neg (by omega)]

theorem ftruncate_append (rest : List α) : ftruncate (data ++ rest) data.length = data := by
  have more : data.length - (data ++ rest).length = 0 := by
    rw [length_append]
    omega
  unfold ftruncate
  rw [take_left, more, replicate_zero, append_nil]

theorem pwrite_middle (before middle data after : List α) (length : data.length = middle.length) :
    pwrite (before ++ middle ++ after) before.length data = before ++ data ++ after := by
  unfold pwrite
  cases data with
  | nil =>
    have empty : middle = [] := eq_nil_of_length_eq_zero length.symm
    rw [empty]
    rfl
  | cons a data =>
    have gap : before.length - (before ++ middle ++ after).length = 0 := by
      simp only [length_append]
      omega
    have past : before.length + (a :: data).length = (before ++ middle).length := by rw [length_append, length]
    simp only [isEmpty_cons, Bool.false_eq_true, if_false]
    rw [gap, past, drop_left, append_assoc before middle, take_left, replicate_zero, append_nil]

theorem pwrite_length : pwrite file file.length data = file ++ data := by
  unfold pwrite
  cases data with
  | nil => simp
  | cons a data => simp

end OpenAFS.Lib
