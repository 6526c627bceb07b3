import Mathlib.Data.List.Basic
import Mathlib.Data.List.Pairwise
import Mathlib.Data.UInt

namespace OpenAFS.Lib.Numbered

open List

variable {α : Type*} (number : α → Nat) (final : α → Bool) (bound : Nat)

/-- The items have the numbers from `t` on, without a gap. -/
def Counts (t : Nat) (l : List α) : Prop :=
  ∀ i (within : i < l.length), number l[i] = (t + i) % bound

/-- From `t` on there is no gap up to a final item. -/
def Closed (t : Nat) (l : List α) : Prop :=
  ∃ m, ∃ within : m < l.length, final l[m] = true ∧ ∀ i (le : i ≤ m), number l[i] = (t + i) % bound

def closes (t : Nat) : List α → Bool
  | [] => false
  | a :: l => if number a ≠ t then false else if final a then true else closes ((t + 1) % bound) l

variable {number final bound}

theorem closes_iff {t : Nat} {l : List α} (inside : t < bound) :
    closes number final bound t l = true ↔ Closed number final bound t l := by
  induction l generalizing t with
  | nil => simp [closes, Closed]
  | cons a l ih =>
    have start : t % bound = t := Nat.mod_eq_of_lt inside
    have later : ∀ i, ((t + 1) % bound + i) % bound = (t + (i + 1)) % bound := by
      intro i
      rw [Nat.mod_add_mod, Nat.add_right_comm, Nat.add_assoc]
    have tail := ih (Nat.mod_lt (t + 1) (Nat.zero_lt_of_lt inside))
    rw [closes]
    by_cases first : number a = t
    · rw [if_neg (not_not.mpr first)]
      by_cases ends : final a = true
      · rw [if_pos ends]
        refine iff_of_true rfl ⟨0, Nat.succ_pos _, ends, fun i le => ?_⟩
        obtain rfl := Nat.le_zero.mp le
        simpa [start] using first
      rw [if_neg ends, tail]
      constructor
      · rintro ⟨m, within, fin, counts⟩
        refine ⟨m + 1, Nat.succ_lt_succ within, fin, fun i le => ?_⟩
        cases i with
        | zero => simpa [start] using first
        | succ i => simpa [later] using counts i (Nat.le_of_succ_le_succ le)
      rintro ⟨m, within, fin, counts⟩
      cases m with
      | zero => exact absurd fin ends
      | succ m =>
        refine ⟨m, Nat.lt_of_succ_lt_succ within, fin, fun i le => ?_⟩
        rw [later]
        exact counts (i + 1) (Nat.succ_le_succ le)
    · rw [if_pos first]
      refine iff_of_false Bool.false_ne_true ?_
      rintro ⟨m, within, fin, counts⟩
      exact first (by simpa [start] using counts 0 (Nat.zero_le m))

theorem Counts.snoc {t : Nat} {l : List α} {a : α} (counts : Counts number bound t l)
    (next : number a = (t + l.length) % bound) : Counts number bound t (l ++ [a]) := by
  intro i within
  by_cases old : i < l.length
  · rw [getElem_append_left old]
    exact counts i old
  · have same : i = l.length := by simp at within; omega
    subst same
    simpa using next

theorem Counts.closes_append {t : Nat} {l : List α} (counts : Counts number bound t l) (inside : t < bound) (r : List α) :
    closes number final bound t (l ++ r) = (l.any final || closes number final bound ((t + l.length) % bound) r) := by
  induction l generalizing t with
  | nil => simp [Nat.mod_eq_of_lt inside]
  | cons a l ih =>
    have first : number a = t := by simpa [Nat.mod_eq_of_lt inside] using counts 0 (Nat.succ_pos _)
    have rest : Counts number bound ((t + 1) % bound) l := by
      intro i within
      have at_next := counts (i + 1) (Nat.succ_lt_succ within)
      rw [Nat.mod_add_mod, Nat.add_assoc, Nat.add_comm 1 i]
      exact at_next
    have place : ((t + 1) % bound + l.length) % bound = (t + (l.length + 1)) % bound := by
      rw [Nat.mod_add_mod, Nat.add_assoc, Nat.add_comm 1 l.length]
    rw [cons_append, closes, if_neg (not_not.mpr first), ih rest (Nat.mod_lt _ (Nat.zero_lt_of_lt inside)), place]
    cases ends : final a <;> simp [ends]

theorem closes_insert {t : Nat} {a : α} {before after : List α} (from_t : t ≤ number a) (inside : number a < bound)
    (less : ∀ b ∈ before, number b < number a) (more : ∀ b ∈ after, number a < number b)
    (closed : closes number final bound t (before ++ after) = true) :
    closes number final bound t (before ++ a :: after) = true := by
  induction before generalizing t with
  | nil =>
    cases after with
    | nil => exact absurd closed Bool.false_ne_true
    | cons b after =>
      have above := more b mem_cons_self
      rw [nil_append, closes, if_pos (by omega)] at closed
      exact absurd closed Bool.false_ne_true
  | cons b before ih =>
    have below := less b mem_cons_self
    rw [cons_append, closes] at closed ⊢
    by_cases first : number b = t
    · rw [if_neg (not_not.mpr first)] at closed ⊢
      split at closed
      · rename_i ends
        rw [if_pos ends]
      rename_i ends
      rw [if_neg ends]
      have small : (t + 1) % bound = t + 1 := Nat.mod_eq_of_lt (by omega)
      exact ih (by omega) (fun c member => less c (mem_cons_of_mem b member)) closed
    · rw [if_pos first] at closed
      exact absurd closed Bool.false_ne_true

theorem any_of_closes {t : Nat} {l : List α} (closed : closes number final bound t l = true) : l.any final = true := by
  induction l generalizing t with
  | nil => exact absurd closed Bool.false_ne_true
  | cons a l ih =>
    rw [closes] at closed
    split at closed
    · exact absurd closed Bool.false_ne_true
    split at closed
    · rename_i ends
      simp [ends]
    · simp [ih closed]

section Marks

variable {β : Type*} (miss hit : β)

/-- A mark for each number from `b` to the last one of an increasing list. -/
def marks : Nat → List Nat → List β
  | _, [] => []
  | b, n :: l => List.replicate (n - b) miss ++ hit :: marks (n + 1) l

variable {miss hit} {b : Nat} {l : List Nat}

theorem marks_beyond (increasing : l.Pairwise (· < ·)) (above : ∀ n ∈ l, b ≤ n) :
    ∀ n ∈ l, n < b + (marks miss hit b l).length := by
  induction l generalizing b with
  | nil => simp
  | cons k l ih =>
    rw [pairwise_cons] at increasing
    have rest : ∀ n ∈ l, n < k + 1 + (marks miss hit (k + 1) l).length := ih increasing.2 increasing.1
    intro n member
    rw [marks, length_append, length_replicate, length_cons]
    rcases List.mem_cons.mp member with rfl | member
    · omega
    · have far := rest n member
      omega

theorem marks_length_le {e : Nat} (increasing : l.Pairwise (· < ·)) (above : ∀ n ∈ l, b ≤ n) (below : ∀ n ∈ l, n < b + e) :
    (marks miss hit b l).length ≤ e := by
  induction l generalizing b e with
  | nil => exact Nat.zero_le e
  | cons k l ih =>
    rw [pairwise_cons] at increasing
    have low := above k mem_cons_self
    have high := below k mem_cons_self
    have rest : (marks miss hit (k + 1) l).length ≤ b + e - (k + 1) := by
      refine ih increasing.2 increasing.1 fun n member => ?_
      have high := below n (mem_cons_of_mem k member)
      omega
    rw [marks, length_append, length_replicate, length_cons]
    omega

theorem marks_hit (differ : miss ≠ hit) (increasing : l.Pairwise (· < ·)) (above : ∀ n ∈ l, b ≤ n) (i : Nat) :
    (marks miss hit b l)[i]? = some hit ↔ b + i ∈ l := by
  induction l generalizing b i with
  | nil => simp [marks]
  | cons k l ih =>
    rw [pairwise_cons] at increasing
    have low := above k mem_cons_self
    have later : ∀ n ∈ l, k < n := increasing.1
    have absent : b + i ≤ k → b + i ∉ l := fun le member => absurd (later _ member) (by omega)
    rw [marks]
    rcases Nat.lt_trichotomy i (k - b) with less | same | more
    · have missed : (List.replicate (k - b) miss)[i]? = some miss := by simp [less]
      rw [getElem?_append_left (by simpa using less), missed, mem_cons]
      have apart : ¬(b + i = k ∨ b + i ∈ l) := by
        rintro (same | member)
        · omega
        · exact absent (by omega) member
      exact iff_of_false (fun same => differ (Option.some.inj same)) apart
    · subst same
      have place : b + (k - b) = k := by omega
      rw [getElem?_append_right (by simp), place]
      simp
    · obtain ⟨j, rfl⟩ : ∃ j, i = (k - b) + (j + 1) := ⟨i - (k - b) - 1, by omega⟩
      have place : b + (k - b + (j + 1)) = k + 1 + j := by omega
      have index : k - b + (j + 1) - (k - b) = j + 1 := by omega
      have other : k + 1 + j ≠ k := by omega
      rw [getElem?_append_right (by simp), length_replicate, index, getElem?_cons_succ, place, ih increasing.2 later, mem_cons]
      exact ⟨Or.inr, fun found => found.resolve_left other⟩

end Marks

end OpenAFS.Lib.Numbered
