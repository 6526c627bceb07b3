import Mathlib.Data.List.Basic

namespace OpenAFS.Lib

open List

variable {α : Type*} [DecidableEq α] {x m b : α} {l : List α}

def behind (b : α) (l : List α) : List α := l.after (· == b)

@[simp] theorem behind_nil : behind b [] = [] := rfl

@[simp] theorem behind_cons_self : behind b (b :: l) = l := by simp [behind, List.after]

theorem behind_cons_other (other : m ≠ b) : behind b (m :: l) = behind b l := by
  simp [behind, List.after, beq_false_of_ne other]

theorem behind_suffix : behind b l <:+ l := by
  induction l with
  | nil => exact suffix_refl _
  | cons y l ih =>
    by_cases same : y = b
    · rw [same, behind_cons_self]
      exact suffix_cons _ _
    · rw [behind_cons_other same]
      exact ih.trans (suffix_cons _ _)

theorem mem_of_mem_behind (there : x ∈ behind b l) : x ∈ l := behind_suffix.subset there

theorem mem_behind_of_find {p : α → Bool} (found : l.find? p = some b) (there : x ∈ l) (holds : p x = true) :
    x = b ∨ x ∈ behind b l := by
  induction l with
  | nil => cases found
  | cons y l ih =>
    rw [find?_cons] at found
    cases first : p y with
    | true =>
      rw [first] at found
      cases found
      exact (List.mem_cons.mp there).imp_right fun later => by rw [behind_cons_self]; exact later
    | false =>
      rw [first] at found
      have other : y ≠ b := by
        rintro rfl
        rw [find?_some found] at first
        cases first
      rcases List.mem_cons.mp there with rfl | there
      · rw [holds] at first
        cases first
      · rw [behind_cons_other other]
        exact ih found there

theorem behind_of_suffix {long : List α} (suffix : l <:+ long) (nodup : long.Nodup) (there : b ∈ l) :
    behind b long = behind b l := by
  obtain ⟨front, rfl⟩ := suffix
  induction front with
  | nil => rfl
  | cons y front ih =>
    have other : y ≠ b := by
      rintro rfl
      exact (List.nodup_cons.mp nodup).1 (mem_append_right _ there)
    exact (behind_cons_other other).trans (ih (List.nodup_cons.mp nodup).2)

theorem mem_behind_erase (other : x ≠ m) (apart : m ≠ b) (there : x ∈ behind b l) : x ∈ behind b (l.erase m) := by
  induction l with
  | nil => cases there
  | cons y l ih =>
    by_cases same : y = m
    · rw [same] at there ⊢
      rw [erase_cons_head]
      rw [behind_cons_other apart] at there
      exact there
    rw [erase_cons_tail (by simpa using same)]
    by_cases here : y = b
    · rw [here, behind_cons_self] at there ⊢
      exact (mem_erase_of_ne other).mpr there
    · rw [behind_cons_other here] at there ⊢
      exact ih there

theorem mem_erase_of_mem_behind (nodup : l.Nodup) (there : x ∈ behind b l) : x ∈ l.erase b := by
  refine (List.Nodup.mem_erase_iff nodup).mpr ⟨?_, mem_of_mem_behind there⟩
  rintro rfl
  induction l with
  | nil => cases there
  | cons y l ih =>
    by_cases here : y = x
    · rw [here, behind_cons_self] at there
      exact (List.nodup_cons.mp nodup).1 (here ▸ there)
    · rw [behind_cons_other here] at there
      exact ih (List.nodup_cons.mp nodup).2 there

end OpenAFS.Lib
