import Mathlib.Algebra.Order.BigOperators.Group.Finset

namespace OpenAFS.Lib

section Census

variable {P X Y : Type*} [Fintype P] [DecidableEq X] [DecidableEq Y]

def tally (f : P → X) (x : X) : Nat := (Finset.univ.filter fun p => f p = x).card

def move (a b : X) (n : X → Nat) (x : X) : Nat := (n x - if x = a then 1 else 0) + if x = b then 1 else 0

theorem tally_pos {f : P → X} {x : X} : 0 < tally f x ↔ ∃ p, f p = x := by
  rw [tally, Finset.card_pos]
  constructor
  · rintro ⟨p, inside⟩
    exact ⟨p, (Finset.mem_filter.mp inside).2⟩
  · rintro ⟨p, here⟩
    exact ⟨p, Finset.mem_filter.mpr ⟨Finset.mem_univ p, here⟩⟩

variable (f : P → X)

theorem tally_self (p : P) : 0 < tally f (f p) :=
  tally_pos.mpr ⟨p, rfl⟩

theorem tally_const (a x : X) : tally (fun _ : P => a) x = if a = x then Fintype.card P else 0 := by
  rw [tally]
  split
  · simp_all
  · simp_all

theorem card_mem (conditions : Finset X) :
    (Finset.univ.filter fun p => f p ∈ conditions).card = ∑ x ∈ conditions, tally f x := by
  have fibres := Finset.card_eq_sum_card_fiberwise (s := Finset.univ.filter fun p => f p ∈ conditions) (t := conditions)
    (f := f) (fun p inside => (Finset.mem_filter.mp inside).2)
  rw [fibres]
  apply Finset.sum_congr rfl
  intro x inside
  congr 1
  ext p
  simp only [Finset.mem_filter, Finset.mem_univ, true_and, and_iff_right_iff_imp]
  intro here
  rwa [here]

theorem tally_update [DecidableEq P] (p : P) (b : X) : tally (Function.update f p b) = move (f p) b (tally f) := by
  have others : ∀ x, (Finset.univ.filter fun q => Function.update f p b q = x).erase p
      = (Finset.univ.filter fun q => f q = x).erase p := by
    intro x
    ext q
    by_cases same : q = p
    · simp [same]
    · simp [same]
  ext x
  have after := Finset.card_erase_add_one (s := Finset.univ.filter fun q => Function.update f p b q = x) (a := p)
  have before := Finset.card_erase_add_one (s := Finset.univ.filter fun q => f q = x) (a := p)
  have afterNot := Finset.erase_eq_of_notMem (s := Finset.univ.filter fun q => Function.update f p b q = x) (a := p)
  have beforeNot := Finset.erase_eq_of_notMem (s := Finset.univ.filter fun q => f q = x) (a := p)
  simp only [Finset.mem_filter, Finset.mem_univ, Function.update_self, true_and] at after before afterNot beforeNot
  rw [others] at after afterNot
  rw [move, tally, tally]
  by_cases gone : f p = x
  · rw [if_pos gone.symm]
    by_cases come : b = x
    · rw [if_pos come.symm, ← after come, ← before gone]
      rfl
    · rw [if_neg (Ne.symm come), ← afterNot come, ← before gone]
      rfl
  rw [if_neg (Ne.symm gone)]
  by_cases come : b = x
  · rw [if_pos come.symm, ← after come, beforeNot gone]
    rfl
  · rw [if_neg (Ne.symm come), ← afterNot come, beforeNot gone]
    rfl

theorem tally_comp {g : X → Y} {y : Y} (origins : Finset X) (leads : ∀ x, g x = y ↔ x ∈ origins) :
    tally (fun p => g (f p)) y = ∑ x ∈ origins, tally f x := by
  rw [← card_mem, tally]
  simp only [leads]

theorem eq_of_tally {f : P → X} {conditions : Finset X} (one : ∑ x ∈ conditions, tally f x ≤ 1) {p q : P}
    (here : f p ∈ conditions) (there : f q ∈ conditions) : p = q := by
  rw [← card_mem, Finset.card_le_one] at one
  exact one p (Finset.mem_filter.mpr ⟨Finset.mem_univ p, here⟩) q (Finset.mem_filter.mpr ⟨Finset.mem_univ q, there⟩)

end Census

end OpenAFS.Lib
