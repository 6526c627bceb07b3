import Mathlib.Data.Nat.Count
import Mathlib.Data.UInt

namespace OpenAFS.Lib

theorem count_insert {p q : Nat → Prop} [DecidablePred p] [DecidablePred q] {n b : Nat} (inside : b < n)
    (fresh : ¬ p b) (now : q b) (others : ∀ x < n, x ≠ b → (q x ↔ p x)) : Nat.count q n = Nat.count p n + 1 := by
  rw [Nat.count_eq_card_filter_range, Nat.count_eq_card_filter_range]
  have split : (Finset.range n).filter q = insert b ((Finset.range n).filter p) := by
    ext x
    simp only [Finset.mem_filter, Finset.mem_range, Finset.mem_insert]
    by_cases here : x = b
    · subst here
      exact ⟨fun _ => .inl rfl, fun _ => ⟨inside, now⟩⟩
    constructor
    · exact fun known => .inr ⟨known.1, (others x known.1 here).mp known.2⟩
    · intro known
      obtain ⟨below, had⟩ := known.resolve_left here
      exact ⟨below, (others x below here).mpr had⟩
  rw [split, Finset.card_insert_of_notMem]
  simp [fresh]

theorem length_le_of_nodup {l : List Nat} (once : l.Nodup) {n : Nat} (below : ∀ x ∈ l, x < n) : l.length ≤ n := by
  rw [← List.toFinset_card_of_nodup once, ← Finset.card_range n]
  apply Finset.card_le_card
  intro x inside
  exact Finset.mem_range.mpr (below x (List.mem_toFinset.mp inside))

theorem mem_union_list {sets : List (Finset Nat)} {x : Nat} : x ∈ sets.foldr (· ∪ ·) ∅ ↔ ∃ set ∈ sets, x ∈ set := by
  induction sets with
  | nil => simp
  | cons set sets ih => simp [ih]

theorem card_union_list_le (sets : List (Finset Nat)) : (sets.foldr (· ∪ ·) ∅).card ≤ (sets.map Finset.card).sum := by
  induction sets with
  | nil => simp
  | cons set sets ih =>
    have union := Finset.card_union_le set (sets.foldr (· ∪ ·) ∅)
    rw [List.foldr_cons, List.map_cons, List.sum_cons]
    omega

theorem card_union_list {sets : List (Finset Nat)} :
    (sets.foldr (· ∪ ·) ∅).card = (sets.map Finset.card).sum ↔ sets.Pairwise Disjoint := by
  induction sets with
  | nil => simp
  | cons set sets ih =>
    have rest := card_union_list_le sets
    have union := Finset.card_union_le set (sets.foldr (· ∪ ·) ∅)
    have split : Disjoint set (sets.foldr (· ∪ ·) ∅) ↔ ∀ other ∈ sets, Disjoint set other := by
      simp only [Finset.disjoint_left, mem_union_list]
      constructor
      · exact fun apart other inside x here there => apart here ⟨other, inside, there⟩
      · rintro apart x here ⟨other, inside, there⟩
        exact apart other inside here there
    rw [List.pairwise_cons, ← ih, ← split, ← Finset.card_union_eq_card_add_card, List.foldr_cons, List.map_cons, List.sum_cons]
    omega

end OpenAFS.Lib
