import Mathlib.Order.Interval.Finset.Nat
import Mathlib.Order.Lattice.Nat

namespace OpenAFS.Lib

open Relation

variable {α : Type*} {node node' : α → Prop} {parent parent' : α → α} {root a b c f : α}

def Up (node : α → Prop) (parent : α → α) (a b : α) : Prop := node a ∧ parent a = b

structure Rooted (node : α → Prop) (parent : α → α) (root : α) : Prop where
  isNode : node root
  top : ¬ node (parent root)
  climbs : ∀ a, node a → ReflTransGen (Up node parent) a root

theorem Rooted.of_root (rooted : Rooted node parent root) (way : ReflTransGen (Up node parent) root a) (inside : node a) :
    a = root := by
  rcases ReflTransGen.cases_head way with rfl | ⟨next, step, way⟩
  · rfl
  rw [← step.2] at way
  rcases ReflTransGen.cases_head way with rfl | ⟨_, step', -⟩
  · exact absurd inside rooted.top
  · exact absurd step'.1 rooted.top

theorem Rooted.parent_node (rooted : Rooted node parent root) (inside : node a) (other : a ≠ root) : node (parent a) := by
  rcases ReflTransGen.cases_head (rooted.climbs a inside) with rfl | ⟨next, step, way⟩
  · exact absurd rfl other
  rw [step.2]
  rcases ReflTransGen.cases_head way with rfl | ⟨_, step', -⟩
  · exact rooted.isNode
  · exact step'.1

theorem Rooted.acyclic (rooted : Rooted node parent root) : ¬ TransGen (Up node parent) a a := by
  intro cycle
  have stays : ∀ b, ReflTransGen (Up node parent) a b → TransGen (Up node parent) b b := by
    intro b way
    induction way with
    | refl => exact cycle
    | tail _ step ih =>
      obtain ⟨next, step', back⟩ := TransGen.head'_iff.mp ih
      rw [← step'.2, step.2] at back
      exact TransGen.tail' back step
  obtain ⟨_, start, -⟩ := TransGen.head'_iff.mp cycle
  obtain ⟨next, step, way⟩ := TransGen.head'_iff.mp (stays root (rooted.climbs a start.1))
  rw [← step.2] at way
  rcases ReflTransGen.cases_head way with same | ⟨_, step', -⟩
  · apply rooted.top
    rw [same]
    exact rooted.isNode
  · exact rooted.top step'.1

theorem Up.avoid (way : ReflTransGen (Up node parent) a root) (inside : node' a)
    (up : ∀ d, node' d → d ≠ f → parent' d = parent d)
    (closed : ∀ d, node' d → d ≠ f → d ≠ root → node' (parent d))
    (avoids : ¬ ReflTransGen (Up node parent) a f) : ReflTransGen (Up node' parent') a root := by
  induction way using ReflTransGen.head_induction_on with
  | refl => exact .refl
  | head step later ih =>
    rename_i a b
    by_cases isRoot : a = root
    · rw [isRoot]
    have other : a ≠ f := fun same => avoids (same ▸ .refl)
    have next := closed a inside other isRoot
    rw [step.2] at next
    exact .head ⟨inside, (up a inside other).trans step.2⟩ (ih next fun way => avoids (.head step way))

theorem Rooted.move (rooted : Rooted node parent root) (fewer : ∀ d, node' d → node d) (stays : node' root)
    (up : ∀ d, node' d → d ≠ f → parent' d = parent d) (closed : ∀ d, node' d → d ≠ f → d ≠ root → node' (parent d))
    (moved : node' f → f ≠ root ∧ node' (parent' f) ∧
      (parent' f = parent f ∨ ¬ ReflTransGen (Up node parent) (parent' f) f)) : Rooted node' parent' root where
  isNode := stays
  top := by
    have other : root ≠ f := fun same => (moved (same ▸ stays)).1 same.symm
    rw [up root stays other]
    exact fun inside => rooted.top (fewer _ inside)
  climbs := by
    intro a inside
    have way := rooted.climbs a (fewer a inside)
    induction way using ReflTransGen.head_induction_on with
    | refl => exact .refl
    | head step later ih =>
      rename_i a b
      by_cases isRoot : a = root
      · rw [isRoot]
      by_cases isMoved : a = f
      · subst isMoved
        obtain ⟨-, above, same | avoids⟩ := moved inside
        · rw [same, step.2] at above
          exact .head ⟨inside, same.trans step.2⟩ (ih above)
        · exact .head ⟨inside, rfl⟩
            (Up.avoid (rooted.climbs _ (fewer _ above)) above up closed avoids)
      · have next := closed a inside isMoved isRoot
        rw [step.2] at next
        exact .head ⟨inside, (up a inside isMoved).trans step.2⟩ (ih next)

theorem card_le_sup {s : Finset ℕ} (positive : 0 ∉ s) : s.card ≤ s.sup id := by
  have inside : s ⊆ Finset.Icc 1 (s.sup id) := by
    intro n here
    have large : n ≤ s.sup id := Finset.le_sup (f := id) here
    rw [Finset.mem_Icc]
    refine ⟨Nat.pos_of_ne_zero ?_, large⟩
    rintro rfl
    exact positive here
  have bound := Finset.card_le_card inside
  rwa [Nat.card_Icc, Nat.add_sub_cancel] at bound

end OpenAFS.Lib
