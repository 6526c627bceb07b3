import Mathlib.Data.List.Forall2
import Mathlib.Data.UInt

namespace OpenAFS.Lib

open List

theorem except_bind_eq_ok {ε α β : Type*} {x : Except ε α} {f : α → Except ε β} {b : β} :
    x.bind f = .ok b ↔ ∃ a, x = .ok a ∧ f a = .ok b := by
  cases x with
  | error e => simp [Except.bind]
  | ok a => simp [Except.bind]

theorem except_bind_eq_error {ε α β : Type*} {x : Except ε α} {f : α → Except ε β} {e : ε} :
    x.bind f = .error e ↔ x = .error e ∨ ∃ a, x = .ok a ∧ f a = .error e := by
  cases x with
  | error e' => simp [Except.bind]
  | ok a => simp [Except.bind]

def ensure {ε : Type*} (c : Prop) [Decidable c] (e : ε) : Except ε Unit := if c then .ok () else .error e

theorem ensure_eq_ok {ε : Type*} {c : Prop} [Decidable c] {e : ε} : ensure c e = .ok () ↔ c := by
  unfold ensure
  split <;> simp [*]

theorem ensure_then {ε α : Type*} {c : Prop} [Decidable c] {e : ε} {rest : Unit → Except ε α} {a : α} :
    (ensure c e).bind rest = .ok a ↔ c ∧ rest () = .ok a := by
  unfold ensure
  split <;> simp [Except.bind, *]

theorem ensure_fails_or {ε α : Type*} {c : Prop} [Decidable c] {e e' : ε} {rest : Unit → Except ε α} :
    (ensure c e).bind rest = .error e' ↔ ¬ c ∧ e' = e ∨ c ∧ rest () = .error e' := by
  unfold ensure
  split <;> simp [Except.bind, eq_comm, *]

theorem optional_then {ε α β : Type*} {c : Prop} [Decidable c] {x : Except ε α} {a : α} {f : α → Except ε β} {b : β} :
    (if c then x.bind f else (Except.ok a).bind f) = .ok b ↔ ∃ a', (if c then x else .ok a) = .ok a' ∧ f a' = .ok b := by
  split <;> exact except_bind_eq_ok

theorem optional_check {ε α β : Type*} {c : Prop} [Decidable c] {x : Except ε α} {y : α → Except ε Unit}
    {f : Unit → Except ε β} {b : β} :
    (if c then x.bind fun a => (y a).bind f else f ()) = .ok b ↔ (c → ∃ a, x = .ok a ∧ y a = .ok ()) ∧ f () = .ok b := by
  split
  · rename_i taken
    rw [except_bind_eq_ok, imp_iff_right taken]
    constructor
    · rintro ⟨a, found, rest⟩
      obtain ⟨_, checked, rest⟩ := except_bind_eq_ok.mp rest
      exact ⟨⟨a, found, checked⟩, rest⟩
    · rintro ⟨⟨a, found, checked⟩, rest⟩
      exact ⟨a, found, except_bind_eq_ok.mpr ⟨(), checked, rest⟩⟩
  · rename_i skipped
    exact (and_iff_right fun taken => absurd taken skipped).symm

theorem except_forM_eq_ok {ε α : Type} {f : α → Except ε Unit} {l : List α} : l.forM f = .ok () ↔ ∀ x ∈ l, f x = .ok () := by
  induction l with
  | nil => exact iff_of_true rfl fun x none => by cases none
  | cons x l ih =>
    rw [forM_eq_forM, forM_cons]
    refine except_bind_eq_ok.trans ?_
    rw [← forM_eq_forM]
    simp only [ih, mem_cons, forall_eq_or_imp]
    exact ⟨fun ⟨_, here, later⟩ => ⟨here, later⟩, fun ⟨here, later⟩ => ⟨(), here, later⟩⟩

theorem except_foldlM_cons {ε σ α : Type} {f : σ → α → Except ε σ} {x : α} {l : List α} {s s' : σ} :
    (x :: l).foldlM f s = .ok s' ↔ ∃ middle, f s x = .ok middle ∧ l.foldlM f middle = .ok s' := by
  exact except_bind_eq_ok

theorem except_foldlM_range_error {ε σ : Type} {f : σ → Nat → Except ε σ} {s : σ} {n : Nat} {e : ε} :
    (List.range n).foldlM f s = .error e ↔ ∃ i < n, ∃ s', (List.range i).foldlM f s = .ok s' ∧ f s' i = .error e := by
  induction n with
  | zero =>
    constructor
    · intro failed
      cases failed
    · rintro ⟨i, absurd, -⟩
      cases absurd
  | succ n ih =>
    rw [range_succ, foldlM_append]
    refine except_bind_eq_error.trans ?_
    have last : ∀ s', List.foldlM f s' [n] = .error e ↔ f s' n = .error e := by
      intro s'
      refine except_bind_eq_error.trans ?_
      constructor
      · rintro (here | ⟨_, _, none⟩)
        · exact here
        · cases none
      · exact .inl
    simp only [last, ih]
    constructor
    · rintro (⟨i, small, failed⟩ | ⟨s', ok, failed⟩)
      · exact ⟨i, by omega, failed⟩
      · exact ⟨n, by omega, s', ok, failed⟩
    rintro ⟨i, small, s', ok, failed⟩
    rcases Nat.lt_succ_iff_lt_or_eq.mp small with earlier | rfl
    · exact .inl ⟨i, earlier, s', ok, failed⟩
    · exact .inr ⟨s', ok, failed⟩

theorem except_forM_range_error {ε : Type} {f : Nat → Except ε Unit} {n : Nat} {e : ε} :
    (List.range n).forM f = .error e ↔ ∃ i < n, (∀ j < i, f j = .ok ()) ∧ f i = .error e := by
  induction n with
  | zero =>
    constructor
    · intro failed
      cases failed
    · rintro ⟨i, absurd, -⟩
      cases absurd
  | succ n ih =>
    have split : (List.range (n + 1)).forM f = ((List.range n).forM f).bind fun _ => [n].forM f := by
      rw [range_succ]
      exact forM_append
    rw [split]
    refine except_bind_eq_error.trans ?_
    have last : [n].forM f = .error e ↔ f n = .error e := by
      refine except_bind_eq_error.trans ?_
      constructor
      · rintro (here | ⟨_, _, none⟩)
        · exact here
        · cases none
      · exact .inl
    simp only [last, ih]
    constructor
    · rintro (⟨i, small, failed⟩ | ⟨⟨⟩, ok, failed⟩)
      · exact ⟨i, by omega, failed⟩
      · exact ⟨n, by omega, fun j before => except_forM_eq_ok.mp ok j (List.mem_range.mpr before), failed⟩
    rintro ⟨i, small, ok, failed⟩
    rcases Nat.lt_succ_iff_lt_or_eq.mp small with earlier | rfl
    · exact .inl ⟨i, earlier, ok, failed⟩
    · exact .inr ⟨(), except_forM_eq_ok.mpr fun j inside => ok j (List.mem_range.mp inside), failed⟩

theorem option_mapM_eq_some {α β : Type} {f : α → Option β} {g : α → β} {l : List α}
    (all : ∀ x ∈ l, f x = some (g x)) : l.mapM f = some (l.map g) := by
  induction l with
  | nil => rfl
  | cons x l ih =>
    rw [mapM_cons, all x mem_cons_self, ih fun y inside => all y (mem_cons_of_mem _ inside)]
    rfl

theorem option_mapM_iff {α β : Type} {f : α → Option β} {l : List α} {bs : List β} :
    l.mapM f = some bs ↔ List.Forall₂ (fun a b => f a = some b) l bs := by
  induction l generalizing bs with
  | nil => simp [eq_comm]
  | cons a l ih =>
    rw [mapM_cons, forall₂_cons_left_iff]
    simp only [bind, pure, Option.bind_eq_some_iff, ih]
    constructor
    · rintro ⟨b, here, rest, later, same⟩
      cases same
      exact ⟨b, rest, here, later, rfl⟩
    · rintro ⟨b, rest, here, later, rfl⟩
      exact ⟨b, here, rest, later, rfl⟩

theorem mapM_range_iff {β : Type} {f : Nat → Option β} {n k : Nat} (g : Nat → β) :
    (List.range k).mapM f = some ((List.range n).map g) ↔ k = n ∧ ∀ i < n, f i = some (g i) := by
  rw [option_mapM_iff, forall₂_map_right_iff]
  constructor
  · intro all
    have len := all.length_eq
    rw [length_range, length_range] at len
    subst len
    rw [forall₂_same] at all
    exact ⟨rfl, fun i within => all i (List.mem_range.mpr within)⟩
  · rintro ⟨rfl, all⟩
    rw [forall₂_same]
    exact fun i inside => all i (List.mem_range.mp inside)

theorem exists_of_any {ε α : Type*} {result : Except ε α} {test : α → Bool} (fine : result.toOption.any test = true) :
    ∃ a, result = .ok a ∧ test a = true := by
  cases result with
  | error e => cases fine
  | ok a => exact ⟨a, rfl, fine⟩

end OpenAFS.Lib
