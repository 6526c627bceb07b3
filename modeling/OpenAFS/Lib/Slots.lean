import Mathlib.Data.List.Perm.Basic
import Mathlib.Data.List.Flatten

namespace OpenAFS.Lib.Slots

open List

variable {α : Type*} (dead stop : α)

def shown [DecidableEq α] : List α → List α
  | [] => []
  | x :: rest => if x = dead then shown rest else if x = stop then [] else x :: shown rest

def Ended (l : List α) : Prop := ∃ used n, l = used ++ List.replicate n stop ∧ stop ∉ used

def Packed : List (List α) → Prop
  | [] => True
  | [l] => Ended stop l
  | l :: l' :: rest => stop ∉ l ∧ Packed (l' :: rest)

variable {dead stop} {zs : List α}

section

variable [DecidableEq α]

variable {xs : List α} {a : α}

theorem shown_append (ys : List α) (inside : stop ∉ xs) :
    shown dead stop (xs ++ ys) = shown dead stop xs ++ shown dead stop ys := by
  induction xs with
  | nil => rfl
  | cons x xs ih =>
    rw [mem_cons, not_or] at inside
    rw [cons_append, shown, shown, ih inside.2, if_neg (Ne.symm inside.1), if_neg (Ne.symm inside.1)]
    split <;> rfl

theorem mem_shown {l : List α} (inside : a ∈ shown dead stop l) : a ∈ l ∧ a ≠ dead ∧ a ≠ stop := by
  induction l with
  | nil => cases inside
  | cons x rest ih =>
    rw [shown] at inside
    split at inside
    · obtain ⟨later, plain⟩ := ih inside
      exact ⟨mem_cons_of_mem _ later, plain⟩
    rename_i alive
    split at inside
    · cases inside
    rename_i more
    rcases List.mem_cons.mp inside with rfl | later
    · exact ⟨mem_cons_self, alive, more⟩
    · obtain ⟨later, plain⟩ := ih later
      exact ⟨mem_cons_of_mem _ later, plain⟩

theorem shown_stop (n : Nat) : shown dead stop (List.replicate n stop) = [] := by
  induction n with
  | zero => rfl
  | succ n ih =>
    rw [replicate_succ, shown, ih]
    split
    · rfl
    · exact if_pos rfl

theorem shown_revive (inside : stop ∉ xs) (alive : a ≠ dead) (more : a ≠ stop) :
    (shown dead stop (xs ++ a :: zs)).Perm (a :: shown dead stop (xs ++ dead :: zs)) := by
  rw [shown_append _ inside, shown_append _ inside, shown, shown, if_neg alive, if_neg more, if_pos rfl]
  exact perm_middle

theorem shown_extend {n : Nat} (apart : dead ≠ stop) (inside : stop ∉ xs) (alive : a ≠ dead) (more : a ≠ stop) :
    (shown dead stop (xs ++ a :: List.replicate n stop)).Perm (a :: shown dead stop (xs ++ stop :: List.replicate n stop)) := by
  rw [shown_append _ inside, shown_append _ inside, shown, shown, if_neg alive, if_neg more, if_neg (Ne.symm apart),
    if_pos rfl, shown_stop, append_nil]
  exact perm_append_singleton a _

end

namespace Ended

theorem of_notMem {l : List α} (inside : stop ∉ l) : Ended stop l := ⟨l, 0, by simp, inside⟩

theorem replicate (n : Nat) : Ended stop (List.replicate n stop) := ⟨[], n, rfl, by simp⟩

theorem rest {xs : List α} (ended : Ended stop (xs ++ stop :: zs)) (inside : stop ∉ xs) :
    zs = List.replicate zs.length stop := by
  classical
  obtain ⟨used, n, same, all⟩ := ended
  have early : used = xs := by
    have first := congrArg (List.takeWhile fun x => x ≠ stop) same
    have stays {l : List α} (none : stop ∉ l) : ∀ x ∈ l, decide (x ≠ stop) = true := by
      intro x member
      simp only [ne_eq, decide_not, Bool.not_eq_true', decide_eq_false_iff_not]
      rintro rfl
      exact none member
    rw [takeWhile_append_of_pos (stays inside), takeWhile_append_of_pos (stays all)] at first
    cases n with
    | zero => simpa using first.symm
    | succ n => simpa [replicate_succ] using first.symm
  rw [early, append_cancel_left_eq] at same
  rw [eq_replicate_iff]
  refine ⟨rfl, fun b member => ?_⟩
  have known : b ∈ List.replicate n stop := same ▸ mem_cons_of_mem _ member
  exact (List.mem_replicate.mp known).2

theorem set {xs : List α} {x y : α} (ended : Ended stop (xs ++ x :: zs)) (inside : stop ∉ xs) (more : y ≠ stop) :
    Ended stop (xs ++ y :: zs) := by
  by_cases last : x = stop
  · subst last
    rw [ended.rest inside]
    refine ⟨xs ++ [y], zs.length, by simp, ?_⟩
    simp [inside, Ne.symm more]
  obtain ⟨used, n, same, all⟩ := ended
  rw [append_eq_append_iff] at same
  rcases same with ⟨more', rfl, later⟩ | ⟨back, rfl, later⟩
  · rw [cons_eq_append_iff] at later
    rcases later with ⟨-, start⟩ | ⟨tail, rfl, rfl⟩
    · have known : x ∈ List.replicate n stop := start ▸ mem_cons_self
      exact absurd (List.mem_replicate.mp known).2 last
    · refine ⟨xs ++ y :: tail, n, by simp, ?_⟩
      rw [mem_append, mem_cons, not_or, not_or] at all ⊢
      exact ⟨all.1, Ne.symm more, all.2.2⟩
  cases back with
  | nil =>
    have known : x ∈ List.replicate n stop := by
      rw [later]
      exact mem_cons_self
    exact absurd (List.mem_replicate.mp known).2 last
  | cons b back =>
    have known : b ∈ List.replicate n stop := by
      rw [later]
      exact mem_cons_self
    rw [(List.mem_replicate.mp known).2] at inside
    exact absurd (mem_append_right _ mem_cons_self) inside

end Ended

namespace Packed

theorem last {before after : List (List α)} {l : List α} (packed : Packed stop (before ++ l :: after))
    (end_ : stop ∈ l) : after = [] := by
  induction before with
  | nil =>
    cases after with
    | nil => rfl
    | cons l' rest => exact absurd end_ packed.1
  | cons first before ih =>
    cases before with
    | nil => exact ih packed.2
    | cons second before => exact ih packed.2

variable {l : List α}

theorem block {before after : List (List α)} (packed : Packed stop (before ++ l :: after)) : Ended stop l := by
  induction before with
  | nil =>
    cases after with
    | nil => exact packed
    | cons l' rest => exact .of_notMem packed.1
  | cons first before ih =>
    cases before with
    | nil => exact ih packed.2
    | cons second before => exact ih packed.2

theorem replace {before after : List (List α)} {l' : List α} (packed : Packed stop (before ++ l :: after))
    (inside : stop ∉ l → stop ∉ l') (ended : Ended stop l') : Packed stop (before ++ l' :: after) := by
  induction before with
  | nil =>
    cases after with
    | nil => exact ended
    | cons m rest => exact ⟨inside packed.1, packed.2⟩
  | cons first before ih =>
    cases before with
    | nil => exact ⟨packed.1, ih packed.2⟩
    | cons second before => exact ⟨packed.1, ih packed.2⟩

theorem erase {before after : List (List α)} {l : List α} (packed : Packed stop (before ++ l :: after)) :
    Packed stop (before ++ after) := by
  induction before with
  | nil =>
    cases after with
    | nil => trivial
    | cons m rest => exact packed.2
  | cons first before ih =>
    cases before with
    | nil =>
      cases after with
      | nil => exact .of_notMem packed.1
      | cons m rest => exact ⟨packed.1, ih packed.2⟩
    | cons second before => exact ⟨packed.1, ih packed.2⟩

theorem append {blocks : List (List α)} (full : ∀ m ∈ blocks, stop ∉ m) (ended : Ended stop l) : Packed stop (blocks ++ [l]) := by
  induction blocks with
  | nil => exact ended
  | cons first rest ih =>
    have later := ih fun m inside => full m (mem_cons_of_mem _ inside)
    cases rest with
    | nil => exact ⟨full first mem_cons_self, later⟩
    | cons second rest => exact ⟨full first mem_cons_self, later⟩

end Packed

variable [DecidableEq α]

def all (dead stop : α) (blocks : List (List α)) : List α := blocks.flatMap (shown dead stop)

theorem all_middle (before after : List (List α)) (l : List α) : all dead stop (before ++ l :: after) =
      all dead stop before ++ (shown dead stop l ++ all dead stop after) := by
  unfold all
  rw [flatMap_append, flatMap_cons]

variable {before after : List (List α)} {a : α}

theorem all_perm {l l' : List α} (perm : (shown dead stop l').Perm (a :: shown dead stop l)) :
    (all dead stop (before ++ l' :: after)).Perm (a :: all dead stop (before ++ l :: after)) := by
  rw [all_middle, all_middle]
  calc
    all dead stop before ++ (shown dead stop l' ++ all dead stop after)
      |>.Perm (all dead stop before ++ (a :: shown dead stop l ++ all dead stop after)) :=
        (perm.append_right _).append_left _
    _ |>.Perm (a :: (all dead stop before ++ (shown dead stop l ++ all dead stop after))) := perm_middle

theorem Packed.fill {xs : List α} {x : α}
    (packed : Packed stop (before ++ (xs ++ x :: zs) :: after)) (apart : dead ≠ stop) (inside : stop ∉ xs)
    (usable : x = dead ∨ x = stop) (alive : a ≠ dead) (more : a ≠ stop) :
    Packed stop (before ++ (xs ++ a :: zs) :: after) ∧ (all dead stop (before ++ (xs ++ a :: zs) :: after)).Perm
        (a :: all dead stop (before ++ (xs ++ x :: zs) :: after)) := by
  constructor
  · apply packed.replace
    · simp only [mem_append, mem_cons, not_or]
      exact fun full => ⟨full.1, Ne.symm more, full.2.2⟩
    · exact packed.block.set inside more
  apply all_perm
  rcases usable with rfl | rfl
  · exact shown_revive inside alive more
  · rw [packed.block.rest inside]
    exact shown_extend apart inside alive more

theorem Packed.bury {xs : List α}
    (packed : Packed stop (before ++ (xs ++ a :: zs) :: after)) (apart : dead ≠ stop) (inside : stop ∉ xs)
    (alive : a ≠ dead) (more : a ≠ stop) :
    Packed stop (before ++ (xs ++ dead :: zs) :: after) ∧ (all dead stop (before ++ (xs ++ a :: zs) :: after)).Perm
        (a :: all dead stop (before ++ (xs ++ dead :: zs) :: after)) := by
  constructor
  · apply packed.replace
    · simp only [mem_append, mem_cons, not_or]
      exact fun full => ⟨full.1, Ne.symm apart, full.2.2⟩
    · exact packed.block.set inside apart
  · exact all_perm (shown_revive inside alive more)

theorem shown_empty {l : List α} (empty : ∀ x ∈ l, x = dead ∨ x = stop) : shown dead stop l = [] := by
  rw [eq_nil_iff_forall_not_mem]
  intro a inside
  obtain ⟨member, alive, more⟩ := mem_shown inside
  exact (empty a member).elim alive more

end OpenAFS.Lib.Slots
