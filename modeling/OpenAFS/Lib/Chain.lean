import Mathlib.Data.List.Nodup
import Mathlib.Data.List.TakeWhile

namespace OpenAFS.Lib

open List

variable {b : Nat}

theorem filter_ne_of_notMem {l : List Nat} (outside : b ∉ l) : (l.filter fun c => c ≠ b) = l := by
  rw [filter_eq_self]
  intro c inside
  simp only [ne_eq, decide_not, Bool.not_eq_true', decide_eq_false_iff_not]
  rintro rfl
  exact outside inside

variable {before after : List Nat}

theorem filter_ne_of_nodup (once : (before ++ b :: after).Nodup) :
    (before ++ b :: after).filter (fun c => c ≠ b) = before ++ after := by
  rw [nodup_append, nodup_cons] at once
  obtain ⟨-, ⟨last, -⟩, apart⟩ := once
  have first : b ∉ before := fun inside => apart b inside b mem_cons_self rfl
  rw [filter_append, filter_cons_of_neg (by simp), filter_ne_of_notMem first, filter_ne_of_notMem last]

theorem perm_cons_filter_ne {l : List Nat} (inside : b ∈ l) (once : l.Nodup) :
    (b :: l.filter fun c => c ≠ b).Perm l := by
  obtain ⟨before, after, split⟩ := append_of_mem inside
  rw [split] at once ⊢
  rw [filter_ne_of_nodup once]
  exact List.perm_middle.symm

variable {σ : Type*} (load : σ → Nat) (link : Nat → σ)

def Linked : σ → List Nat → Prop
  | a, [] => load a = 0
  | a, b :: rest => load a = b ∧ b ≠ 0 ∧ Linked (link b) rest

def slotAfter : σ → List Nat → σ
  | a, [] => a
  | _, b :: before => slotAfter (link b) before

variable {load link}

theorem slotAfter_mem (a : σ) (before : List Nat) :
    slotAfter link a before = a ∨ ∃ b ∈ before, slotAfter link a before = link b := by
  induction before generalizing a with
  | nil => exact .inl rfl
  | cons c before ih =>
    rcases ih (link c) with here | ⟨b, inside, there⟩
    · exact .inr ⟨c, mem_cons_self, here⟩
    · exact .inr ⟨b, mem_cons_of_mem _ inside, there⟩

theorem slotAfter_concat (a : σ) (before : List Nat) (b : Nat) : slotAfter link a (before ++ [b]) = link b := by
  induction before generalizing a with
  | nil => rfl
  | cons c before ih => exact ih (link c)

theorem slotAfter_link (c : Nat) (before : List Nat) : slotAfter link (link c) before = link (before.getLastD c) := by
  induction before generalizing c with
  | nil => rfl
  | cons d before ih =>
    rw [getLastD_cons]
    exact ih d

variable {cells : List Nat} {a : σ} {n : Nat}

namespace Linked

variable {load' : σ → Nat}

theorem congr (linked : Linked load link a cells)
    (head : load' a = load a) (links : ∀ b ∈ cells, load' (link b) = load (link b)) : Linked load' link a cells := by
  induction cells generalizing a with
  | nil => exact head.trans linked
  | cons b rest ih =>
    obtain ⟨here, some, later⟩ := linked
    refine ⟨head.trans here, some, ih later ?_ ?_⟩
    · exact links b mem_cons_self
    · exact fun c inside => links c (mem_cons_of_mem _ inside)

theorem move {a' : σ} (linked : Linked load link a cells) (same : load a' = load a) :
    Linked load link a' cells := by
  cases cells with
  | nil => exact same.trans linked
  | cons b rest => exact ⟨same.trans linked.1, linked.2⟩

theorem unique {cells' : List Nat} (linked : Linked load link a cells)
    (linked' : Linked load link a cells') : cells = cells' := by
  induction cells generalizing a cells' with
  | nil =>
    cases cells' with
    | nil => rfl
    | cons b rest => exact absurd (linked'.1.symm.trans linked) linked'.2.1
  | cons b rest ih =>
    cases cells' with
    | nil => exact absurd (linked.1.symm.trans linked') linked.2.1
    | cons c rest' =>
      have same : b = c := linked.1.symm.trans linked'.1
      subst same
      rw [ih linked.2.2 linked'.2.2]

theorem drop (linked : Linked load link a (before ++ after)) :
    Linked load link (slotAfter link a before) after := by
  induction before generalizing a with
  | nil => exact linked
  | cons b before ih => exact ih linked.2.2

theorem ne_zero (linked : Linked load link a cells) (inside : b ∈ cells) : b ≠ 0 := by
  induction cells generalizing a with
  | nil => cases inside
  | cons c rest ih =>
    rcases List.mem_cons.mp inside with rfl | later
    · exact linked.2.1
    · exact ih linked.2.2 later

theorem next_mem (linked : Linked load link a cells) (inside : b ∈ cells) :
    load (link b) = 0 ∨ load (link b) ∈ cells := by
  induction cells generalizing a with
  | nil => cases inside
  | cons c rest ih =>
    rcases List.mem_cons.mp inside with rfl | later
    · cases rest with
      | nil => exact .inl linked.2.2
      | cons d rest =>
        rw [linked.2.2.1]
        exact .inr (by simp)
    · exact (ih linked.2.2 later).imp id (mem_cons_of_mem _)

theorem head_mem (linked : Linked load link a cells) : load a = 0 ∨ load a ∈ cells := by
  cases cells with
  | nil => exact .inl linked
  | cons c rest =>
    rw [linked.1]
    exact .inr mem_cons_self

theorem nodup (linked : Linked load link a cells) : cells.Nodup := by
  induction cells generalizing a with
  | nil => exact nodup_nil
  | cons b rest ih =>
    rw [nodup_cons]
    refine ⟨fun again => ?_, ih linked.2.2⟩
    obtain ⟨before, after, split⟩ := append_of_mem again
    -- the list from the second place is the one from the first
    have later : Linked load link (link b) (before ++ b :: after) := split ▸ linked.2.2
    have same := unique linked.2.2 later.drop.2.2
    rw [split] at same
    have lengths := congrArg List.length same
    simp only [length_append, length_cons] at lengths
    omega

theorem push (linked : Linked load link a cells)
    (some : b ≠ 0) (head : load' a = b) (next : load' (link b) = load a)
    (links : ∀ c ∈ cells, load' (link c) = load (link c)) : Linked load' link a (b :: cells) := by
  refine ⟨head, some, ?_⟩
  cases cells with
  | nil => exact next.trans linked
  | cons c rest =>
    obtain ⟨here, some', later⟩ := linked
    refine ⟨next.trans here, some', later.congr (links c mem_cons_self) ?_⟩
    exact fun d inside => links d (mem_cons_of_mem _ inside)

theorem snoc (linked : Linked load link a cells)
    (some : b ≠ 0) (last : load' (slotAfter link a cells) = b) (end_ : load' (link b) = 0)
    (head : a ≠ slotAfter link a cells → load' a = load a)
    (links : ∀ c ∈ cells, link c ≠ slotAfter link a cells → load' (link c) = load (link c)) :
    Linked load' link a (cells ++ [b]) := by
  induction cells generalizing a with
  | nil => exact ⟨last, some, end_⟩
  | cons c rest ih =>
    obtain ⟨here, some', later⟩ := linked
    by_cases only : a = slotAfter link (link c) rest
    · -- the first slot is the last only if it is the slot of a cell, which comes before itself
      refine ⟨?_, some', ih later last ?_ ?_⟩
      · have loop : load (slotAfter link (link c) rest) = 0 := by
          have rest' : Linked load link (link c) (rest ++ []) := by rwa [append_nil]
          exact rest'.drop
        rw [← only, here] at loop
        exact absurd loop some'
      · exact fun other => links c mem_cons_self other
      · exact fun d inside other => links d (mem_cons_of_mem _ inside) other
    · refine ⟨(head only).trans here, some', ih later last ?_ ?_⟩
      · exact fun other => links c mem_cons_self other
      · exact fun d inside other => links d (mem_cons_of_mem _ inside) other

theorem unlink
    (linked : Linked load link a (before ++ b :: after)) (injective : Function.Injective link)
    (apart : ∀ c ∈ before ++ b :: after, link c ≠ a)
    (slot : load' (slotAfter link a before) = load (link b))
    (head : a ≠ slotAfter link a before → load' a = load a)
    (links : ∀ c ∈ before ++ after, link c ≠ slotAfter link a before → load' (link c) = load (link c)) :
    Linked load' link a (before ++ after) := by
  have once := linked.nodup
  induction before generalizing a with
  | nil =>
    have later := linked.2.2
    cases after with
    | nil => exact slot.trans later
    | cons c rest =>
      refine ⟨slot.trans later.1, later.2.1, later.2.2.congr ?_ ?_⟩
      · exact links c mem_cons_self (apart c (by simp))
      · exact fun d inside => links d (mem_cons_of_mem _ inside) (apart d (by simp [inside]))
  | cons c before ih =>
    rw [cons_append, nodup_cons] at once
    have fresh : ∀ d ∈ before ++ b :: after, link d ≠ link c := fun d inside same =>
      once.1 (injective same ▸ inside)
    have elsewhere : a ≠ slotAfter link (link c) before := by
      intro same
      rcases @slotAfter_mem _ link (link c) before with here | ⟨d, inside, there⟩
      · exact apart c mem_cons_self (here.symm.trans same.symm)
      · exact apart d (by simp [inside]) (there.symm.trans same.symm)
    refine ⟨(head elsewhere).trans linked.1, linked.2.1, ih linked.2.2 fresh slot ?_ ?_ once.2⟩
    · exact links c mem_cons_self
    · exact fun d inside => links d (mem_cons_of_mem _ inside)

theorem values (linked : Linked load link a cells) :
    Linked id (fun b => load (link b)) (load a) cells := by
  induction cells generalizing a with
  | nil => exact linked
  | cons b rest ih => exact ⟨linked.1, linked.2.1, ih linked.2.2⟩

variable {next : Nat → Nat}

theorem eq_nil (linked : Linked id next 0 cells) : cells = [] := by
  cases cells with
  | nil => rfl
  | cons c rest => exact absurd linked.1.symm linked.2.1

theorem of_values (linked : Linked id (fun b => load (link b)) n cells)
    (head : load a = n) : Linked load link a cells := by
  induction cells generalizing a n with
  | nil => exact head.trans linked
  | cons b rest ih => exact ⟨head.trans linked.1, linked.2.1, ih linked.2.2 rfl⟩

theorem congr_values {next' : Nat → Nat} (linked : Linked id next n cells)
    (same : ∀ b ∈ cells, next' b = next b) : Linked id next' n cells := by
  induction cells generalizing n with
  | nil => exact linked
  | cons b rest ih =>
    refine ⟨linked.1, linked.2.1, ?_⟩
    rw [same b mem_cons_self]
    exact ih linked.2.2 fun c inside => same c (mem_cons_of_mem _ inside)

theorem first (linked : Linked id next n cells) : cells[0]?.getD 0 = n := by
  cases cells with
  | nil => exact linked.symm
  | cons b rest => exact linked.1.symm

theorem following {i : Nat} (linked : Linked id next n cells)
    (here : cells[i]? = some b) : cells[i + 1]?.getD 0 = next b := by
  induction cells generalizing n i with
  | nil => cases here
  | cons c rest ih =>
    cases i with
    | zero =>
      cases here
      exact linked.2.2.first
    | succ i =>
      exact ih linked.2.2 here

end Linked

/-- Looks through a list for a cell, and returns the slot that holds it, or the last slot. -/
def seek (load : σ → Nat) (link : Nat → σ) (stop : Nat → Bool) : Nat → σ → Option σ
  | 0, _ => none
  | n + 1, a => if load a = 0 ∨ stop (load a) then some a else seek load link stop n (link (load a))

theorem Linked.seek_eq {stop : Nat → Bool}
    (linked : Linked load link a (before ++ after)) (passed : ∀ b ∈ before, stop b = false)
    (found : ∀ b ∈ after.head?, stop b = true) (enough : before.length < n) :
    seek load link stop n a = some (slotAfter link a before) := by
  induction before generalizing a n with
  | nil =>
    cases n with
    | zero => cases enough
    | succ n =>
      rw [seek, if_pos]
      · rfl
      cases after with
      | nil => exact .inl linked
      | cons b rest =>
        rw [linked.1]
        exact .inr (found b rfl)
  | cons b before ih =>
    cases n with
    | zero => cases enough
    | succ n =>
      obtain ⟨here, some, later⟩ := linked
      rw [seek, here, if_neg]
      · exact ih later (fun c inside => passed c (mem_cons_of_mem _ inside)) (by simpa using enough)
      · rw [passed b mem_cons_self]
        simpa using some

theorem Linked.seek_cases (linked : Linked load link a cells) (stop : Nat → Bool)
    (enough : cells.length < n) : ∃ before after, cells = before ++ after ∧ (∀ b ∈ before, stop b = false) ∧
      (∀ b ∈ after.head?, stop b = true) ∧ seek load link stop n a = some (slotAfter link a before) := by
  have split := takeWhile_append_dropWhile (p := fun b => !stop b) (l := cells)
  have passed : ∀ b ∈ cells.takeWhile (fun b => !stop b), stop b = false := by
    intro b inside
    simpa using mem_takeWhile_imp inside
  have found : ∀ b ∈ (cells.dropWhile fun b => !stop b).head?, stop b = true := by
    intro b first
    rw [← find?_eq_head?_dropWhile_not] at first
    exact find?_some first
  have shorter : (cells.takeWhile fun b => !stop b).length < n :=
    Nat.lt_of_le_of_lt (takeWhile_sublist _).length_le enough
  refine ⟨_, _, split.symm, passed, found, ?_⟩
  rw [← split] at linked
  exact linked.seek_eq passed found shorter

theorem Linked.load_slotAfter
    (linked : Linked load link a (before ++ b :: after)) : load (slotAfter link a before) = b := linked.drop.1

theorem Linked.load_end (linked : Linked load link a cells) : load (slotAfter link a cells) = 0 := by
  have whole : Linked load link a (cells ++ []) := by rwa [append_nil]
  exact whole.drop

end OpenAFS.Lib
