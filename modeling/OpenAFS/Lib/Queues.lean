import Mathlib.Data.List.Induction
import Mathlib.Data.Set.Insert
import OpenAFS.Lib.Rings

namespace OpenAFS.Lib

open List (mem_append_left mem_append_right mem_cons_of_mem mem_cons_self)

open Function (update update_apply update_self update_of_ne)

def walk (prev : Nat → Nat) (head : Nat) : Nat → Nat → List Nat
  | 0, _ => []
  | fuel + 1, a => if a = head then [] else a :: walk prev head fuel (prev a)

namespace Path

variable {next prev : Nat → Nat} {a c z : Nat} {l before after : List Nat}

theorem prev_last (path : Path next prev a (before ++ [c]) z) : prev z = c := (append.mp path).2.2

theorem prev_ne_zero (path : Path next prev a l z) (nonzero : 0 ∉ a :: l) : prev z ≠ 0 := by
  intro zero
  exact nonzero (zero ▸ path.last_mem)

theorem walk_prev (path : Path next prev a l z) (apart : a ∉ l) {fuel : Nat} (enough : l.length ≤ fuel) :
    walk prev a fuel (prev z) = l.reverse := by
  induction l using List.reverseRecOn generalizing z fuel with
  | nil =>
    rw [path.2]
    cases fuel with
    | zero => rfl
    | succ fuel => exact if_pos rfl
  | append_singleton before c ih =>
    rcases append.mp path with ⟨first, -, backward⟩
    rw [List.length_append, List.length_singleton] at enough
    cases fuel with
    | zero => omega
    | succ fuel =>
      have other : c ≠ a := by
        intro same
        exact apart (same ▸ mem_append_right _ mem_cons_self)
      rw [backward, walk, if_neg other, ih first (fun inside => apart (mem_append_left _ inside)) (by omega), List.reverse_append]
      rfl

end Path

/-- Each head leads through the cells of its queue back to itself. -/
structure Queues (next prev : Nat → Nat) (heads : Set Nat) (chain : Nat → List Nat) : Prop where
  path : ∀ h ∈ heads, Path next prev h (chain h) h
  once : ∀ h ∈ heads, (chain h).Nodup
  apart : ∀ h ∈ heads, ∀ k ∈ heads, ∀ c ∈ chain h, c ∈ chain k → h = k
  cell : ∀ h ∈ heads, ∀ c ∈ chain h, c ∉ heads ∧ c ≠ 0
  head : ∀ h ∈ heads, h ≠ 0
  off : ∀ c, c ∉ heads → (∀ h ∈ heads, c ∉ chain h) → next c = 0 ∧ prev c = 0

namespace Queues

variable {next prev next' prev' : Nat → Nat} {heads : Set Nat} {chain : Nat → List Nat} {h k c : Nat}

section

variable (queues : Queues next prev heads chain)
include queues

theorem not_zero (here : h ∈ heads) : 0 ∉ h :: chain h := by
  intro zero
  rcases List.mem_cons.mp zero with same | inside
  · exact queues.head h here same.symm
  · exact (queues.cell h here 0 inside).2 rfl

theorem head_notMem (here : h ∈ heads) (there : k ∈ heads) : k ∉ chain h :=
  fun inside => (queues.cell h here k inside).1 there

theorem nodup_cons (here : h ∈ heads) : (h :: chain h).Nodup :=
  List.nodup_cons.mpr ⟨queues.head_notMem here here, queues.once h here⟩

theorem linked (here : h ∈ heads) (inside : c ∈ chain h) : next c ≠ 0 ∧ prev c ≠ 0 := by
  have nonzero := queues.not_zero here
  rcases List.append_of_mem inside with ⟨before, after, split⟩
  have path := queues.path h here
  rw [split] at path nonzero
  rcases Path.append.mp path with ⟨first, second⟩
  constructor
  · intro zero
    have member := second.first_mem
    rw [zero] at member
    apply nonzero
    simp only [List.mem_append, List.mem_cons, List.not_mem_nil, or_false] at member ⊢
    tauto
  · apply first.prev_ne_zero
    intro member
    apply nonzero
    simp only [List.mem_append, List.mem_cons] at member ⊢
    tauto

theorem next_eq_zero_iff (cell : c ∉ heads) : next c = 0 ↔ ∀ h ∈ heads, c ∉ chain h := by
  constructor
  · exact fun zero h here inside => (queues.linked here inside).1 zero
  · exact fun nowhere => (queues.off c cell nowhere).1

theorem prev_eq_zero_iff (cell : c ∉ heads) : prev c = 0 ↔ ∀ h ∈ heads, c ∉ chain h := by
  constructor
  · exact fun zero h here inside => (queues.linked here inside).2 zero
  · exact fun nowhere => (queues.off c cell nowhere).2

theorem next_head_mem (here : h ∈ heads) : next h ∈ chain h ++ [h] :=
  (queues.path h here).first_mem

theorem prev_head_mem (here : h ∈ heads) : prev h ∈ h :: chain h :=
  (queues.path h here).last_mem

theorem ne_of_mem (here : h ∈ heads) (there : k ∈ heads) (other : h ≠ k)
    {a b : Nat} (one : a ∈ h :: chain h) (two : b ∈ k :: chain k) : a ≠ b := by
  intro same
  subst same
  rcases List.mem_cons.mp one with rfl | inside
  · rcases List.mem_cons.mp two with rfl | inside
    · exact other rfl
    · exact queues.head_notMem there here inside
  · rcases List.mem_cons.mp two with rfl | inside'
    · exact queues.head_notMem here there inside
    · exact other (queues.apart h here k there a inside inside')

end

section

variable (queues : Queues next prev heads chain)
include queues

theorem change {some : Set Nat} {chain' : Nat → List Nat} (sub : ∀ k ∈ some, k ∈ heads)
    (other : ∀ k ∉ some, chain' k = chain k) (paths : ∀ k ∈ some, Path next' prev' k (chain' k) k)
    (once : ∀ k ∈ some, (chain' k).Nodup) (apart : ∀ j ∈ some, ∀ k ∈ some, ∀ c ∈ chain' j, c ∈ chain' k → j = k)
    (shared : ∀ k ∈ some, ∀ c ∈ chain' k, (∃ j ∈ some, c ∈ chain j) ∨ c ∉ heads ∧ c ≠ 0 ∧ ∀ j ∈ heads, c ∉ chain j)
    (frame : ∀ b, (∀ k ∈ some, b ∉ k :: chain k ∧ b ∉ chain' k) → next' b = next b ∧ prev' b = prev b)
    (gone : ∀ k ∈ some, ∀ c ∈ chain k, (∀ j ∈ some, c ∉ chain' j) → next' c = 0 ∧ prev' c = 0) :
    Queues next' prev' heads chain' := by
  have outside : ∀ k ∈ heads, k ∉ some → ∀ b ∈ k :: chain k, ∀ j ∈ some, b ∉ j :: chain j ∧ b ∉ chain' j := by
    intro k here off b inside j there
    refine ⟨fun member => ?_, fun member => ?_⟩
    · exact queues.ne_of_mem here (sub j there) (fun same => off (same ▸ there)) inside member rfl
    rcases shared j there b member with ⟨i, there, held⟩ | ⟨notHead, -, fresh⟩
    · exact queues.ne_of_mem here (sub i there) (fun same => off (same ▸ there)) inside (mem_cons_of_mem _ held) rfl
    · exact (List.mem_cons.mp inside).elim (fun same => notHead (same ▸ here)) (fresh k here)
  constructor
  · intro k here
    by_cases inside : k ∈ some
    · exact paths k inside
    rw [other k inside]
    exact (queues.path k here).congr (fun b member => (frame b (outside k here inside b member)).1)
      fun b member => (frame b (outside k here inside b (by simpa [or_comm] using member))).2
  · intro k here
    by_cases inside : k ∈ some
    · exact once k inside
    · exact other k inside ▸ queues.once k here
  · intro j here k there c one two
    by_cases inside : j ∈ some
    · by_cases inside' : k ∈ some
      · exact apart j inside k inside' c one two
      · rw [other k inside'] at two
        exact absurd one (outside k there inside' c (mem_cons_of_mem _ two) j inside).2
    rw [other j inside] at one
    by_cases inside' : k ∈ some
    · exact absurd two (outside j here inside c (mem_cons_of_mem _ one) k inside').2
    · exact queues.apart j here k there c one (other k inside' ▸ two)
  · intro k here c member
    by_cases inside : k ∈ some
    · rcases shared k inside c member with ⟨j, there, held⟩ | ⟨notHead, nonzero, -⟩
      · exact queues.cell j (sub j there) c held
      · exact ⟨notHead, nonzero⟩
    · exact queues.cell k here c (other k inside ▸ member)
  · exact queues.head
  · intro c notHead nowhere
    by_cases held : ∃ k ∈ some, c ∈ chain k
    · obtain ⟨k, inside, held⟩ := held
      exact gone k inside c held fun j inside => nowhere j (sub j inside)
    have before : ∀ k ∈ heads, c ∉ chain k := by
      intro k here member
      by_cases inside : k ∈ some
      · exact held ⟨k, inside, member⟩
      · exact nowhere k here (by rwa [other k inside])
    obtain ⟨nexts, prevs⟩ := frame c fun k inside => by
      refine ⟨fun member => ?_, nowhere k (sub k inside)⟩
      exact (List.mem_cons.mp member).elim (fun same => notHead (same ▸ sub k inside)) (before k (sub k inside))
    rw [nexts, prevs]
    exact queues.off c notHead before

theorem replace (here : h ∈ heads) {l : List Nat} (path : Path next' prev' h l h) (once : l.Nodup)
    (shared : ∀ c ∈ l, c ∈ chain h ∨ c ∉ heads ∧ c ≠ 0 ∧ ∀ k ∈ heads, c ∉ chain k)
    (frame : ∀ b, b ∉ h :: chain h → b ∉ l → next' b = next b ∧ prev' b = prev b)
    (gone : ∀ c ∈ chain h, c ∉ l → next' c = 0 ∧ prev' c = 0) : Queues next' prev' heads (update chain h l) := by
  refine queues.change (fun k (same : k ∈ ({h} : Set Nat)) => same ▸ here) (fun k other => update_of_ne other ..) ?_ ?_ ?_ ?_ ?_ ?_
  all_goals simp only [Set.mem_singleton_iff, forall_eq, exists_eq_left, update_self]
  · exact path
  · exact once
  · exact fun _ _ _ => trivial
  · exact shared
  · exact fun b away => frame b away.1 away.2
  · exact gone

theorem add (here : h ∈ heads) (cell : c ∉ heads) (nonzero : c ≠ 0)
    (fresh : ∀ k ∈ heads, c ∉ chain k) (nexts : next' = update (update next c (next h)) h c)
    (prevs : prev' = update (update prev c h) (next h) c) :
    Queues next' prev' heads (update chain h (c :: chain h)) := by
  have path := queues.path h here
  have once := queues.nodup_cons here
  have other : c ≠ h := fun same => cell (same ▸ here)
  have unlisted := fresh h here
  refine queues.replace here ?_ (List.nodup_cons.mpr ⟨unlisted, queues.once h here⟩) ?_ ?_ ?_
  · cases split : chain h with
    | nil =>
      rw [split] at path
      rw [path.1] at nexts prevs
      simp only [Path, nexts, prevs, update_apply]
      grind
    | cons b rest =>
      rw [split] at path once unlisted
      rcases path with ⟨forward, -, later⟩
      rw [forward] at nexts prevs
      simp only [List.nodup_cons, List.mem_cons] at once unlisted
      refine ⟨?_, ?_, ?_, ?_, later.congr ?_ ?_⟩
      all_goals simp only [nexts, prevs, update_apply, List.mem_cons, List.mem_append]; grind
  · intro d inside
    rcases List.mem_cons.mp inside with rfl | held
    · exact .inr ⟨cell, nonzero, fresh⟩
    · exact .inl held
  · intro b away off
    have first : b ≠ next h := by
      rintro rfl
      exact away (by simpa [or_comm] using queues.next_head_mem here)
    rw [List.mem_cons, not_or] at away off
    rw [nexts, prevs, update_of_ne away.1, update_of_ne off.1, update_of_ne first, update_of_ne off.1]
    exact ⟨rfl, rfl⟩
  · exact fun d held off => absurd (mem_cons_of_mem _ held) off

theorem remove (here : h ∈ heads) {before after : List Nat}
    (split : chain h = before ++ c :: after) (nexts : next' = update (update next (prev c) (next c)) c 0)
    (prevs : prev' = update (update prev (next c) (prev c)) c 0) :
    Queues next' prev' heads (update chain h (before ++ after)) := by
  have path := queues.path h here
  have once := queues.nodup_cons here
  rw [split] at path once
  rcases Path.append.mp path with ⟨first, second⟩
  have last := first.last_mem
  have start := second.first_mem
  simp only [List.nodup_cons, List.nodup_append, List.mem_cons, List.mem_append, List.not_mem_nil, or_false] at once last start
  refine queues.replace here ?_ ?_ ?_ ?_ ?_
  · cases after with
    | nil =>
      rw [List.append_nil]
      have back : next c = h := second.1
      refine first.retarget ?_ ?_ ?_ ?_ ?_
      all_goals simp only [nexts, prevs, update_apply, List.nodup_cons, List.mem_cons]; grind
    | cons d more =>
      have forward : next c = d := second.1
      refine Path.append.mpr ⟨first.retarget ?_ ?_ ?_ ?_ ?_, second.2.2.congr ?_ ?_⟩
      all_goals simp only [nexts, prevs, update_apply, List.nodup_cons, List.mem_cons, List.mem_append]; grind
  · rw [List.nodup_append]
    grind
  · rw [split]
    grind
  · rw [split]
    simp only [nexts, prevs, update_apply, List.mem_cons, List.mem_append]
    grind
  · rw [split, nexts, prevs]
    simp only [update_apply, List.mem_cons, List.mem_append]
    grind

theorem cat (here : h ∈ heads) (there : k ∈ heads) (other : h ≠ k) (some : chain h ≠ [])
    (nexts : next' = update (update (update next (prev k) (next h)) (prev h) k) h h)
    (prevs : prev' = update (update (update prev (next h) (prev k)) k (prev h)) h h) :
    Queues next' prev' heads (update (update chain k (chain k ++ chain h)) h []) := by
  have differ : ∀ a ∈ h :: chain h, ∀ b ∈ k :: chain k, a ≠ b := fun a one b two => queues.ne_of_mem here there other one two
  have pathH := queues.path h here
  have pathK := queues.path k there
  have onceH := queues.nodup_cons here
  have onceK := queues.nodup_cons there
  have lastH := pathH.last_mem
  have lastK := pathK.last_mem
  have startH := pathH.first_mem
  have emptied : update (update chain k (chain k ++ chain h)) h [] h = [] := update_self ..
  have joined : update (update chain k (chain k ++ chain h)) h [] k = chain k ++ chain h := by
    rw [update_of_ne (Ne.symm other), update_self]
  refine queues.change (fun j (either : j ∈ ({h, k} : Set Nat)) => either.elim (· ▸ here) (· ▸ there)) ?_ ?_ ?_ ?_ ?_ ?_ ?_
  all_goals simp only [Set.mem_insert_iff, Set.mem_singleton_iff, forall_eq_or_imp, forall_eq, exists_eq_or_imp, exists_eq_left,
    emptied, joined]
  · intro j neither
    rw [not_or] at neither
    rw [update_of_ne neither.1, update_of_ne neither.2]
  · refine ⟨by simp [Path, nexts, prevs], ?_⟩
    cases split : chain h with
    | nil => exact absurd split some
    | cons first rest =>
      rw [split] at pathH onceH differ lastH
      rcases pathH with ⟨forward, -, later⟩
      have lastH := later.last_mem
      rw [forward] at nexts prevs
      simp only [List.nodup_cons, List.mem_cons] at onceH onceK lastH lastK differ
      refine Path.append.mpr ⟨pathK.retarget ?_ ?_ ?_ ?_ ?_, later.retarget ?_ ?_ ?_ ?_ ?_⟩
      all_goals simp only [nexts, prevs, update_apply, List.nodup_cons, List.mem_cons]; grind
  · refine ⟨List.nodup_nil, List.nodup_append.mpr ⟨queues.once k there, queues.once h here, ?_⟩⟩
    exact fun a early b late same => differ b (mem_cons_of_mem _ late) a (mem_cons_of_mem _ early) same.symm
  · simp
  · simp +contextual [or_comm]
  · simp only [nexts, prevs, update_apply, List.mem_cons, List.mem_append] at lastH lastK startH ⊢
    grind
  · simp +contextual

end

theorem empty (nonzero : ∀ h ∈ heads, h ≠ 0) (self : ∀ h ∈ heads, next h = h ∧ prev h = h)
    (off : ∀ c, c ∉ heads → next c = 0 ∧ prev c = 0) : Queues next prev heads fun _ => [] where
  path := self
  once _ _ := List.nodup_nil
  apart _ _ _ _ _ inside _ := absurd inside List.not_mem_nil
  cell _ _ _ inside := absurd inside List.not_mem_nil
  head := nonzero
  off c cell _ := off c cell

end Queues

end OpenAFS.Lib
