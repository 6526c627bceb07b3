import OpenAFS.Lib.Chain

namespace OpenAFS.Lib

open List

open Function (update update_self update_of_ne)

def Path (next prev : Nat → Nat) : Nat → List Nat → Nat → Prop
  | a, [], z => next a = z ∧ prev z = a
  | a, b :: rest, z => next a = b ∧ prev b = a ∧ Path next prev b rest z

variable {before : List Nat}

namespace Path

variable {next prev next' prev' : Nat → Nat} {a c z : Nat} {l : List Nat}

theorem append {after : List Nat} :
    Path next prev a (before ++ c :: after) z ↔ Path next prev a before c ∧ Path next prev c after z := by
  induction before generalizing a with
  | nil => simp [Path, and_assoc]
  | cons b before ih => simp [Path, ih, and_assoc]

theorem congr (path : Path next prev a l z) (nexts : ∀ b ∈ a :: l, next' b = next b)
    (prevs : ∀ b ∈ l ++ [z], prev' b = prev b) : Path next' prev' a l z := by
  induction l generalizing a with
  | nil =>
    rw [Path, nexts a (by simp), prevs z (by simp)]
    exact path
  | cons b rest ih =>
    obtain ⟨forward, backward, later⟩ := path
    refine ⟨(nexts a (by simp)).trans forward, (prevs b (by simp)).trans backward, ih later ?_ ?_⟩
    · exact fun c inside => nexts c (mem_cons_of_mem _ inside)
    · exact fun c inside => prevs c (mem_cons_of_mem _ inside)

theorem last_mem (path : Path next prev a l z) : prev z ∈ a :: l := by
  induction l generalizing a with
  | nil =>
    rw [path.2]
    exact mem_cons_self
  | cons b rest ih => exact mem_cons_of_mem _ (ih path.2.2)

theorem first_mem (path : Path next prev a l z) : next a ∈ l ++ [z] := by
  cases l with
  | nil => simp [path.1]
  | cons b rest => simp [path.1]

theorem retarget (path : Path next prev a l c) (once : (a :: l).Nodup)
    (nexts : ∀ b ∈ a :: l, b ≠ prev c → next' b = next b) (prevs : ∀ b ∈ l, prev' b = prev b)
    (there : next' (prev c) = z) (back : prev' z = prev c) : Path next' prev' a l z := by
  induction l generalizing a with
  | nil =>
    have last : prev c = a := path.2
    rw [last] at there back
    exact ⟨there, back⟩
  | cons b rest ih =>
    obtain ⟨forward, backward, later⟩ := path
    rw [nodup_cons] at once
    have other : a ≠ prev c := fun same => once.1 (same ▸ later.last_mem)
    refine ⟨(nexts a mem_cons_self other).trans forward, (prevs b mem_cons_self).trans backward, ih later once.2 ?_ ?_⟩
    · exact fun d inside => nexts d (mem_cons_of_mem _ inside)
    · exact fun d inside => prevs d (mem_cons_of_mem _ inside)

theorem redirect (path : Path next prev a l c) (once : (a :: l).Nodup) (fresh : z ∉ l) :
    Path (update next (prev c) z) (update prev z (prev c)) a l z := by
  refine path.retarget once (fun b _ other => update_of_ne other ..) ?_ (update_self ..) (update_self ..)
  intro b inside
  rw [update_of_ne]
  rintro rfl
  exact fresh inside

end Path

def Ring (next prev : Nat → Nat) (head : Nat) : List Nat → Prop
  | [] => head = 0
  | b :: rest => head = b ∧ 0 ∉ b :: rest ∧ (b :: rest).Nodup ∧ Path next prev b rest b

namespace Ring

variable {next prev next' prev' : Nat → Nat} {head c : Nat} {l : List Nat}

theorem nodup (ring : Ring next prev head l) : l.Nodup := by
  cases l with
  | nil => exact nodup_nil
  | cons b rest => exact ring.2.2.1

theorem ne_zero (ring : Ring next prev head l) (inside : c ∈ l) : c ≠ 0 := by
  rintro rfl
  cases l with
  | nil => cases inside
  | cons b rest => exact ring.2.1 inside

theorem congr (ring : Ring next prev head l) (nexts : ∀ b ∈ l, next' b = next b)
    (prevs : ∀ b ∈ l, prev' b = prev b) : Ring next' prev' head l := by
  cases l with
  | nil => exact ring
  | cons b rest =>
    refine ⟨ring.1, ring.2.1, ring.2.2.1, ring.2.2.2.congr nexts ?_⟩
    intro c inside
    apply prevs c
    simpa [or_comm] using inside

theorem around {after : List Nat} (ring : Ring next prev head (before ++ c :: after)) :
    Path next prev c (after ++ before) c := by
  cases before with
  | nil =>
    rw [append_nil]
    exact ring.2.2.2
  | cons b before =>
    obtain ⟨first, second⟩ := Path.append.mp ring.2.2.2
    exact Path.append.mpr ⟨second, first⟩

theorem next_last (ring : Ring next prev head (before ++ [c])) : next c = head := by
  cases before with
  | nil => exact ring.2.2.2.1.trans ring.1.symm
  | cons b before => exact (Path.append.mp ring.2.2.2).2.1.trans ring.1.symm

theorem next_eq {more : List Nat} {d : Nat} (ring : Ring next prev head (before ++ c :: d :: more)) : next c = d := by
  cases before with
  | nil => exact ring.2.2.2.1
  | cons b before => exact (Path.append.mp ring.2.2.2).2.1

theorem head_eq {b : Nat} {rest : List Nat} (ring : Ring next prev head (b :: rest)) : head = b := ring.1

theorem next_mem (ring : Ring next prev head l) (inside : c ∈ l) : next c ∈ l := by
  obtain ⟨before, after, rfl⟩ := append_of_mem inside
  have member := ring.around.first_mem
  simp only [mem_append, mem_cons, not_mem_nil, or_false] at member ⊢
  tauto

theorem prev_mem (ring : Ring next prev head l) (inside : c ∈ l) : prev c ∈ l := by
  obtain ⟨before, after, rfl⟩ := append_of_mem inside
  have member := ring.around.last_mem
  simp only [mem_append, mem_cons] at member ⊢
  tauto

theorem append {b : Nat} {rest : List Nat} (ring : Ring next prev b (b :: rest)) (some : c ≠ 0)
    (fresh : c ∉ b :: rest) (nexts : next' = update (update next c b) (prev b) c)
    (prevs : prev' = update (update prev c (prev b)) b c) : Ring next' prev' b (b :: (rest ++ [c])) := by
  obtain ⟨-, nonzero, once, path⟩ := ring
  have other : c ≠ prev b := by
    rintro rfl
    exact fresh path.last_mem
  rw [mem_cons, not_or] at fresh
  rw [Function.update_comm other] at nexts
  refine ⟨rfl, ?_, ?_, ?_⟩
  · rw [← cons_append, mem_append, mem_singleton]
    exact fun zero => zero.elim nonzero fun same => some same.symm
  · refine List.nodup_append.mpr ⟨once, nodup_singleton c, ?_⟩
    intro x inside y only
    rw [mem_singleton] at only
    rw [only]
    rintro rfl
    exact (List.mem_cons.mp inside).elim fresh.1 fresh.2
  apply Path.append.mpr
  constructor
  · apply (path.redirect once fresh.2).congr
    · intro x inside
      rw [nexts, update_of_ne]
      rintro rfl
      exact (List.mem_cons.mp inside).elim fresh.1 fresh.2
    intro x inside
    rw [prevs, update_of_ne]
    rintro rfl
    rcases List.mem_append.mp inside with member | last
    · exact (List.nodup_cons.mp once).1 member
    · exact fresh.1 (List.mem_singleton.mp last).symm
  · rw [nexts, prevs]
    exact ⟨update_self .., update_self ..⟩

theorem remove {after : List Nat} (ring : Ring next prev head (before ++ c :: after)) :
    Ring (update next (prev c) (next c)) (update prev (next c) (prev c))
      (if head = c then (if head = next c then 0 else next c) else head) (before ++ after) := by
  have path := ring.around
  have once : (c :: (after ++ before)).Nodup := by
    rw [nodup_cons, nodup_append_comm]
    have split := List.nodup_middle.mp ring.nodup
    rw [nodup_cons] at split
    exact ⟨by simpa [or_comm] using split.1, split.2⟩
  have nonzero : ∀ x ∈ before ++ after, x ≠ 0 := by
    intro x inside
    apply ring.ne_zero
    rcases List.mem_append.mp inside with early | late
    · exact mem_append_left _ early
    · exact mem_append_right _ (mem_cons_of_mem _ late)
  have apart : ∀ x ∈ before ++ after, x ≠ c := by
    rintro x inside rfl
    exact (List.nodup_cons.mp once).1 (by simpa [or_comm] using inside)
  -- the cells after the one taken out lead around to the first of them
  have rest : ∀ d more, after ++ before = d :: more →
      Path (update next (prev c) (next c)) (update prev (next c) (prev c)) d more d := by
    intro d more split
    rw [split] at path once
    obtain ⟨forward, -, later⟩ := path
    rw [forward]
    rw [nodup_cons] at once
    exact later.redirect once.2 (List.nodup_cons.mp once.2).1
  cases before with
  | nil =>
    have start : head = c := ring.1
    rw [if_pos start, start]
    cases after with
    | nil =>
      have alone : next c = c := path.1
      rw [if_pos alone.symm]
      exact rfl
    | cons d more =>
      have forward : next c = d := path.1
      have moved : c ≠ next c := by
        rw [forward]
        exact (apart d (by simp)).symm
      rw [if_neg moved]
      refine ⟨forward, ?_, (List.nodup_cons.mp ring.nodup).2, rest d more (by simp)⟩
      exact fun zero => nonzero 0 zero rfl
  | cons b before =>
    have start : head = b := ring.1
    rw [start, if_neg (apart b (by simp))]
    refine ⟨rfl, fun zero => nonzero 0 zero rfl, (List.nodup_middle.mp ring.nodup).of_cons, ?_⟩
    cases after with
    | nil => simpa using rest b before (by simp)
    | cons d more =>
      have turned := rest d (more ++ b :: before) (by simp)
      obtain ⟨first, second⟩ := Path.append.mp turned
      exact Path.append.mpr ⟨second, first⟩

end Ring

/-- Several circular lists over the same cells; a label of each cell says which list it is on. -/
def Rings (next prev label head : Nat → Nat) (cells : List Nat) : Prop :=
  ∀ k, Ring next prev (head k) (cells.filter fun c => label c = k)

namespace Rings

variable {next prev label head next' prev' label' head' : Nat → Nat} {cells : List Nat} {c : Nat}

variable (rings : Rings next prev label head cells)
include rings

theorem ring (inside : c ∈ cells) :
    Ring next prev (head (label c)) (cells.filter fun d => label d = label c) ∧
      c ∈ cells.filter fun d => label d = label c := ⟨rings _, by simpa using inside⟩

theorem ne_zero (inside : c ∈ cells) : c ≠ 0 := by
  obtain ⟨ring, member⟩ := rings.ring inside
  exact ring.ne_zero member

theorem next_mem (inside : c ∈ cells) : next c ∈ cells ∧ label (next c) = label c := by
  obtain ⟨ring, member⟩ := rings.ring inside
  simpa using ring.next_mem member

theorem prev_mem (inside : c ∈ cells) : prev c ∈ cells ∧ label (prev c) = label c := by
  obtain ⟨ring, member⟩ := rings.ring inside
  simpa using ring.prev_mem member

theorem congr (nexts : ∀ b ∈ cells, next' b = next b)
    (prevs : ∀ b ∈ cells, prev' b = prev b) (labels : ∀ b ∈ cells, label' b = label b) (heads : head' = head) :
    Rings next' prev' label' head' cells := by
  intro k
  have same : (cells.filter fun b => label' b = k) = cells.filter fun b => label b = k := by
    apply filter_congr
    intro b inside
    rw [labels b inside]
  rw [same, heads]
  apply (rings k).congr
  · exact fun b inside => nexts b (List.mem_filter.mp inside).1
  · exact fun b inside => prevs b (List.mem_filter.mp inside).1

theorem append (some : c ≠ 0) (fresh : c ∉ cells)
    (more : head (label' c) ≠ 0) (labels : ∀ b ∈ cells, label' b = label b)
    (nexts : next' = update (update next c (head (label' c))) (prev (head (label' c))) c)
    (prevs : prev' = update (update prev c (prev (head (label' c)))) (head (label' c)) c) :
    Rings next' prev' label' head (cells ++ [c]) := by
  intro k
  have same : (cells.filter fun b => label' b = k) = cells.filter fun b => label b = k := by
    apply filter_congr
    intro b inside
    rw [labels b inside]
  rw [filter_append, same]
  have here := rings (label' c)
  cases split : cells.filter fun b => label b = label' c with
  | nil =>
    rw [split] at here
    exact absurd here more
  | cons b rest =>
    rw [split] at here
    have start : head (label' c) = b := here.1
    have within : ∀ d ∈ b :: rest, d ∈ cells ∧ label d = label' c := by
      intro d inside
      rw [← split] at inside
      simpa using inside
    by_cases this : label' c = k
    · subst this
      rw [filter_cons_of_pos (by simp), filter_nil, split, start]
      rw [start] at here nexts prevs
      exact here.append some (fun inside => fresh (within c inside).1) nexts prevs
    rw [filter_cons_of_neg (by simpa using this), filter_nil, append_nil]
    have away : ∀ d ∈ cells.filter (fun b => label b = k), d ∉ b :: rest ∧ d ≠ c := by
      intro d inside
      simp only [mem_filter, decide_eq_true_eq] at inside
      refine ⟨fun member => this ((within d member).2.symm.trans inside.2), ?_⟩
      rintro rfl
      exact fresh inside.1
    apply (rings k).congr
    · intro d inside
      obtain ⟨outside, other⟩ := away d inside
      rw [nexts, update_of_ne, update_of_ne other]
      rintro rfl
      rw [start] at outside
      exact outside here.2.2.2.last_mem
    · intro d inside
      obtain ⟨outside, other⟩ := away d inside
      rw [prevs, start, update_of_ne, update_of_ne other]
      rintro rfl
      exact outside mem_cons_self

theorem begin (some : c ≠ 0) (fresh : c ∉ cells)
    (empty : head (label' c) = 0) (labels : ∀ b ∈ cells, label' b = label b) :
    Rings (update next c c) (update prev c c) label' (update head (label' c) c) (cells ++ [c]) := by
  intro k
  have same : (cells.filter fun b => label' b = k) = cells.filter fun b => label b = k := by
    apply filter_congr
    intro b inside
    rw [labels b inside]
  rw [filter_append, same]
  by_cases this : label' c = k
  · subst this
    rw [filter_cons_of_pos (by simp), filter_nil, update_self]
    have here := rings (label' c)
    cases split : cells.filter fun b => label b = label' c with
    | nil => exact ⟨rfl, by simpa using some.symm, by simp, update_self .., update_self ..⟩
    | cons b rest =>
      rw [split] at here
      have nonzero := here.2.1
      rw [← here.1, empty] at nonzero
      exact absurd mem_cons_self nonzero
  · rw [filter_cons_of_neg (by simpa using this), filter_nil, append_nil, update_of_ne (Ne.symm this)]
    apply (rings k).congr
    all_goals
      intro d inside
      rw [update_of_ne]
      rintro rfl
      exact fresh (List.mem_filter.mp inside).1

theorem remove (inside : c ∈ cells) :
    Rings (update next (prev c) (next c)) (update prev (next c) (prev c)) label
      (update head (label c) (if head (label c) = c then (if head (label c) = next c then 0 else next c)
        else head (label c))) (cells.filter fun d => d ≠ c) := by
  intro k
  have order : ((cells.filter fun d => d ≠ c).filter fun d => label d = k) =
      (cells.filter fun d => label d = k).filter fun d => d ≠ c := by
    rw [filter_filter, filter_filter]
    apply filter_congr
    intro d _
    rw [Bool.and_comm]
  rw [order]
  by_cases this : k = label c
  · subst this
    obtain ⟨ring, member⟩ := rings.ring inside
    obtain ⟨before, after, split⟩ := append_of_mem member
    rw [split] at ring ⊢
    rw [filter_ne_of_nodup ring.nodup, update_self]
    exact ring.remove
  have kept : ((cells.filter fun d => label d = k).filter fun d => d ≠ c) = cells.filter fun d => label d = k :=
    filter_ne_of_notMem fun member => this (of_decide_eq_true (List.mem_filter.mp member).2).symm
  rw [kept, update_of_ne this]
  apply (rings k).congr
  · intro d member
    simp only [mem_filter, decide_eq_true_eq] at member
    rw [update_of_ne]
    rintro rfl
    exact this (member.2.symm.trans (rings.prev_mem inside).2)
  intro d member
  simp only [mem_filter, decide_eq_true_eq] at member
  rw [update_of_ne]
  rintro rfl
  exact this (member.2.symm.trans (rings.next_mem inside).2)

theorem clear (k : Nat) :
    Rings next prev label (update head k 0) (cells.filter fun c => label c ≠ k) := by
  intro j
  rw [filter_filter]
  by_cases this : j = k
  · subst this
    rw [update_self, List.filter_eq_nil_iff.mpr]
    · exact rfl
    · intro c _
      simp
  rw [update_of_ne this]
  have same : (cells.filter fun c => decide (label c = j) && decide (label c ≠ k)) = cells.filter fun c => label c = j := by
    apply filter_congr
    intro c _
    by_cases here : label c = j
    · simp [here, this]
    · simp [here]
  rw [same]
  exact rings j

end Rings

end OpenAFS.Lib
