import OpenAFS.Lib.Chain

namespace OpenAFS.Lib

open List

variable {σ ι : Type*} [DecidableEq ι]

def Buckets (load : σ → Nat) (link : Nat → σ) (head : ι → σ) (valid : ι → Prop) (bucket : Nat → ι) (cells : List Nat) : Prop :=
  ∀ i, valid i → Linked load link (head i) (cells.filter fun b => bucket b = i)

namespace Buckets

variable {load load' : σ → Nat} {link : Nat → σ} {head : ι → σ} {valid : ι → Prop} {bucket bucket' : Nat → ι}
  {cells : List Nat}

variable (table : Buckets load link head valid bucket cells)
include table

theorem congr (heads : ∀ i, valid i → load' (head i) = load (head i))
    (links : ∀ c ∈ cells, load' (link c) = load (link c)) (buckets : ∀ c ∈ cells, bucket' c = bucket c) :
    Buckets load' link head valid bucket' cells := by
  intro i known
  have same : (cells.filter fun b => bucket' b = i) = cells.filter fun b => bucket b = i := by
    apply filter_congr
    intro c inside
    rw [buckets c inside]
  rw [same]
  apply (table i known).congr (heads i known)
  intro c inside
  exact links c (List.mem_filter.mp inside).1

theorem push {b : Nat} (nonzero : b ≠ 0)
    (headSlot : load' (head (bucket' b)) = b) (next : load' (link b) = load (head (bucket' b)))
    (heads : ∀ i, valid i → i ≠ bucket' b → load' (head i) = load (head i))
    (links : ∀ c ∈ cells, load' (link c) = load (link c)) (buckets : ∀ c ∈ cells, bucket' c = bucket c) :
    Buckets load' link head valid bucket' (b :: cells) := by
  intro i known
  have same : (cells.filter fun c => bucket' c = i) = cells.filter fun c => bucket c = i := by
    apply filter_congr
    intro c inside
    rw [buckets c inside]
  have inBucket : ∀ c ∈ cells.filter fun c => bucket c = i, load' (link c) = load (link c) := by
    intro c inside
    exact links c (List.mem_filter.mp inside).1
  by_cases here : bucket' b = i
  · subst here
    rw [filter_cons_of_pos (by simp), same]
    exact (table _ known).push nonzero headSlot next inBucket
  · rw [filter_cons_of_neg (by simpa using here), same]
    exact (table i known).congr (heads i known (Ne.symm here)) inBucket

theorem unlink {b : Nat} {before after : List Nat}
    (injective : Function.Injective link) (heads : Function.Injective head) (apart : ∀ c i, link c ≠ head i)
    (known : valid (bucket b)) (split : (cells.filter fun c => bucket c = bucket b) = before ++ b :: after)
    (slot : load' (slotAfter link (head (bucket b)) before) = load (link b))
    (others : ∀ s, (∃ i, valid i ∧ s = head i) ∨ (∃ c ∈ cells, c ≠ b ∧ s = link c) →
      s ≠ slotAfter link (head (bucket b)) before → load' s = load s) :
    Buckets load' link head valid bucket (cells.filter fun c => c ≠ b) := by
  intro i known'
  have linked := table _ known
  rw [split] at linked
  have once := linked.nodup
  have order : ((cells.filter fun c => c ≠ b).filter fun c => bucket c = i) =
      (cells.filter fun c => bucket c = i).filter fun c => c ≠ b := by
    rw [filter_filter, filter_filter]
    apply filter_congr
    intro c _
    rw [Bool.and_comm]
  rw [order]
  by_cases here : i = bucket b
  · subst here
    rw [split, filter_ne_of_nodup once]
    have inside : ∀ c ∈ before ++ after, c ∈ cells ∧ c ≠ b := by
      intro c member
      rw [← filter_ne_of_nodup once, ← split] at member
      simp only [mem_filter, decide_eq_true_eq, ne_eq] at member
      exact ⟨member.1.1, member.2⟩
    apply linked.unlink injective (fun c _ => apart c _) slot
    · exact fun other => others _ (.inl ⟨_, known, rfl⟩) other
    · intro c member other
      obtain ⟨old, different⟩ := inside c member
      exact others _ (.inr ⟨c, old, different, rfl⟩) other
  have kept : ((cells.filter fun c => bucket c = i).filter fun c => c ≠ b) = cells.filter fun c => bucket c = i :=
    filter_ne_of_notMem fun member => here (of_decide_eq_true (List.mem_filter.mp member).2).symm
  rw [kept]
  -- the slot belongs to another bucket
  have place : slotAfter link (head (bucket b)) before = head (bucket b) ∨
      ∃ c ∈ cells, bucket c = bucket b ∧ slotAfter link (head (bucket b)) before = link c := by
    rcases slotAfter_mem (head (bucket b)) before with first | ⟨c, inside, later⟩
    · exact .inl first
    have member : c ∈ cells.filter fun c => bucket c = bucket b := by
      rw [split]
      exact mem_append_left _ inside
    simp only [mem_filter, decide_eq_true_eq] at member
    exact .inr ⟨c, member.1, member.2, later⟩
  apply (table i known').congr
  · apply others _ (.inl ⟨i, known', rfl⟩)
    rcases place with first | ⟨c, -, -, later⟩
    · rw [first]
      exact fun same => here (heads same)
    · rw [later]
      exact (apart c i).symm
  intro c member
  simp only [mem_filter, decide_eq_true_eq] at member
  have different : c ≠ b := by
    rintro rfl
    exact here member.2.symm
  apply others _ (.inr ⟨c, member.1, different, rfl⟩)
  rcases place with first | ⟨c', -, bucket', later⟩
  · rw [first]
    exact apart c _
  rw [later]
  intro same
  rw [injective same, bucket'] at member
  exact here member.2.symm

theorem snoc {b : Nat} (nonzero : b ≠ 0)
    (heads : Function.Injective head) (apart : ∀ c i, link c ≠ head i) (injective : Function.Injective link)
    (buckets : ∀ c ∈ cells, bucket' c = bucket c)
    (last : load' (slotAfter link (head (bucket' b)) (cells.filter fun c => bucket c = bucket' b)) = b)
    (end_ : load' (link b) = 0)
    (others : ∀ s, (∃ i, valid i ∧ s = head i) ∨ (∃ c ∈ cells, s = link c) →
      s ≠ slotAfter link (head (bucket' b)) (cells.filter fun c => bucket c = bucket' b) → load' s = load s) :
    Buckets load' link head valid bucket' (cells ++ [b]) := by
  intro i known
  have same : (cells.filter fun c => bucket' c = i) = cells.filter fun c => bucket c = i := by
    apply filter_congr
    intro c inside
    rw [buckets c inside]
  rw [filter_append, same]
  by_cases here : bucket' b = i
  · subst here
    rw [filter_cons_of_pos (by simp), filter_nil]
    apply (table _ known).snoc nonzero last end_
    · exact fun other => others _ (.inl ⟨_, known, rfl⟩) other
    · exact fun c inside other => others _ (.inr ⟨c, (List.mem_filter.mp inside).1, rfl⟩) other
  rw [filter_cons_of_neg (by simpa using here), filter_nil, append_nil]
  -- the slot belongs to another bucket
  have place := @slotAfter_mem _ link (head (bucket' b)) (cells.filter fun c => bucket c = bucket' b)
  apply (table i known).congr
  · apply others _ (.inl ⟨i, known, rfl⟩)
    rcases place with first | ⟨c, -, later⟩
    · rw [first]
      exact fun same => here (heads same).symm
    · rw [later]
      exact (apart c i).symm
  intro c member
  simp only [mem_filter, decide_eq_true_eq] at member
  apply others _ (.inr ⟨c, member.1, rfl⟩)
  rcases place with first | ⟨c', inside, later⟩
  · rw [first]
    exact apart c _
  rw [later]
  intro same
  rw [injective same] at member
  simp only [mem_filter, decide_eq_true_eq] at inside
  exact here (inside.2.symm.trans member.2)

end Buckets

end OpenAFS.Lib
