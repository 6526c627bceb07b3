import OpenAFS.Vol.HandleMoves

namespace OpenAFS.Vol

open Function (update update_self update_of_ne)
open Multiset (countP_add count_add count_cons count_cons_of_ne mem_cons_of_mem)
open Lib

namespace HandleCache

variable {s s' : HandleCache} {h h' : Multiset Item} {f i d : ℕ}

namespace Books

section Queue

variable {queue : List ℕ}

def queued (queue : List ℕ) : Multiset Item := queue.map Item.queued

theorem mem_queued {x : Item} : x ∈ queued queue ↔ ∃ f ∈ queue, .queued f = x := by
  unfold queued
  rw [Multiset.mem_coe, List.mem_map]

theorem count_queued (queue : List ℕ) (f : ℕ) : (queued queue).count (.queued f) = queue.count f := by
  unfold queued
  rw [Multiset.coe_count]
  exact List.count_map_of_injective _ _ (fun _ _ same => Item.queued.inj same) f

theorem count_queued_other (queue : List ℕ) {x : Item} (other : ∀ f, x ≠ .queued f) : (queued queue).count x = 0 := by
  apply Multiset.count_eq_zero.mpr
  intro there
  rcases mem_queued.mp there with ⟨f, -, same⟩
  exact other f same.symm

theorem isOpen_queued (queue : List ℕ) : (queued queue).countP Item.IsOpen = queue.length := by
  unfold queued
  rw [Multiset.coe_countP, List.countP_map, List.countP_eq_length.mpr]
  intro f _
  rfl

theorem names_queued (fd : ℕ → FdHandle) (queue : List ℕ) (j : ℕ) : (queued queue).countP (Item.Names fd j) = 0 := by
  apply Multiset.countP_eq_zero.mpr
  intro x there named
  rcases mem_queued.mp there with ⟨f, -, rfl⟩
  cases named

theorem mem_queued_add {x : Item} (other : ∀ f, x ≠ .queued f) : x ∈ queued queue + h ↔ x ∈ h := by
  rw [Multiset.mem_add]
  constructor
  · intro either
    rcases either with there | there
    · rcases mem_queued.mp there with ⟨f, -, same⟩
      exact absurd same.symm (other f)
    · exact there
  · exact .inr

theorem split (b : Books s h) (hashed : i ∈ s.ihashTable) :
    (∀ g, g ∈ (s.ih i).ih_fds.filter (fun g => (s.fd g).fd_status = .open) ↔ g ∈ s.fdLru ∧ (s.fd g).fd_ih = some i) ∧
    ∀ g, g ∈ (s.ih i).ih_fds.filter (fun g => (s.fd g).fd_status ≠ .open) ↔ .use g ∈ h ∧ (s.fd g).fd_ih = some i := by
  constructor
  · intro g
    rw [List.mem_filter, decide_eq_true_iff]
    constructor
    · rintro ⟨mine, status⟩
      rcases b.named i hashed g mine with ⟨record, lru | used⟩
      · exact ⟨lru, record⟩
      · rcases b.used g used with ⟨j, d, tells, -⟩
        rw [tells] at status
        cases status
    · rintro ⟨lru, record⟩
      rcases b.cached g lru with ⟨j, d, tells, -, mine, -⟩
      rw [tells] at record ⊢
      cases record
      exact ⟨mine, rfl⟩
  intro g
  rw [List.mem_filter, decide_eq_true_iff]
  constructor
  · rintro ⟨mine, status⟩
    rcases b.named i hashed g mine with ⟨record, lru | used⟩
    · rcases b.cached g lru with ⟨j, d, tells, -⟩
      rw [tells] at status
      exact absurd rfl status
    · exact ⟨used, record⟩
  · rintro ⟨used, record⟩
    rcases b.used g used with ⟨j, d, tells, -, mine, -⟩
    rw [tells] at record ⊢
    cases record
    exact ⟨mine, by simp⟩

theorem fdclose (b : Books s h) (hashed : i ∈ s.ihashTable) (closedAt : ℕ → ℕ)
    (others : ∀ j, j ≠ i → closedAt j = s.closedAt j) (past : closedAt i ≤ s.opens)
    (fresh : ∀ d, .fresh i d ∈ h → closedAt i ≤ d) (left : List ℕ)
    (isQueue : queue = (s.ih i).ih_fds.filter (fun g => (s.fd g).fd_status = .open))
    (isLeft : left = (s.ih i).ih_fds.filter (fun g => (s.fd g).fd_status ≠ .open)) :
    Books { s with
      ih := update s.ih i { s.ih i with ih_fds := left, ih_reallyClosed := !left.isEmpty }
      fdLru := s.fdLru.filter (fun g => g ∉ queue)
      closedAt } (queued queue + h) := by
  rcases b.split hashed with ⟨inQueue, inLeft⟩
  rw [← isQueue] at inQueue
  rw [← isLeft] at inLeft
  have once : queue.Nodup := by
    rw [isQueue]
    exact (b.nodup i hashed).filter _
  have changed : ∀ j, j ≠ i → update s.ih i { s.ih i with ih_fds := left, ih_reallyClosed := !left.isEmpty } j = s.ih j :=
    fun j other => update_of_ne other _ _
  have inLru : ∀ g, g ∈ s.fdLru.filter (fun g => g ∉ queue) ↔ g ∈ s.fdLru ∧ g ∉ queue := by
    intro g
    rw [List.mem_filter, decide_eq_true_iff]
  have lengths : (s.fdLru.filter (fun g => g ∉ queue)).length + queue.length = s.fdLru.length := by
    have same : (s.fdLru.filter (fun g => g ∈ queue)).Perm queue := by
      apply (List.perm_ext_iff_of_nodup (b.nodup_lru.filter _) once).mpr
      intro g
      rw [List.mem_filter, decide_eq_true_iff]
      exact ⟨fun both => both.2, fun there => ⟨((inQueue g).mp there).1, there⟩⟩
    have both := List.length_eq_length_filter_add (l := s.fdLru) (fun g => decide (g ∈ queue))
    rw [same.length_eq] at both
    have negated : s.fdLru.filter (fun g => !decide (g ∈ queue)) = s.fdLru.filter (fun g => g ∉ queue) := by
      apply List.filter_congr
      intro g _
      exact (decide_not).symm
    rw [negated] at both
    omega
  constructor
  · intro g
    rw [count_add, count_add, count_queued, count_queued_other queue (by simp), ← b.places g]
    show s.fdAvail.count g + (s.fdLru.filter _).count g + _ + _ = _
    by_cases there : g ∈ queue
    · have zero : (s.fdLru.filter (fun g => g ∉ queue)).count g = 0 :=
        List.count_eq_zero.mpr fun here => ((inLru g).mp here).2 there
      rw [zero, List.count_eq_one_of_mem once there, List.count_eq_one_of_mem b.nodup_lru ((inQueue g).mp there).1]
      omega
    · rw [List.count_filter (by simpa using there), List.count_eq_zero.mpr there]
      omega
  · exact b.avail
  · intro g there
    rcases (inLru g).mp there with ⟨lru, unqueued⟩
    rcases b.cached g lru with ⟨j, d, tells, hj, mine, old, unflagged⟩
    have other : j ≠ i := by
      intro same
      apply unqueued
      rw [inQueue, tells, same]
      exact ⟨lru, rfl⟩
    refine ⟨j, d, tells, hj, ?_, ?_, ?_⟩
    · show g ∈ (update s.ih i _ j).ih_fds
      rw [changed j other]
      exact mine
    · show closedAt j ≤ d
      rw [others j other]
      exact old
    · show (update s.ih i _ j).ih_reallyClosed = false
      rw [changed j other]
      exact unflagged
  · intro g used
    have used : .use g ∈ h := (mem_queued_add (by simp)).mp used
    rcases b.used g used with ⟨j, d, tells, hj, mine, old⟩
    refine ⟨j, d, tells, hj, ?_, ?_⟩
    · show g ∈ (update s.ih i _ j).ih_fds
      by_cases same : j = i
      · subst same
        rw [update_self]
        apply (inLeft g).mpr
        rw [tells]
        exact ⟨used, rfl⟩
      · rw [changed j same]
        exact mine
    show closedAt j ≤ d ∨ (update s.ih i _ j).ih_reallyClosed = true
    by_cases same : j = i
    · subst same
      right
      rw [update_self]
      have there : g ∈ left := by
        apply (inLeft g).mpr
        rw [tells]
        exact ⟨used, rfl⟩
      cases left with
      | nil => cases there
      | cons => rfl
    · rw [changed j same, others j same]
      exact old
  · intro j hj g mine
    show (s.fd g).fd_ih = some j ∧ (g ∈ s.fdLru.filter _ ∨ _)
    rw [mem_queued_add (by simp), inLru]
    by_cases same : j = i
    · subst same
      rw [show ({ s with
        ih := update s.ih j { s.ih j with ih_fds := left, ih_reallyClosed := !left.isEmpty }
        fdLru := s.fdLru.filter (fun g => g ∉ queue)
        closedAt } : HandleCache).ih j = { s.ih j with ih_fds := left, ih_reallyClosed := !left.isEmpty } from
          update_self j _ s.ih] at mine
      rcases (inLeft g).mp mine with ⟨used, record⟩
      exact ⟨record, .inr used⟩
    rw [show ({ s with
      ih := update s.ih i { s.ih i with ih_fds := left, ih_reallyClosed := !left.isEmpty }
      fdLru := s.fdLru.filter (fun g => g ∉ queue)
      closedAt } : HandleCache).ih j = s.ih j from changed j same] at mine
    rcases b.named j hj g mine with ⟨record, place⟩
    refine ⟨record, place.imp ?_ id⟩
    intro lru
    refine ⟨lru, fun there => same ?_⟩
    have back := ((inQueue g).mp there).2
    rw [record] at back
    exact Option.some_inj.mp back
  · intro j hj
    show (update s.ih i _ j).ih_fds.Nodup
    by_cases same : j = i
    · subst same
      rw [update_self]
      show left.Nodup
      rw [isLeft]
      exact (b.nodup j hj).filter _
    · rw [changed j same]
      exact b.nodup j hj
  · have total := b.total
    rw [countP_add, count_add, isOpen_queued, count_queued_other queue (by simp)]
    show s.fdInUseCount = ((s.fdLru.filter _).length : ℤ) + _ + _
    omega
  · intro j
    rw [count_add, count_queued_other queue (by simp), Nat.zero_add]
    exact b.handles j
  · intro j small
    rw [count_add, count_add, count_add, countP_add, names_queued,
      count_queued_other queue (by simp), count_queued_other queue (by simp), count_queued_other queue (by simp),
      Nat.zero_add, Nat.zero_add, Nat.zero_add, Nat.zero_add, ← b.refcnt j small]
    show (update s.ih i _ j).ih_refcnt = _
    by_cases same : j = i
    · subst same
      rw [update_self]
    · rw [changed j same]
  · intro j has
    rw [mem_queued_add (by simp), mem_queued_add (by simp)] at has
    exact b.held j has
  · intro j hj k hk same
    have name : ∀ m, (update s.ih i { s.ih i with ih_fds := left, ih_reallyClosed := !left.isEmpty } m).name = (s.ih m).name := by
      intro m
      by_cases here : m = i
      · subst here
        rw [update_self]
      · rw [changed m here]
    exact b.unique j hj k hk ((name j).symm.trans (same.trans (name k)))
  · intro j borrowed
    rw [mem_queued_add (by simp)] at borrowed ⊢
    exact b.lent j borrowed
  · intro j d there
    rw [mem_queued_add (by simp)] at there
    show closedAt j ≤ d
    by_cases same : j = i
    · subst same
      exact fresh d there
    · rw [others j same]
      exact b.fresh j d there
  · intro j
    show closedAt j ≤ s.opens
    by_cases same : j = i
    · subst same
      exact past
    · rw [others j same]
      exact b.past j
  · rw [mem_queued_add (by simp)]
    exact b.steady
  · exact b.running

theorem fdclosed (b : Books s (queued queue + h)) : Books { s with
      fd := fun f => if f ∈ queue then .closed else s.fd f
      fdInUseCount := s.fdInUseCount - queue.length
      fdAvail := s.fdAvail ++ queue } h := by
  have apart : ∀ g, g ∈ queue → g ∉ s.fdLru ∧ .use g ∉ h ∧ g ∉ s.fdAvail := by
    intro g there
    have inQueue : .queued g ∈ queued queue + h := Multiset.mem_add.mpr (.inl (mem_queued.mpr ⟨g, there, rfl⟩))
    refine ⟨?_, ?_, ?_⟩
    · intro lru
      exact (b.cached_unused lru).2.1 inQueue
    · intro used
      exact (b.used_uncached ((mem_queued_add (by simp)).mpr used)).2.1 inQueue
    · intro avail
      exact (b.avail_unused avail).2.2 inQueue
  have use : ∀ g, .use g ∈ queued queue + h ↔ .use g ∈ h := fun g => mem_queued_add (by simp)
  constructor
  · intro g
    have old := b.places g
    rw [count_add, count_add, count_queued, count_queued_other queue (by simp)] at old
    show (s.fdAvail ++ queue).count g + s.fdLru.count g + _ + _ = _
    rw [List.count_append, ← old]
    omega
  · intro g there
    show (if g ∈ queue then FdHandle.closed else s.fd g) = .closed
    rcases List.mem_append.mp there with avail | inQueue
    · rw [if_neg fun inQueue => (apart g inQueue).2.2 avail]
      exact b.avail g avail
    · rw [if_pos inQueue]
  · intro g lru
    show ∃ j d, (if g ∈ queue then FdHandle.closed else s.fd g) = _ ∧ _
    rw [if_neg fun inQueue => (apart g inQueue).1 lru]
    exact b.cached g lru
  · intro g used
    show ∃ j d, (if g ∈ queue then FdHandle.closed else s.fd g) = _ ∧ _
    rw [if_neg fun inQueue => (apart g inQueue).2.1 used]
    exact b.used g ((use g).mpr used)
  · intro j hj g mine
    have old := b.named j hj g mine
    rw [use] at old
    show (if g ∈ queue then FdHandle.closed else s.fd g).fd_ih = _ ∧ _
    rw [if_neg fun inQueue => old.2.elim (apart g inQueue).1 (apart g inQueue).2.1]
    exact old
  · exact b.nodup
  · have total := b.total
    rw [countP_add, count_add, isOpen_queued, count_queued_other queue (by simp)] at total
    show s.fdInUseCount - queue.length = (s.fdLru.length : ℤ) + _ + _
    omega
  · intro j
    have old := b.handles j
    rw [count_add, count_queued_other queue (by simp), Nat.zero_add] at old
    exact old
  · intro j small
    have old := b.refcnt j small
    rw [count_add, count_add, count_add, countP_add, names_queued,
      count_queued_other queue (by simp), count_queued_other queue (by simp), count_queued_other queue (by simp),
      Nat.zero_add, Nat.zero_add, Nat.zero_add, Nat.zero_add] at old
    have unchanged : h.countP (Item.Names (fun f => if f ∈ queue then .closed else s.fd f) j) = h.countP (Item.Names s.fd j) := by
      apply names_congr
      intro g used
      rw [if_neg fun inQueue => (apart g inQueue).2.1 used]
    show (s.ih j).ih_refcnt = _ + _ + _ + h.countP (Item.Names (fun f => if f ∈ queue then .closed else s.fd f) j)
    rw [unchanged]
    exact old
  · intro j has
    exact b.held j (has.imp (mem_queued_add (by simp)).mpr (mem_queued_add (by simp)).mpr)
  · exact b.unique
  · intro j borrowed
    exact (mem_queued_add (by simp)).mp (b.lent j ((mem_queued_add (by simp)).mpr borrowed))
  · intro j d there
    exact b.fresh j d ((mem_queued_add (by simp)).mpr there)
  · exact b.past
  · intro there
    exact b.steady ((mem_queued_add (by simp)).mpr there)
  · exact b.running

end Queue

theorem unhash (b : Books s (.hold i ::ₘ h)) (one : (s.ih i).ih_refcnt = 1) (empty : (s.ih i).ih_fds = []) :
    Books { s with ihashTable := s.ihashTable.erase i } (.last i ::ₘ h) := by
  have hashed : i ∈ s.ihashTable := b.held i (.inl (Multiset.mem_cons_self _ _))
  have count := b.refcnt i (b.new_of_hashed hashed)
  rw [one, Multiset.count_cons_self] at count
  have noHold : .hold i ∉ h := Multiset.count_eq_zero.mp (by omega)
  have noLend : .lend i ∉ h := by
    intro there
    have pos := Multiset.count_pos.mpr (mem_cons_of_mem there (b := .hold i))
    omega
  have inErase : ∀ j, j ∈ s.ihashTable.erase i ↔ j ≠ i ∧ j ∈ s.ihashTable := fun j => b.nodup_hash.mem_erase_iff
  have listed : ∀ j f, f ∈ (s.ih j).ih_fds → j ≠ i := by
    intro j f mine same
    rw [same, empty] at mine
    cases mine
  have use : ∀ f, .use f ∈ (.last i ::ₘ h : Multiset Item) ↔ .use f ∈ (.hold i ::ₘ h : Multiset Item) := by simp
  constructor
  · intro f
    have old := b.places f
    rw [count_cons_of_ne (by simp), count_cons_of_ne (by simp)] at old ⊢
    exact old
  · exact b.avail
  · intro f there
    rcases b.cached f there with ⟨j, d, tells, hj, mine, old⟩
    exact ⟨j, d, tells, (inErase j).mpr ⟨listed j f mine, hj⟩, mine, old⟩
  · intro f used
    rcases b.used f ((use f).mp used) with ⟨j, d, tells, hj, mine, old⟩
    exact ⟨j, d, tells, (inErase j).mpr ⟨listed j f mine, hj⟩, mine, old⟩
  · intro j hj f mine
    rw [use]
    exact b.named j ((inErase j).mp hj).2 f mine
  · intro j hj
    exact b.nodup j ((inErase j).mp hj).2
  · have total := b.total
    rw [Multiset.countP_cons_of_neg _ id, count_cons_of_ne (by simp)] at total ⊢
    exact total
  · intro j
    have old := b.handles j
    have erased := count_erase_of_mem hashed j
    rw [count_cons_of_ne (by simp)] at old
    show s.ihAvail.count j + (s.ihashTable.erase i).count j + _ = if j < s.ihNew then 1 else 0
    rw [count_cons]
    by_cases same : j = i
    · rw [if_pos same] at erased
      rw [if_pos (congrArg Item.last same)]
      omega
    · rw [if_neg same] at erased
      rw [if_neg (by simpa using same)]
      omega
  · intro j small
    have old := b.refcnt j small
    rw [names_cons_other _ _ id, count_cons, count_cons_of_ne (by simp), count_cons_of_ne (by simp)] at old
    rw [names_cons_other _ _ id, count_cons_of_ne (by simp), count_cons_of_ne (by simp), count_cons]
    by_cases same : j = i
    · rw [if_pos (congrArg Item.hold same)] at old
      rw [if_pos (congrArg Item.last same)]
      show (s.ih j).ih_refcnt = _ + _ + _ + h.countP (Item.Names s.fd j)
      omega
    · rw [if_neg (by simpa using same)] at old
      rw [if_neg (by simpa using same)]
      exact old
  · intro j has
    apply (inErase j).mpr
    constructor
    · intro same
      subst same
      rcases has with there | there
      · exact noHold (by simpa using there)
      · exact noLend (by simpa using there)
    · apply b.held j
      rcases has with there | there
      · exact .inl (mem_cons_of_mem (by simpa using there))
      · exact .inr (mem_cons_of_mem (by simpa using there))
  · intro j hj k hk same
    exact b.unique j ((inErase j).mp hj).2 k ((inErase k).mp hk).2 same
  · intro j borrowed
    have old := b.lent j (mem_cons_of_mem (by simpa using borrowed))
    simpa using old
  · intro j d there
    exact b.fresh j d (mem_cons_of_mem (by simpa using there))
  · exact b.past
  · have steady := b.steady
    simpa using steady
  · exact b.running

theorem retire (b : Books s (.last i ::ₘ h)) : Books (s.retire i) h := by
  have same := update_same (m := s.ih) (i := i) (x := { s.ih i with ih_refcnt := (s.ih i).ih_refcnt - 1 }) rfl rfl rfl
  constructor
  · intro f
    have old := b.places f
    rw [count_cons_of_ne (by simp), count_cons_of_ne (by simp)] at old
    exact old
  · exact b.avail
  · intro f there
    rcases b.cached f there with ⟨j, d, tells, hj, mine, old, unflagged⟩
    exact ⟨j, d, tells, hj, (same j).2.2 ▸ mine, old, (same j).2.1.trans unflagged⟩
  · intro f used
    rcases b.used f (mem_cons_of_mem used) with ⟨j, d, tells, hj, mine, old⟩
    exact ⟨j, d, tells, hj, (same j).2.2 ▸ mine, old.imp id (same j).2.1.trans⟩
  · intro j hj f mine
    have mine : f ∈ (s.ih j).ih_fds := (same j).2.2 ▸ mine
    have old := b.named j hj f mine
    exact ⟨old.1, old.2.imp id fun there => by simpa using there⟩
  · intro j hj
    exact (same j).2.2 ▸ b.nodup j hj
  · have total := b.total
    rw [Multiset.countP_cons_of_neg _ id, count_cons_of_ne (by simp)] at total
    exact total
  · intro j
    have old := b.handles j
    rw [count_cons] at old
    show (s.ihAvail ++ [i]).count j + s.ihashTable.count j + _ = _
    rw [List.count_append, List.count_singleton]
    by_cases this : j = i
    · rw [if_pos (congrArg Item.last this)] at old
      rw [if_pos (by simpa using this.symm)]
      show _ = if j < s.ihNew then 1 else 0
      omega
    rw [if_neg (by simpa using this)] at old
    rw [if_neg (by simpa using fun back => this back.symm)]
    show _ = if j < s.ihNew then 1 else 0
    omega
  · intro j new
    have old := b.refcnt j new
    rw [names_cons_other _ _ id, count_cons_of_ne (by simp), count_cons_of_ne (by simp), count_cons] at old
    show (update s.ih i _ j).ih_refcnt = _
    by_cases this : j = i
    · subst this
      rw [if_pos rfl] at old
      rw [update_self]
      show (s.ih j).ih_refcnt - 1 = _ + _ + _ + h.countP (Item.Names s.fd j)
      omega
    · rw [if_neg (by simpa using this)] at old
      rw [update_of_ne this]
      exact old
  · intro j has
    exact b.held j (has.imp (fun there => mem_cons_of_mem there) fun there => mem_cons_of_mem there)
  · intro j hj k hk name
    exact b.unique j hj k hk ((same j).1.symm.trans (name.trans (same k).1))
  · intro j borrowed
    simpa using b.lent j (mem_cons_of_mem borrowed)
  · intro j d there
    exact b.fresh j d (mem_cons_of_mem there)
  · exact b.past
  · intro there
    exact b.steady (mem_cons_of_mem there)
  · exact b.running

theorem init (b : Books s h) {rest : List ℕ} (first : s.ihAvail = i :: rest) (x : IHandle) (one : x.ih_refcnt = 1)
    (empty : x.ih_fds = []) (new : ∀ j ∈ s.ihashTable, (s.ih j).name ≠ x.name) :
    Books { s with ih := update s.ih i x, ihAvail := rest, ihashTable := s.ihashTable ++ [i] } (.lend i ::ₘ h) := by
  have avail : i ∈ s.ihAvail := first ▸ List.mem_cons_self
  have handle := b.handles i
  have pos := List.count_pos_iff.mpr avail
  have small : i < s.ihNew := by
    by_contra large
    rw [if_neg large] at handle
    omega
  rw [if_pos small] at handle
  have unhashed : i ∉ s.ihashTable := List.count_eq_zero.mp (by omega)
  have zero := b.refcnt i small
  rw [b.refcnt_avail avail] at zero
  have other : ∀ j ∈ s.ihashTable, update s.ih i x j = s.ih j := by
    intro j hj
    apply update_of_ne
    intro same
    exact unhashed (same ▸ hj)
  have inTable : ∀ j, j ∈ s.ihashTable ++ [i] ↔ j ∈ s.ihashTable ∨ j = i := by
    intro j
    rw [List.mem_append, List.mem_singleton]
  have use : ∀ f, .use f ∈ (.lend i ::ₘ h : Multiset Item) ↔ .use f ∈ h := by simp
  constructor
  · intro f
    rw [count_cons_of_ne (by simp), count_cons_of_ne (by simp)]
    exact b.places f
  · exact b.avail
  · intro f there
    rcases b.cached f there with ⟨j, d, tells, hj, mine, old, unflagged⟩
    refine ⟨j, d, tells, (inTable j).mpr (.inl hj), ?_, old, ?_⟩
    · show f ∈ (update s.ih i x j).ih_fds
      rw [other j hj]
      exact mine
    · show (update s.ih i x j).ih_reallyClosed = false
      rw [other j hj]
      exact unflagged
  · intro f used
    rcases b.used f ((use f).mp used) with ⟨j, d, tells, hj, mine, old⟩
    refine ⟨j, d, tells, (inTable j).mpr (.inl hj), ?_, ?_⟩
    · show f ∈ (update s.ih i x j).ih_fds
      rw [other j hj]
      exact mine
    · show _ ∨ (update s.ih i x j).ih_reallyClosed = true
      rw [other j hj]
      exact old
  · intro j hj f mine
    rw [use]
    rcases (inTable j).mp hj with before | rfl
    · have mine : f ∈ (update s.ih i x j).ih_fds := mine
      rw [other j before] at mine
      exact b.named j before f mine
    · have mine : f ∈ (update s.ih j x j).ih_fds := mine
      rw [update_self, empty] at mine
      cases mine
  · intro j hj
    show (update s.ih i x j).ih_fds.Nodup
    rcases (inTable j).mp hj with before | rfl
    · rw [other j before]
      exact b.nodup j before
    · rw [update_self, empty]
      exact List.nodup_nil
  · rw [Multiset.countP_cons_of_neg _ id, count_cons_of_ne (by simp)]
    exact b.total
  · intro j
    have old := b.handles j
    rw [first, List.count_cons] at old
    show rest.count j + (s.ihashTable ++ [i]).count j + _ = if j < s.ihNew then 1 else 0
    rw [List.count_append, List.count_singleton, count_cons_of_ne (by simp)]
    omega
  · intro j new
    have old := b.refcnt j new
    rw [names_cons_other _ _ id, count_cons_of_ne (by simp), count_cons, count_cons_of_ne (by simp)]
    show (update s.ih i x j).ih_refcnt = _
    by_cases same : j = i
    · subst same
      rw [update_self, one, if_pos rfl]
      show 1 = _ + _ + _ + h.countP (Item.Names s.fd j)
      omega
    · rw [update_of_ne same, if_neg (by simpa using same)]
      exact old
  · intro j has
    apply (inTable j).mpr
    rcases has with there | there
    · exact .inl (b.held j (.inl (by simpa using there)))
    rcases Multiset.mem_cons.mp there with same | before
    · cases same
      exact .inr rfl
    · exact .inl (b.held j (.inr before))
  · intro j hj k hk name
    have name : (update s.ih i x j).name = (update s.ih i x k).name := name
    rcases (inTable j).mp hj with oldJ | newJ
    · rw [other j oldJ] at name
      rcases (inTable k).mp hk with oldK | newK
      · rw [other k oldK] at name
        exact b.unique j oldJ k oldK name
      · rw [newK, update_self] at name
        exact absurd name (new j oldJ)
    · rw [newJ, update_self] at name
      rcases (inTable k).mp hk with oldK | newK
      · rw [other k oldK] at name
        exact absurd name.symm (new k oldK)
      · exact newJ.trans newK.symm
  · intro j borrowed
    exact mem_cons_of_mem (b.lent j (by simpa using borrowed))
  · intro j d there
    exact b.fresh j d (by simpa using there)
  · exact b.past
  · have steady := b.steady
    simpa using steady
  · exact b.running

theorem count_range' (n k j : ℕ) : (List.range' n k).count j = if n ≤ j ∧ j < n + k then 1 else 0 := by
  by_cases inside : n ≤ j ∧ j < n + k
  · rw [if_pos inside, List.count_eq_one_of_mem (List.nodup_range') (List.mem_range'_1.mpr inside)]
  · rw [if_neg inside, List.count_eq_zero.mpr fun there => inside (List.mem_range'_1.mp there)]

theorem iHandleAllocateChunk (b : Books s h) : Books s.iHandleAllocateChunk h := by
  have old : ∀ j, j < s.ihNew → j ∉ List.range' s.ihNew I_HANDLE_MALLOCSIZE := by
    intro j small there
    have bounds := List.mem_range'_1.mp there
    omega
  have ih : ∀ j ∈ s.ihashTable, s.iHandleAllocateChunk.ih j = s.ih j := by
    intro j hj
    exact if_neg (old j (b.new_of_hashed hj))
  constructor
  · exact b.places
  · exact b.avail
  · intro f there
    rcases b.cached f there with ⟨j, d, tells, hj, rest⟩
    refine ⟨j, d, tells, hj, ?_⟩
    rw [ih j hj]
    exact rest
  · intro f used
    rcases b.used f used with ⟨j, d, tells, hj, rest⟩
    refine ⟨j, d, tells, hj, ?_⟩
    rw [ih j hj]
    exact rest
  · intro j hj f mine
    rw [ih j hj] at mine
    exact b.named j hj f mine
  · intro j hj
    rw [ih j hj]
    exact b.nodup j hj
  · exact b.total
  · intro j
    have one := b.handles j
    show (s.ihAvail ++ List.range' s.ihNew I_HANDLE_MALLOCSIZE).count j + s.ihashTable.count j + _ =
      if j < s.ihNew + I_HANDLE_MALLOCSIZE then 1 else 0
    rw [List.count_append, count_range']
    generalize I_HANDLE_MALLOCSIZE = k
    by_cases small : j < s.ihNew
    · rw [if_pos small] at one
      rw [if_neg (by omega), if_pos (by omega)]
      omega
    rw [if_neg small] at one
    by_cases new : j < s.ihNew + k
    · rw [if_pos (by omega), if_pos new]
      omega
    · rw [if_neg (by omega), if_neg new]
      omega
  · intro j new
    show (if _ then _ else _ : IHandle).ih_refcnt = _ + _ + _ + h.countP (Item.Names s.fd j)
    by_cases small : j < s.ihNew
    · rw [if_neg (old j small)]
      exact b.refcnt j small
    rw [if_pos (List.mem_range'_1.mpr ⟨Nat.le_of_not_lt small, new⟩)]
    have one := b.handles j
    rw [if_neg small] at one
    have unhashed : j ∉ s.ihashTable := List.count_eq_zero.mp (by omega)
    have noHold : h.count (.hold j) = 0 := Multiset.count_eq_zero.mpr fun here => unhashed (b.held j (.inl here))
    have noLend : h.count (.lend j) = 0 := Multiset.count_eq_zero.mpr fun here => unhashed (b.held j (.inr here))
    rw [noHold, noLend, b.unnamed unhashed]
    show 0 = _
    omega
  · exact b.held
  · intro j hj k hk name
    rw [ih j hj, ih k hk] at name
    exact b.unique j hj k hk name
  · exact b.lent
  · exact b.fresh
  · exact b.past
  · exact b.steady
  · exact b.running

theorem fdHandleAllocateChunk (b : Books s h) : Books s.fdHandleAllocateChunk h := by
  have old : ∀ f, f < s.fdNew → f ∉ List.range' s.fdNew FD_HANDLE_MALLOCSIZE := by
    intro f small there
    have bounds := List.mem_range'_1.mp there
    omega
  have small : ∀ f, 0 < s.fdAvail.count f + s.fdLru.count f + h.count (.use f) + h.count (.queued f) → f < s.fdNew := by
    intro f pos
    have one := b.places f
    by_contra large
    rw [if_neg large] at one
    omega
  have fd : ∀ f, f < s.fdNew → s.fdHandleAllocateChunk.fd f = s.fd f := fun f there => if_neg (old f there)
  have used : ∀ f, .use f ∈ h → f < s.fdNew := by
    intro f there
    have pos := Multiset.count_pos.mpr there
    exact small f (by omega)
  have cached : ∀ f ∈ s.fdLru, f < s.fdNew := by
    intro f there
    have pos := List.count_pos_iff.mpr there
    exact small f (by omega)
  constructor
  · intro f
    have one := b.places f
    show (s.fdAvail ++ List.range' s.fdNew FD_HANDLE_MALLOCSIZE).count f + s.fdLru.count f + _ + _ =
      if f < s.fdNew + FD_HANDLE_MALLOCSIZE then 1 else 0
    rw [List.count_append, count_range']
    generalize FD_HANDLE_MALLOCSIZE = k
    by_cases small : f < s.fdNew
    · rw [if_pos small] at one
      rw [if_neg (by omega), if_pos (by omega)]
      omega
    rw [if_neg small] at one
    by_cases new : f < s.fdNew + k
    · rw [if_pos (by omega), if_pos new]
      omega
    · rw [if_neg (by omega), if_neg new]
      omega
  · intro f there
    show (if _ then _ else _ : FdHandle) = .closed
    split
    · rfl
    · next before =>
      exact b.avail f ((List.mem_append.mp there).resolve_right before)
  · intro f there
    rw [fd f (cached f there)]
    exact b.cached f there
  · intro f there
    rw [fd f (used f there)]
    exact b.used f there
  · intro j hj f mine
    rcases b.named j hj f mine with ⟨record, place⟩
    rw [fd f (place.elim (cached f) (used f))]
    exact ⟨record, place⟩
  · exact b.nodup
  · exact b.total
  · exact b.handles
  · intro j new
    have count := b.refcnt j new
    have unchanged : h.countP (Item.Names s.fdHandleAllocateChunk.fd j) = h.countP (Item.Names s.fd j) := by
      apply names_congr
      intro f there
      rw [fd f (used f there)]
    rw [unchanged]
    exact count
  · exact b.held
  · exact b.unique
  · exact b.lent
  · exact b.fresh
  · exact b.past
  · exact b.steady
  · exact b.running

end Books

end HandleCache

end OpenAFS.Vol
