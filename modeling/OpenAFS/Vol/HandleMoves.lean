import OpenAFS.Vol.HandleBooks

namespace OpenAFS.Vol

open Function (update update_self update_of_ne)
open Multiset (countP_cons_of_neg count_cons_of_ne count_cons_self mem_cons_of_mem mem_cons_self)
open Lib

namespace HandleCache

variable {s s' : HandleCache} {h h' : Multiset Item} {f i d : ℕ}

namespace Books

theorem names_cons_use (fd : ℕ → FdHandle) (h : Multiset Item) (f j : ℕ) :
    (.use f ::ₘ h : Multiset Item).countP (Item.Names fd j) =
      h.countP (Item.Names fd j) + if (fd f).fd_ih = some j then 1 else 0 :=
  Multiset.countP_cons _ _ _

theorem names_cons_other (fd : ℕ → FdHandle) (h : Multiset Item) {x : Item} (closed : ¬ x.IsOpen) (j : ℕ) :
    (x ::ₘ h).countP (Item.Names fd j) = h.countP (Item.Names fd j) :=
  countP_cons_of_neg _ fun named => closed named.isOpen

theorem names_congr {fd fd' : ℕ → FdHandle} {h : Multiset Item} (same : ∀ f, .use f ∈ h → (fd' f).fd_ih = (fd f).fd_ih) (j : ℕ) :
    h.countP (Item.Names fd' j) = h.countP (Item.Names fd j) := by
  apply Multiset.countP_congr rfl
  intro x here
  cases x with
  | use f =>
    show ((fd' f).fd_ih = some j) = ((fd f).fd_ih = some j)
    rw [same f here]
  | _ => rfl

theorem names_moved {fd : ℕ → FdHandle} {h : Multiset Item} {f : ℕ} (unused : .use f ∉ h) (record : FdHandle) (j : ℕ) :
    h.countP (Item.Names (update fd f record) j) = h.countP (Item.Names fd j) := by
  apply names_congr
  intro g used
  have other : g ≠ f := by
    intro same
    exact unused (same ▸ used)
  rw [update_of_ne other]

theorem isOpen_cons_use (h : Multiset Item) (f : ℕ) :
    (.use f ::ₘ h : Multiset Item).countP Item.IsOpen = h.countP Item.IsOpen + 1 :=
  Multiset.countP_cons_of_pos _ trivial

def Tells (s : HandleCache) (ih : ℕ → IHandle) (f : ℕ) (record : FdHandle) (status : FdStatus) (new : ℕ → ℕ → Prop) : Prop :=
  ∃ i d, record = ⟨status, some d, some i⟩ ∧ i ∈ s.ihashTable ∧ f ∈ (ih i).ih_fds ∧ new i d

theorem move (b : Books s h) (f : ℕ) (record : FdHandle) (ih : ℕ → IHandle) (avail lru : List ℕ) (count : ℤ)
    (places : ∀ g, avail.count g + lru.count g + h'.count (.use g) + h'.count (.queued g) =
      s.fdAvail.count g + s.fdLru.count g + h.count (.use g) + h.count (.queued g))
    (others : ∀ g, g ≠ f → (g ∈ avail → g ∈ s.fdAvail) ∧ (g ∈ lru ↔ g ∈ s.fdLru) ∧ (.use g ∈ h' ↔ .use g ∈ h))
    (isAvail : f ∈ avail → record = .closed)
    (isCached : f ∈ lru → Tells s ih f record .open fun i d => s.closedAt i ≤ d ∧ (ih i).ih_reallyClosed = false)
    (isUsed : .use f ∈ h' → Tells s ih f record .inUse fun i d => s.closedAt i ≤ d ∨ (ih i).ih_reallyClosed = true)
    (fds : ∀ i ∈ s.ihashTable, (ih i).ih_fds.Nodup ∧ ∀ g, g ≠ f → (g ∈ (ih i).ih_fds ↔ g ∈ (s.ih i).ih_fds))
    (named : ∀ i ∈ s.ihashTable, f ∈ (ih i).ih_fds → record.fd_ih = some i ∧ (f ∈ lru ∨ .use f ∈ h'))
    (name : ∀ i, (ih i).name = (s.ih i).name)
    (flag : ∀ i, (ih i).ih_reallyClosed = (s.ih i).ih_reallyClosed ∨ (ih i).ih_reallyClosed = false ∧ (ih i).ih_fds = [])
    (total : count = lru.length + h'.countP Item.IsOpen + h'.count .pending)
    (last : ∀ i, h'.count (.last i) = h.count (.last i))
    (refcnt : ∀ i < s.ihNew, (ih i).ih_refcnt = h'.count (.hold i) + h'.count (.lend i) + h'.count (.last i) +
      h'.countP (Item.Names (update s.fd f record) i))
    (items : ∀ x ∈ h', x ∈ h ∨ x.IsOpen ∨ x = .pending ∨ ∃ i ∈ s.ihashTable, x = .hold i)
    (lends : ∀ i, .lend i ∈ h → .lend i ∈ h') :
    Books { s with fd := update s.fd f record, ih, fdAvail := avail, fdLru := lru, fdInUseCount := count } h' := by
  have unmoved : ∀ g, g ≠ f → update s.fd f record g = s.fd g := fun g other => update_of_ne other _ _
  constructor
  · intro g
    exact (places g).trans (b.places g)
  · intro g here
    show update s.fd f record g = .closed
    by_cases same : g = f
    · rw [same, update_self]
      exact isAvail (same ▸ here)
    · rw [unmoved g same]
      exact b.avail g ((others g same).1 here)
  · intro g here
    show ∃ i d, update s.fd f record g = _ ∧ _
    by_cases same : g = f
    · subst same
      rw [update_self]
      exact isCached here
    rw [unmoved g same]
    rcases b.cached g ((others g same).2.1.mp here) with ⟨i, d, tells, hashed, mine, old, unflagged⟩
    refine ⟨i, d, tells, hashed, ((fds i hashed).2 g same).mpr mine, old, ?_⟩
    rcases flag i with kept | ⟨reset, -⟩
    · exact kept.trans unflagged
    · exact reset
  · intro g used
    show ∃ i d, update s.fd f record g = _ ∧ _
    by_cases same : g = f
    · subst same
      rw [update_self]
      exact isUsed used
    rw [unmoved g same]
    rcases b.used g ((others g same).2.2.mp used) with ⟨i, d, tells, hashed, mine, old⟩
    have mine' := ((fds i hashed).2 g same).mpr mine
    refine ⟨i, d, tells, hashed, mine', ?_⟩
    rcases flag i with kept | ⟨-, empty⟩
    · exact old.imp id fun flagged => kept.trans flagged
    · rw [empty] at mine'
      cases mine'
  · intro i hashed g mine
    show (update s.fd f record g).fd_ih = some i ∧ (g ∈ lru ∨ _)
    by_cases same : g = f
    · subst same
      rw [update_self]
      exact named i hashed mine
    · rw [unmoved g same, (others g same).2.1, (others g same).2.2]
      exact b.named i hashed g (((fds i hashed).2 g same).mp mine)
  · intro i hashed
    exact (fds i hashed).1
  · exact total
  · intro i
    rw [last]
    exact b.handles i
  · exact refcnt
  · intro i has
    rcases has with here | here
    · rcases items _ here with before | open_ | same | ⟨j, hashed, same⟩
      · exact b.held i (.inl before)
      · cases open_
      · cases same
      · cases same
        exact hashed
    · rcases items _ here with before | open_ | same | ⟨j, hashed, same⟩
      · exact b.held i (.inr before)
      · cases open_
      · cases same
      · cases same
  · intro i hi j hj same
    exact b.unique i hi j hj ((name i).symm.trans (same.trans (name j)))
  · intro i here
    rcases items _ here with before | open_ | same | ⟨j, hashed, same⟩
    · exact lends i (b.lent i before)
    · cases open_
    · cases same
    · cases same
  · intro i d here
    rcases items _ here with before | open_ | same | ⟨j, hashed, same⟩
    · exact b.fresh i d before
    · cases open_
    · cases same
    · cases same
  · exact b.past
  · intro here
    rcases items _ here with before | open_ | same | ⟨j, hashed, same⟩
    · exact b.steady before
    · cases open_
    · cases same
    · cases same
  · exact b.running

theorem count_erase_of_mem {l : List ℕ} (here : f ∈ l) (g : ℕ) : (l.erase f).count g + (if g = f then 1 else 0) = l.count g := by
  rw [List.count_erase]
  by_cases same : g = f
  · subst same
    have pos := List.count_pos_iff.mpr here
    rw [if_pos (beq_self_eq_true g), if_pos rfl]
    omega
  · rw [if_neg (by simpa using fun back => same back.symm), if_neg same]
    rfl

theorem count_use_cons (h : Multiset Item) (f g : ℕ) :
    (.use f ::ₘ h : Multiset Item).count (.use g) = h.count (.use g) + if g = f then 1 else 0 := by
  rw [Multiset.count_cons]
  by_cases same : g = f
  · rw [if_pos same, if_pos (congrArg Item.use same)]
  · rw [if_neg same, if_neg (by simpa using same)]

theorem hit (b : Books s h) (cached : f ∈ s.fdLru) (mine : (s.fd f).fd_ih = some i) : Books { s with
      fd := update s.fd f { s.fd f with fd_status := .inUse }
      ih := update s.ih i { s.ih i with ih_refcnt := (s.ih i).ih_refcnt + 1 }
      fdLru := s.fdLru.erase f } (.use f ::ₘ h) := by
  have same := update_same (m := s.ih) (i := i) (x := { s.ih i with ih_refcnt := (s.ih i).ih_refcnt + 1 }) rfl rfl rfl
  rcases b.cached_unused cached with ⟨unused, unqueued, unavailable⟩
  rcases b.cached f cached with ⟨i', d, record, hashed, here, old, unflagged⟩
  have thisOne : i' = i := by
    rw [record] at mine
    exact Option.some_inj.mp mine
  subst thisOne
  apply b.move f { s.fd f with fd_status := .inUse } (update s.ih i' { s.ih i' with ih_refcnt := (s.ih i').ih_refcnt + 1 })
    s.fdAvail (s.fdLru.erase f) s.fdInUseCount
  · intro g
    have erased := count_erase_of_mem cached g
    rw [count_use_cons, count_cons_of_ne (by simp)]
    omega
  · intro g other
    refine ⟨id, ?_, ?_⟩
    · exact b.nodup_lru.mem_erase_iff.trans ⟨fun both => both.2, fun there => ⟨other, there⟩⟩
    · simpa using fun back => absurd back other
  · intro there
    exact absurd there unavailable
  · intro there
    exact absurd rfl (b.nodup_lru.mem_erase_iff.mp there).1
  · intro _
    refine ⟨i', d, ?_, hashed, ?_, .inl old⟩
    · rw [record]
    · rw [(same i').2.2]
      exact here
  · intro j hj
    rw [(same j).2.2]
    exact ⟨b.nodup j hj, fun _ _ => Iff.rfl⟩
  · intro j hj there
    rw [(same j).2.2] at there
    exact ⟨(b.named j hj f there).1, .inr (mem_cons_self _ _)⟩
  · exact fun j => (same j).1
  · exact fun j => .inl (same j).2.1
  · have total := b.total
    have pos := List.length_pos_of_mem cached
    rw [List.length_erase_of_mem cached, isOpen_cons_use, count_cons_of_ne (by simp)]
    omega
  · intro j
    exact count_cons_of_ne (by simp) h
  · intro j small
    have count := b.refcnt j small
    rw [names_cons_use, names_moved unused, count_cons_of_ne (by simp), count_cons_of_ne (by simp),
      count_cons_of_ne (by simp), update_self, mine]
    by_cases this : j = i'
    · subst this
      rw [update_self, if_pos rfl]
      show (s.ih j).ih_refcnt + 1 = _
      omega
    · rw [update_of_ne this, if_neg fun back => this (Option.some_inj.mp back).symm]
      omega
  · intro x there
    rcases Multiset.mem_cons.mp there with rfl | before
    · exact .inr (.inl trivial)
    · exact .inl before
  · intro j there
    exact mem_cons_of_mem there

theorem used_once (b : Books s (.use f ::ₘ h)) : .use f ∉ h := by
  intro again
  have one := b.one_place f
  rw [count_cons_self] at one
  have pos := Multiset.count_pos.mpr again
  omega

theorem cache (b : Books s (.use f ::ₘ h)) (mine : (s.fd f).fd_ih = some i) (unflagged : (s.ih i).ih_reallyClosed = false) :
    Books { s with fd := update s.fd f { s.fd f with fd_status := .open }, fdLru := s.fdLru ++ [f] } (.hold i ::ₘ h) := by
  have held := mem_cons_self (.use f) h
  rcases b.used_uncached held with ⟨uncached, unqueued, unavailable⟩
  rcases b.used f held with ⟨i', d, record, hashed, here, old⟩
  have thisOne : i' = i := by
    rw [record] at mine
    exact Option.some_inj.mp mine
  subst thisOne
  have once := b.used_once
  apply b.move f { s.fd f with fd_status := .open } s.ih s.fdAvail (s.fdLru ++ [f]) s.fdInUseCount
  · intro g
    rw [List.count_append, List.count_singleton, count_use_cons, count_cons_of_ne (by simp),
      count_cons_of_ne (by simp), count_cons_of_ne (by simp)]
    by_cases same : g = f
    · rw [if_pos (by simpa using same.symm), if_pos same]
      omega
    · rw [if_neg (by simpa using fun back => same back.symm), if_neg same]
      omega
  · intro g other
    refine ⟨id, ?_, ?_⟩
    · simpa using fun back => absurd back other
    · simpa using fun back => absurd back other
  · intro there
    exact absurd there unavailable
  · intro _
    refine ⟨i', d, ?_, hashed, here, ?_, unflagged⟩
    · rw [record]
    rcases old with new | flagged
    · exact new
    · rw [unflagged] at flagged
      cases flagged
  · intro there
    exact absurd (by simpa using there) once
  · intro j hj
    exact ⟨b.nodup j hj, fun _ _ => Iff.rfl⟩
  · intro j hj there
    exact ⟨(b.named j hj f there).1, .inl (List.mem_append_right _ (List.mem_singleton_self f))⟩
  · exact fun _ => rfl
  · exact fun _ => .inl rfl
  · have total := b.total
    rw [isOpen_cons_use, count_cons_of_ne (by simp)] at total
    rw [List.length_append, List.length_singleton, countP_cons_of_neg _ id, count_cons_of_ne (by simp)]
    omega
  · intro j
    rw [count_cons_of_ne (by simp), count_cons_of_ne (by simp)]
  · intro j small
    have count := b.refcnt j small
    rw [names_cons_use, mine, count_cons_of_ne (by simp), count_cons_of_ne (by simp), count_cons_of_ne (by simp)] at count
    rw [names_cons_other _ _ id, names_moved once, count_cons_of_ne (by simp) h (a := .lend j),
      count_cons_of_ne (by simp) h (a := .last j)]
    by_cases this : j = i'
    · subst this
      rw [if_pos rfl] at count
      rw [count_cons_self]
      omega
    · rw [if_neg fun back => this (Option.some_inj.mp back).symm] at count
      rw [count_cons_of_ne (by simpa using this)]
      omega
  · intro x there
    rcases Multiset.mem_cons.mp there with rfl | before
    · exact .inr (.inr (.inr ⟨i', hashed, rfl⟩))
    · exact .inl (mem_cons_of_mem before)
  · intro j there
    exact mem_cons_of_mem (by simpa using there)

theorem fds_moved {m : ℕ → IHandle} {x : IHandle} (i : ℕ) (name : x.name = (m i).name)
    (list : ∀ g, g ≠ f → (g ∈ x.ih_fds ↔ g ∈ (m i).ih_fds)) :
    (∀ j, (update m i x j).name = (m j).name) ∧ ∀ j g, g ≠ f → (g ∈ (update m i x j).ih_fds ↔ g ∈ (m j).ih_fds) := by
  constructor
  · intro j
    by_cases here : j = i
    · subst here
      rw [update_self]
      exact name
    · rw [update_of_ne here]
  intro j g other
  by_cases here : j = i
  · subst here
    rw [update_self]
    exact list g other
  · rw [update_of_ne here]

theorem install (b : Books s (.pending ::ₘ h)) {rest : List ℕ} (first : s.fdAvail = f :: rest)
    (hashed : i ∈ s.ihashTable) (new : s.closedAt i ≤ d) :
    Books { s with
      fd := update s.fd f ⟨.inUse, some d, some i⟩
      ih := update s.ih i
        { s.ih i with ih_refcnt := (s.ih i).ih_refcnt + 1, ih_fds := (s.ih i).ih_fds ++ [f] }
      fdAvail := rest } (.use f ::ₘ h) := by
  have avail : f ∈ s.fdAvail := first ▸ List.mem_cons_self
  rcases b.avail_unused avail with ⟨uncached, unused, unqueued⟩
  have unused : .use f ∉ h := fun there => unused (mem_cons_of_mem there)
  have once : f ∉ rest := by
    intro again
    have one := b.one_place f
    rw [first, List.count_cons_self] at one
    have pos := List.count_pos_iff.mpr again
    omega
  have unlisted : ∀ j ∈ s.ihashTable, f ∉ (s.ih j).ih_fds := by
    intro j hj there
    rcases (b.named j hj f there).2 with lru | used
    · exact uncached lru
    · exact unused (by simpa using used)
  have list : ∀ g, g ≠ f → (g ∈ (s.ih i).ih_fds ++ [f] ↔ g ∈ (s.ih i).ih_fds) := by
    intro g other
    simpa using fun back => absurd back other
  have moved := fds_moved (m := s.ih) (f := f) (x := { s.ih i with
    ih_refcnt := (s.ih i).ih_refcnt + 1, ih_fds := (s.ih i).ih_fds ++ [f] }) i rfl list
  apply b.move f ⟨.inUse, some d, some i⟩ (update s.ih i
    { s.ih i with ih_refcnt := (s.ih i).ih_refcnt + 1, ih_fds := (s.ih i).ih_fds ++ [f] }) rest s.fdLru s.fdInUseCount
  · intro g
    rw [first, List.count_cons, count_use_cons, count_cons_of_ne (by simp), count_cons_of_ne (by simp),
      count_cons_of_ne (by simp)]
    by_cases same : g = f
    · rw [if_pos same, if_pos (by simpa using same.symm)]
      omega
    · rw [if_neg same, if_neg (by simpa using fun back => same back.symm)]
      omega
  · intro g other
    refine ⟨fun there => first ▸ List.mem_cons_of_mem f there, Iff.rfl, ?_⟩
    simpa using fun back => absurd back other
  · intro there
    exact absurd there once
  · intro there
    exact absurd there uncached
  · intro _
    refine ⟨i, d, rfl, hashed, ?_, .inl new⟩
    rw [update_self]
    exact List.mem_append_right _ (List.mem_singleton_self f)
  · intro j hj
    refine ⟨?_, moved.2 j⟩
    by_cases here : j = i
    · subst here
      rw [update_self]
      apply List.nodup_append.mpr
      refine ⟨b.nodup j hj, List.nodup_singleton f, ?_⟩
      intro x inside y last same
      rw [List.mem_singleton.mp last] at same
      exact unlisted j hj (same ▸ inside)
    · rw [update_of_ne here]
      exact b.nodup j hj
  · intro j hj there
    by_cases here : j = i
    · exact ⟨congrArg some here.symm, .inr (mem_cons_self _ _)⟩
    · rw [update_of_ne here] at there
      exact absurd there (unlisted j hj)
  · exact moved.1
  · intro j
    left
    by_cases here : j = i
    · subst here
      rw [update_self]
    · rw [update_of_ne here]
  · have total := b.total
    rw [countP_cons_of_neg _ id, count_cons_self] at total
    rw [isOpen_cons_use, count_cons_of_ne (by simp)]
    omega
  · intro j
    rw [count_cons_of_ne (by simp), count_cons_of_ne (by simp)]
  · intro j small
    have count := b.refcnt j small
    rw [names_cons_other _ _ id, count_cons_of_ne (by simp), count_cons_of_ne (by simp), count_cons_of_ne (by simp)] at count
    rw [names_cons_use, names_moved unused, count_cons_of_ne (by simp), count_cons_of_ne (by simp),
      count_cons_of_ne (by simp), update_self]
    by_cases here : j = i
    · subst here
      rw [update_self, if_pos rfl]
      show (s.ih j).ih_refcnt + 1 = _
      omega
    · rw [update_of_ne here, if_neg fun back => here (Option.some_inj.mp back).symm]
      omega
  · intro x there
    rcases Multiset.mem_cons.mp there with rfl | before
    · exact .inr (.inl trivial)
    · exact .inl (mem_cons_of_mem before)
  · intro j there
    exact mem_cons_of_mem (by simpa using there)

theorem erase_moved (b : Books s h) (hashed : i ∈ s.ihashTable) {x : IHandle} (name : x.name = (s.ih i).name)
    (list : x.ih_fds = (s.ih i).ih_fds.erase f) (mine : (s.fd f).fd_ih = some i) :
    (∀ j, (update s.ih i x j).name = (s.ih j).name) ∧ ∀ j ∈ s.ihashTable, ((update s.ih i x j).ih_fds.Nodup ∧
        ∀ g, g ≠ f → (g ∈ (update s.ih i x j).ih_fds ↔ g ∈ (s.ih j).ih_fds)) ∧ f ∉ (update s.ih i x j).ih_fds := by
  have moved := fds_moved (f := f) i name (by
    intro g other
    rw [list]
    exact List.mem_erase_of_ne other)
  refine ⟨moved.1, ?_⟩
  intro j hj
  refine ⟨⟨?_, moved.2 j⟩, ?_⟩
  · by_cases here : j = i
    · subst here
      rw [update_self, list]
      exact (b.nodup j hj).erase f
    · rw [update_of_ne here]
      exact b.nodup j hj
  intro there
  by_cases here : j = i
  · subst here
    rw [update_self, list] at there
    exact absurd rfl ((b.nodup j hj).mem_erase_iff.mp there).1
  rw [update_of_ne here] at there
  have other := (b.named j hj f there).1
  rw [mine] at other
  exact here (Option.some_inj.mp other).symm

theorem reallyclose (b : Books s (.use f ::ₘ h)) (mine : (s.fd f).fd_ih = some i) : Books { s with
      fd := update s.fd f .closed
      ih := update s.ih i { s.ih i with
        ih_fds := (s.ih i).ih_fds.erase f
        ih_reallyClosed := (s.ih i).ih_reallyClosed && !((s.ih i).ih_fds.erase f).isEmpty }
      fdAvail := s.fdAvail ++ [f] } (.hold i ::ₘ .pending ::ₘ h) := by
  have held := mem_cons_self (.use f) h
  rcases b.used_uncached held with ⟨uncached, unqueued, unavailable⟩
  rcases b.used f held with ⟨i', d, record, hashed, -⟩
  have thisOne : i' = i := by
    rw [record] at mine
    exact Option.some_inj.mp mine
  subst thisOne
  have once := b.used_once
  have moved := b.erase_moved (x := { s.ih i' with
    ih_fds := (s.ih i').ih_fds.erase f
    ih_reallyClosed := (s.ih i').ih_reallyClosed && !((s.ih i').ih_fds.erase f).isEmpty }) hashed rfl rfl mine
  apply b.move f .closed _ (s.fdAvail ++ [f]) s.fdLru s.fdInUseCount
  · intro g
    rw [List.count_append, List.count_singleton, count_use_cons, count_cons_of_ne (by simp),
      count_cons_of_ne (by simp), count_cons_of_ne (by simp), count_cons_of_ne (by simp),
      count_cons_of_ne (by simp)]
    by_cases same : g = f
    · rw [if_pos (by simpa using same.symm), if_pos same]
      omega
    · rw [if_neg (by simpa using fun back => same back.symm), if_neg same]
      omega
  · intro g other
    refine ⟨?_, Iff.rfl, ?_⟩
    · intro there
      exact (List.mem_append.mp there).resolve_right fun last => other (List.mem_singleton.mp last)
    · simpa using fun back => absurd back other
  · exact fun _ => rfl
  · intro there
    exact absurd there uncached
  · intro there
    exact absurd (by simpa using there) once
  · exact fun j hj => (moved.2 j hj).1
  · intro j hj there
    exact absurd there (moved.2 j hj).2
  · exact moved.1
  · intro j
    by_cases here : j = i'
    · subst here
      rw [update_self]
      show ((s.ih j).ih_reallyClosed && !((s.ih j).ih_fds.erase f).isEmpty) = _ ∨ _
      cases empty : ((s.ih j).ih_fds.erase f).isEmpty with
      | true =>
        right
        exact ⟨Bool.and_false _, List.isEmpty_iff.mp empty⟩
      | false =>
        left
        exact Bool.and_true _
    · rw [update_of_ne here]
      exact .inl rfl
  · have total := b.total
    rw [isOpen_cons_use, count_cons_of_ne (by simp)] at total
    rw [countP_cons_of_neg _ id, countP_cons_of_neg _ id, count_cons_of_ne (by simp), count_cons_self]
    omega
  · intro j
    rw [count_cons_of_ne (by simp), count_cons_of_ne (by simp), count_cons_of_ne (by simp)]
  · intro j small
    have count := b.refcnt j small
    rw [names_cons_use, mine, count_cons_of_ne (by simp), count_cons_of_ne (by simp), count_cons_of_ne (by simp)] at count
    have lends : (.hold i' ::ₘ .pending ::ₘ h : Multiset Item).count (.lend j) = h.count (.lend j) := by
      rw [count_cons_of_ne (by simp), count_cons_of_ne (by simp)]
    have lasts : (.hold i' ::ₘ .pending ::ₘ h : Multiset Item).count (.last j) = h.count (.last j) := by
      rw [count_cons_of_ne (by simp), count_cons_of_ne (by simp)]
    rw [names_cons_other _ _ id, names_cons_other _ _ id, names_moved once, lends, lasts]
    by_cases here : j = i'
    · subst here
      rw [if_pos rfl] at count
      rw [count_cons_self, count_cons_of_ne (by simp), update_self]
      show (s.ih j).ih_refcnt = _
      omega
    · rw [if_neg fun back => here (Option.some_inj.mp back).symm] at count
      rw [count_cons_of_ne (by simpa using here), count_cons_of_ne (by simp), update_of_ne here]
      omega
  · intro x there
    rcases Multiset.mem_cons.mp there with rfl | there
    · exact .inr (.inr (.inr ⟨i', hashed, rfl⟩))
    · rcases Multiset.mem_cons.mp there with rfl | before
      · exact .inr (.inr (.inl rfl))
      · exact .inl (mem_cons_of_mem before)
  · intro j there
    have before : .lend j ∈ h := by simpa using there
    exact mem_cons_of_mem (mem_cons_of_mem before)

theorem steal (b : Books s h) {rest : List ℕ} (first : s.fdLru = f :: rest) (mine : (s.fd f).fd_ih = some i) : Books { s with
      fd := update s.fd f .closed
      ih := update s.ih i { s.ih i with ih_fds := (s.ih i).ih_fds.erase f }
      fdAvail := f :: s.fdAvail
      fdLru := rest } (.pending ::ₘ h) := by
  have cached : f ∈ s.fdLru := first ▸ List.mem_cons_self
  rcases b.cached_unused cached with ⟨unused, unqueued, unavailable⟩
  rcases b.cached f cached with ⟨i', d, record, hashed, -⟩
  have thisOne : i' = i := by
    rw [record] at mine
    exact Option.some_inj.mp mine
  subst thisOne
  have once : f ∉ rest := by
    have nodup := b.nodup_lru
    rw [first] at nodup
    exact (List.nodup_cons.mp nodup).1
  have moved := b.erase_moved (x := { s.ih i' with ih_fds := (s.ih i').ih_fds.erase f }) hashed rfl rfl mine
  apply b.move f .closed _ (f :: s.fdAvail) rest s.fdInUseCount
  · intro g
    rw [first, List.count_cons, List.count_cons, count_cons_of_ne (by simp), count_cons_of_ne (by simp)]
    omega
  · intro g other
    refine ⟨?_, ?_, ?_⟩
    · intro there
      exact (List.mem_cons.mp there).resolve_left other
    · rw [first]
      exact ⟨fun there => List.mem_cons_of_mem f there, fun there => (List.mem_cons.mp there).resolve_left other⟩
    · simp
  · exact fun _ => rfl
  · intro there
    exact absurd there once
  · intro there
    exact absurd (by simpa using there) unused
  · exact fun j hj => (moved.2 j hj).1
  · intro j hj there
    exact absurd there (moved.2 j hj).2
  · exact moved.1
  · intro j
    left
    by_cases here : j = i'
    · subst here
      rw [update_self]
    · rw [update_of_ne here]
  · have total := b.total
    rw [first, List.length_cons] at total
    rw [countP_cons_of_neg _ id, count_cons_self]
    omega
  · intro j
    exact count_cons_of_ne (by simp) h
  · intro j small
    have count := b.refcnt j small
    rw [names_cons_other _ _ id, names_moved unused, count_cons_of_ne (by simp),
      count_cons_of_ne (by simp), count_cons_of_ne (by simp)]
    by_cases here : j = i'
    · subst here
      rw [update_self]
      exact count
    · rw [update_of_ne here]
      exact count
  · intro x there
    rcases Multiset.mem_cons.mp there with rfl | before
    · exact .inr (.inr (.inl rfl))
    · exact .inl before
  · intro j there
    exact mem_cons_of_mem there

end Books

end HandleCache

end OpenAFS.Vol
