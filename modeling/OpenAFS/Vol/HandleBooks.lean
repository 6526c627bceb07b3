import Mathlib.Data.Multiset.Bind
import OpenAFS.Vol.InodeHandles

namespace OpenAFS.Vol

open Function (update update_self update_of_ne)
open Multiset (count_cons_of_ne count_cons_self filter_cons_of_neg mem_cons_of_mem)
open Lib

/-- What a thread can have in hand: a descriptor in use or queued for closing, a reference that others may rely on or not,
or the last one, somebody else's reference, a descriptor that was just opened, an open or a close in progress. -/
inductive Item where
  | use (fdP : ℕ)
  | queued (fdP : ℕ)
  | lend (ihP : ℕ)
  | hold (ihP : ℕ)
  | last (ihP : ℕ)
  | borrow (ihP : ℕ)
  | fresh (ihP fd : ℕ)
  | pending
  | retry
  deriving DecidableEq, Repr

variable {x : Item}

namespace Item

def IsOpen : Item → Prop
  | .use _ | .queued _ => True
  | _ => False

instance : DecidablePred IsOpen := fun x => by cases x <;> unfold IsOpen <;> infer_instance

def Names (fd : ℕ → FdHandle) (ihP : ℕ) : Item → Prop
  | .use fdP => (fd fdP).fd_ih = some ihP
  | _ => False

instance (fd : ℕ → FdHandle) (ihP : ℕ) : DecidablePred (Names fd ihP) := fun x => by
  cases x <;> unfold Names <;> infer_instance

theorem Names.isOpen {fd : ℕ → FdHandle} {ihP : ℕ} (names : x.Names fd ihP) : x.IsOpen := by
  cases x with
  | use f => trivial
  | _ => cases names

theorem mem_of_ne {y : Item} {h : Multiset Item} (other : y ≠ x) (here : y ∈ x ::ₘ h) : y ∈ h :=
  (Multiset.mem_cons.mp here).resolve_left other

theorem count_filter_isOpen (h : Multiset Item) (open_ : x.IsOpen) : (h.filter IsOpen).count x = h.count x :=
  Multiset.count_filter_of_pos open_

end Item

namespace SyncPoint

def items : SyncPoint → Multiset Item
  | .chain _ => 0
  | .visit _ ihP | .leave _ ihP => {.hold ihP}
  | .opened _ ihP fdP => {.hold ihP, .use fdP}

end SyncPoint

/-- What an `ih_open` has to keep the handle. -/
def opener (who : Option ℕ) (ihP : ℕ) : Item := if who.isSome then .hold ihP else .borrow ihP

def keeper (who : Option ℕ) (ihP : ℕ) : Multiset Item := who.elim 0 fun _ => {.hold ihP}

def caller (next : Option SyncPoint) : Multiset Item := next.elim 0 SyncPoint.items

namespace Task

def items : Task → Multiset Item
  | .ref ihP => {.lend ihP}
  | .fd fdP => {.use fdP}
  | .iopen who ihP => {opener who ihP, .pending}
  | .iopened who ihP (.ok d) => {opener who ihP, .pending, .fresh ihP d}
  | .iopened who ihP _ => {opener who ihP, .pending}
  | .retry who ihP _ => {opener who ihP, .pending, .pending, .retry}
  | .swap who ihP fdP _ => .use fdP ::ₘ .pending ::ₘ keeper who ihP
  | .reallyclose next fdP => .use fdP ::ₘ caller next
  | .close next ihP _ => .hold ihP ::ₘ .pending ::ₘ caller next
  | .release next ihP => .hold ihP ::ₘ caller next
  | .fdclose next ihP queue last =>
    (queue.map Item.queued : Multiset Item) + ((if last then {.last ihP} else 0) + caller next)
  | .sync point => point.items

end Task

namespace HandleCache

def items (s : HandleCache) : Multiset Item := s.tasks.bind Task.items

structure Books (s : HandleCache) (h : Multiset Item) : Prop where
  places : ∀ f, s.fdAvail.count f + s.fdLru.count f + h.count (.use f) + h.count (.queued f) = if f < s.fdNew then 1 else 0
  avail : ∀ f ∈ s.fdAvail, s.fd f = .closed
  cached : ∀ f ∈ s.fdLru, ∃ i d, s.fd f = ⟨.open, some d, some i⟩ ∧ i ∈ s.ihashTable ∧ f ∈ (s.ih i).ih_fds ∧
    s.closedAt i ≤ d ∧ (s.ih i).ih_reallyClosed = false
  used : ∀ f, .use f ∈ h → ∃ i d, s.fd f = ⟨.inUse, some d, some i⟩ ∧ i ∈ s.ihashTable ∧ f ∈ (s.ih i).ih_fds ∧
    (s.closedAt i ≤ d ∨ (s.ih i).ih_reallyClosed = true)
  named : ∀ i ∈ s.ihashTable, ∀ f ∈ (s.ih i).ih_fds, (s.fd f).fd_ih = some i ∧ (f ∈ s.fdLru ∨ .use f ∈ h)
  nodup : ∀ i ∈ s.ihashTable, (s.ih i).ih_fds.Nodup
  total : s.fdInUseCount = s.fdLru.length + h.countP Item.IsOpen + h.count .pending
  handles : ∀ i, s.ihAvail.count i + s.ihashTable.count i + h.count (.last i) = if i < s.ihNew then 1 else 0
  refcnt : ∀ i < s.ihNew, (s.ih i).ih_refcnt =
    h.count (.hold i) + h.count (.lend i) + h.count (.last i) + h.countP (Item.Names s.fd i)
  held : ∀ i, .hold i ∈ h ∨ .lend i ∈ h → i ∈ s.ihashTable
  unique : ∀ i ∈ s.ihashTable, ∀ j ∈ s.ihashTable, (s.ih i).name = (s.ih j).name → i = j
  lent : ∀ i, .borrow i ∈ h → .lend i ∈ h
  fresh : ∀ i d, .fresh i d ∈ h → s.closedAt i ≤ d
  past : ∀ i, s.closedAt i ≤ s.opens
  steady : .retry ∉ h
  running : s.asserted = false

variable {s s' : HandleCache} {h h' : Multiset Item} {f i d : ℕ}

namespace Books

section

variable (b : Books s h)
include b

theorem new_of_hashed (hashed : i ∈ s.ihashTable) : i < s.ihNew := by
  have one := b.handles i
  have some_ := List.count_pos_iff.mpr hashed
  by_contra large
  rw [if_neg large] at one
  omega

theorem nodup_hash : s.ihashTable.Nodup := by
  apply List.nodup_iff_count_le_one.mpr
  intro i
  have one := b.handles i
  split at one <;> omega

theorem nodup_lru : s.fdLru.Nodup := by
  apply List.nodup_iff_count_le_one.mpr
  intro f
  have one := b.places f
  split at one <;> omega

theorem one_place (f : ℕ) : s.fdAvail.count f + s.fdLru.count f + h.count (.use f) + h.count (.queued f) ≤ 1 := by
  rw [b.places f]
  split <;> omega

theorem cached_unused (cached : f ∈ s.fdLru) : .use f ∉ h ∧ .queued f ∉ h ∧ f ∉ s.fdAvail := by
  have one := b.one_place f
  have here := List.count_pos_iff.mpr cached
  refine ⟨?_, ?_, ?_⟩
  · intro there
    have other := Multiset.count_pos.mpr there
    omega
  · intro there
    have other := Multiset.count_pos.mpr there
    omega
  · intro there
    have other := List.count_pos_iff.mpr there
    omega

theorem used_uncached (used : .use f ∈ h) : f ∉ s.fdLru ∧ .queued f ∉ h ∧ f ∉ s.fdAvail := by
  have one := b.one_place f
  have here := Multiset.count_pos.mpr used
  refine ⟨?_, ?_, ?_⟩
  · intro there
    have other := List.count_pos_iff.mpr there
    omega
  · intro there
    have other := Multiset.count_pos.mpr there
    omega
  · intro there
    have other := List.count_pos_iff.mpr there
    omega

theorem avail_unused (avail : f ∈ s.fdAvail) : f ∉ s.fdLru ∧ .use f ∉ h ∧ .queued f ∉ h := by
  refine ⟨?_, ?_, ?_⟩
  · intro there
    exact (b.cached_unused there).2.2 avail
  · intro there
    exact (b.used_uncached there).2.2 avail
  intro there
  have one := b.one_place f
  have here := List.count_pos_iff.mpr avail
  have other := Multiset.count_pos.mpr there
  omega

theorem unnamed (unhashed : i ∉ s.ihashTable) : h.countP (Item.Names s.fd i) = 0 := by
  apply Multiset.countP_eq_zero.mpr
  intro x here named
  cases x with
  | use f =>
    rcases b.used f here with ⟨j, d, record, hashed, -⟩
    have same : (s.fd f).fd_ih = some i := named
    rw [record] at same
    cases same
    exact unhashed hashed
  | _ => cases named

theorem unreferred (small : i < s.ihNew) (unhashed : i ∉ s.ihashTable) :
    (s.ih i).ih_refcnt = h.count (.last i) := by
  have noHold : h.count (.hold i) = 0 := Multiset.count_eq_zero.mpr fun here => unhashed (b.held i (.inl here))
  have noLend : h.count (.lend i) = 0 := Multiset.count_eq_zero.mpr fun here => unhashed (b.held i (.inr here))
  rw [b.refcnt i small, noHold, noLend, b.unnamed unhashed]
  omega

theorem refcnt_avail (avail : i ∈ s.ihAvail) : (s.ih i).ih_refcnt = 0 := by
  have one := b.handles i
  have here := List.count_pos_iff.mpr avail
  split at one
  · next small =>
    have unhashed : i ∉ s.ihashTable := by
      intro hashed
      have there := List.count_pos_iff.mpr hashed
      omega
    rw [b.unreferred small unhashed]
    omega
  · omega

theorem refcnt_pos (has : .hold i ∈ h ∨ .lend i ∈ h) : 0 < (s.ih i).ih_refcnt := by
  rw [b.refcnt i (b.new_of_hashed (b.held i has))]
  rcases has with here | here
  · have some_ := Multiset.count_pos.mpr here
    omega
  · have some_ := Multiset.count_pos.mpr here
    omega

end

theorem rebook (b : Books s h) (ih : ℕ → IHandle) (count : ℤ) (opens : ℕ) (same : h'.filter Item.IsOpen = h.filter Item.IsOpen)
    (total : count + h.count .pending = s.fdInUseCount + h'.count .pending)
    (last : ∀ i, h'.count (.last i) = h.count (.last i))
    (ihs : ∀ i, (ih i).name = (s.ih i).name ∧ (ih i).ih_reallyClosed = (s.ih i).ih_reallyClosed ∧ (ih i).ih_fds = (s.ih i).ih_fds)
    (refcnt : ∀ i, (ih i).ih_refcnt + (h.count (.hold i) + h.count (.lend i)) =
      (s.ih i).ih_refcnt + (h'.count (.hold i) + h'.count (.lend i)))
    (held : ∀ i, .hold i ∈ h' ∨ .lend i ∈ h' → i ∈ s.ihashTable)
    (lent : ∀ i, .borrow i ∈ h' → .lend i ∈ h')
    (fresh : ∀ i d, .fresh i d ∈ h' → s.closedAt i ≤ d) (later : s.opens ≤ opens) (steady : .retry ∉ h') :
    Books { s with ih, fdInUseCount := count, opens } h' := by
  have uses : ∀ f, h'.count (.use f) = h.count (.use f) := by
    intro f
    have open_ : Item.IsOpen (.use f) := trivial
    rw [← Item.count_filter_isOpen h' open_, same, Item.count_filter_isOpen h open_]
  have queues : ∀ f, h'.count (.queued f) = h.count (.queued f) := by
    intro f
    have open_ : Item.IsOpen (.queued f) := trivial
    rw [← Item.count_filter_isOpen h' open_, same, Item.count_filter_isOpen h open_]
  have use : ∀ f, .use f ∈ h' ↔ .use f ∈ h := by
    intro f
    rw [← Multiset.count_pos, uses, Multiset.count_pos]
  have open_ : h'.countP Item.IsOpen = h.countP Item.IsOpen := by
    rw [Multiset.countP_eq_card_filter, same, ← Multiset.countP_eq_card_filter]
  have names : ∀ i, h'.countP (Item.Names s.fd i) = h.countP (Item.Names s.fd i) := by
    intro i
    have only : ∀ g : Multiset Item, g.countP (Item.Names s.fd i) = (g.filter Item.IsOpen).countP (Item.Names s.fd i) := by
      intro g
      rw [Multiset.countP_filter]
      apply Multiset.countP_congr rfl
      intro x _
      exact propext ⟨fun named => ⟨named, named.isOpen⟩, fun both => both.1⟩
    rw [only h', same, ← only h]
  constructor
  · intro f
    rw [uses, queues]
    exact b.places f
  · exact b.avail
  · intro f cached
    rcases b.cached f cached with ⟨i, d, record, hashed, here, old, unflagged⟩
    exact ⟨i, d, record, hashed, by rw [(ihs i).2.2]; exact here, old, by rw [(ihs i).2.1]; exact unflagged⟩
  · intro f used
    rcases b.used f ((use f).mp used) with ⟨i, d, record, hashed, here, old⟩
    exact ⟨i, d, record, hashed, by rw [(ihs i).2.2]; exact here, by rw [(ihs i).2.1]; exact old⟩
  · intro i hashed f here
    rw [(ihs i).2.2] at here
    rw [use]
    exact b.named i hashed f here
  · intro i hashed
    rw [(ihs i).2.2]
    exact b.nodup i hashed
  · have old := b.total
    show count = s.fdLru.length + _ + _
    omega
  · intro i
    rw [last]
    exact b.handles i
  · intro i small
    have old := b.refcnt i small
    have new := refcnt i
    show (ih i).ih_refcnt = _ + _ + _ + h'.countP (Item.Names s.fd i)
    rw [last, names]
    omega
  · exact held
  · intro i hi j hj name
    rw [(ihs i).1, (ihs j).1] at name
    exact b.unique i hi j hj name
  · exact lent
  · exact fresh
  · intro i
    exact (b.past i).trans later
  · exact steady
  · exact b.running

theorem update_same {m : ℕ → IHandle} {x : IHandle} (name : x.name = (m i).name)
    (flag : x.ih_reallyClosed = (m i).ih_reallyClosed) (fds : x.ih_fds = (m i).ih_fds) (j : ℕ) :
    (update m i x j).name = (m j).name ∧ (update m i x j).ih_reallyClosed = (m j).ih_reallyClosed ∧
      (update m i x j).ih_fds = (m j).ih_fds := by
  by_cases here : j = i
  · subst here
    rw [update_self]
    exact ⟨name, flag, fds⟩
  · rw [update_of_ne here]
    exact ⟨rfl, rfl, rfl⟩

theorem pend (b : Books s h) : Books { s with fdInUseCount := s.fdInUseCount + 1 } (.pending ::ₘ h) := by
  apply b.rebook
  · exact filter_cons_of_neg h id
  · rw [count_cons_self]
    omega
  · intro i
    exact count_cons_of_ne (by simp) h
  · exact fun i => ⟨rfl, rfl, rfl⟩
  · intro i
    rw [count_cons_of_ne (by simp), count_cons_of_ne (by simp)]
  · intro i has
    exact b.held i (by simpa using has)
  · intro i borrowed
    simpa using b.lent i (by simpa using borrowed)
  · intro i d here
    exact b.fresh i d (by simpa using here)
  · exact Nat.le_refl _
  · simpa using b.steady

theorem unpend (b : Books s (.pending ::ₘ h)) : Books { s with fdInUseCount := s.fdInUseCount - 1 } h := by
  apply b.rebook
  · exact (filter_cons_of_neg h id).symm
  · rw [count_cons_self]
    omega
  · intro i
    exact (count_cons_of_ne (by simp) h).symm
  · exact fun i => ⟨rfl, rfl, rfl⟩
  · intro i
    rw [count_cons_of_ne (by simp), count_cons_of_ne (by simp)]
  · intro i has
    exact b.held i (by simpa using has)
  · intro i borrowed
    simpa using b.lent i (by simpa using borrowed)
  · intro i d here
    exact b.fresh i d (by simpa using here)
  · exact Nat.le_refl _
  · have steady := b.steady
    simpa using steady

theorem refer (b : Books s h) (kind : x = .hold i ∨ x = .lend i) (hashed : i ∈ s.ihashTable) :
    Books (s.setRefcnt i ((s.ih i).ih_refcnt + 1)) (x ::ₘ h) := by
  have apart : ¬ x.IsOpen ∧ x ≠ .pending ∧ (∀ j, x ≠ .last j) ∧ (∀ j, x ≠ .borrow j) ∧ (∀ j d, x ≠ .fresh j d) ∧ x ≠ .retry := by
    rcases kind with rfl | rfl <;> simp [Item.IsOpen]
  rcases apart with ⟨closed, notPending, notLast, notBorrow, notFresh, notRetry⟩
  apply b.rebook
  · exact filter_cons_of_neg h closed
  · rw [count_cons_of_ne notPending.symm]
  · intro j
    exact count_cons_of_ne (notLast j).symm h
  · exact update_same rfl rfl rfl
  · intro j
    by_cases here : j = i
    · subst here
      rw [update_self]
      rcases kind with rfl | rfl
      · rw [count_cons_self, count_cons_of_ne (by simp)]
        show (s.ih j).ih_refcnt + 1 + _ = _
        omega
      · rw [count_cons_self, count_cons_of_ne (by simp)]
        show (s.ih j).ih_refcnt + 1 + _ = _
        omega
    · rw [update_of_ne here]
      rcases kind with rfl | rfl
      · rw [count_cons_of_ne (by simpa using here), count_cons_of_ne (by simp)]
      · rw [count_cons_of_ne (by simp), count_cons_of_ne (by simpa using here)]
  · intro j has
    rcases kind with rfl | rfl
    · rcases has with here | here
      · rcases Multiset.mem_cons.mp here with same | before
        · cases same
          exact hashed
        · exact b.held j (.inl before)
      · exact b.held j (.inr (by simpa using here))
    rcases has with here | here
    · exact b.held j (.inl (by simpa using here))
    rcases Multiset.mem_cons.mp here with same | before
    · cases same
      exact hashed
    · exact b.held j (.inr before)
  · intro j borrowed
    apply mem_cons_of_mem
    exact b.lent j (Item.mem_of_ne (notBorrow j).symm borrowed)
  · intro j d here
    exact b.fresh j d (Item.mem_of_ne (notFresh j d).symm here)
  · exact Nat.le_refl _
  · intro here
    exact b.steady (Item.mem_of_ne notRetry.symm here)

theorem unhold (b : Books s (.hold i ::ₘ h)) : Books (s.setRefcnt i ((s.ih i).ih_refcnt - 1)) h := by
  have positive := b.refcnt_pos (.inl (Multiset.mem_cons_self _ _))
  apply b.rebook
  · exact (filter_cons_of_neg h id).symm
  · rw [count_cons_of_ne (by simp)]
  · intro j
    exact (count_cons_of_ne (by simp) h).symm
  · exact update_same rfl rfl rfl
  · intro j
    rw [count_cons_of_ne (by simp) h (a := .lend j)]
    by_cases here : j = i
    · subst here
      rw [update_self, count_cons_self]
      show (s.ih j).ih_refcnt - 1 + _ = _
      omega
    · rw [update_of_ne here, count_cons_of_ne (by simpa using here)]
  · intro j has
    exact b.held j (has.imp (fun here => mem_cons_of_mem here) fun here => mem_cons_of_mem here)
  · intro j borrowed
    simpa using b.lent j (mem_cons_of_mem borrowed)
  · intro j d here
    exact b.fresh j d (mem_cons_of_mem here)
  · exact Nat.le_refl _
  · intro here
    exact b.steady (mem_cons_of_mem here)

theorem unlend (b : Books s (.lend i ::ₘ h)) (others : .borrow i ∈ h → .lend i ∈ h) : Books s (.hold i ::ₘ h) := by
  apply b.rebook s.ih s.fdInUseCount s.opens
  · rw [filter_cons_of_neg h id, filter_cons_of_neg h id]
  · rw [count_cons_of_ne (by simp), count_cons_of_ne (by simp)]
  · intro j
    rw [count_cons_of_ne (by simp), count_cons_of_ne (by simp)]
  · exact fun j => ⟨rfl, rfl, rfl⟩
  · intro j
    rw [count_cons_of_ne (by simp) h (a := .hold j) (b := .lend i), count_cons_of_ne (by simp) h (a := .lend j) (b := .hold i)]
    by_cases here : j = i
    · subst here
      rw [count_cons_self, count_cons_self]
      omega
    · rw [count_cons_of_ne (by simpa using here), count_cons_of_ne (by simpa using here)]
  · intro j has
    apply b.held j
    rcases has with here | here
    · rcases Multiset.mem_cons.mp here with same | before
      · cases same
        exact .inr (Multiset.mem_cons_self _ _)
      · exact .inl (mem_cons_of_mem before)
    · exact .inr (mem_cons_of_mem (by simpa using here))
  · intro j borrowed
    have borrowed : .borrow j ∈ h := by simpa using borrowed
    apply mem_cons_of_mem
    rcases Multiset.mem_cons.mp (b.lent j (mem_cons_of_mem borrowed)) with same | before
    · cases same
      exact others borrowed
    · exact before
  · intro j d here
    exact b.fresh j d (by simpa using here)
  · exact Nat.le_refl _
  · have steady := b.steady
    simpa using steady

theorem note (b : Books s h) (kind : x = .borrow i ∧ .lend i ∈ h ∨ x = .fresh i d ∧ s.closedAt i ≤ d) :
    Books s (x ::ₘ h) := by
  have apart : ¬ x.IsOpen ∧ x ≠ .pending ∧ (∀ j, x ≠ .last j) ∧ (∀ j, x ≠ .hold j) ∧ (∀ j, x ≠ .lend j) ∧ x ≠ .retry := by
    rcases kind with ⟨rfl, -⟩ | ⟨rfl, -⟩ <;> simp [Item.IsOpen]
  rcases apart with ⟨closed, notPending, notLast, notHold, notLend, notRetry⟩
  apply b.rebook s.ih s.fdInUseCount s.opens
  · exact filter_cons_of_neg h closed
  · rw [count_cons_of_ne notPending.symm]
  · intro j
    exact count_cons_of_ne (notLast j).symm h
  · exact fun j => ⟨rfl, rfl, rfl⟩
  · intro j
    rw [count_cons_of_ne (notHold j).symm, count_cons_of_ne (notLend j).symm]
  · intro j has
    exact b.held j (has.imp (Item.mem_of_ne (notHold j).symm) (Item.mem_of_ne (notLend j).symm))
  · intro j borrowed
    apply mem_cons_of_mem
    rcases Multiset.mem_cons.mp borrowed with same | before
    · rcases kind with ⟨rfl, lends⟩ | ⟨rfl, -⟩
      · cases same
        exact lends
      · cases same
    · exact b.lent j before
  · intro j e here
    rcases Multiset.mem_cons.mp here with same | before
    · rcases kind with ⟨rfl, -⟩ | ⟨rfl, new⟩
      · cases same
      · cases same
        exact new
    · exact b.fresh j e before
  · exact Nat.le_refl _
  · intro here
    exact b.steady (Item.mem_of_ne notRetry.symm here)

theorem unnote (b : Books s (x ::ₘ h)) (kind : x = .borrow i ∨ x = .fresh i d) : Books s h := by
  have apart : ¬ x.IsOpen ∧ x ≠ .pending ∧ (∀ j, x ≠ .last j) ∧ (∀ j, x ≠ .hold j) ∧ (∀ j, x ≠ .lend j) := by
    rcases kind with rfl | rfl <;> simp [Item.IsOpen]
  rcases apart with ⟨closed, notPending, notLast, notHold, notLend⟩
  apply b.rebook s.ih s.fdInUseCount s.opens
  · exact (filter_cons_of_neg h closed).symm
  · rw [count_cons_of_ne notPending.symm]
  · intro j
    exact (count_cons_of_ne (notLast j).symm h).symm
  · exact fun j => ⟨rfl, rfl, rfl⟩
  · intro j
    rw [count_cons_of_ne (notHold j).symm, count_cons_of_ne (notLend j).symm]
  · intro j has
    exact b.held j (has.imp (fun here => mem_cons_of_mem here) fun here => mem_cons_of_mem here)
  · intro j borrowed
    exact Item.mem_of_ne (notLend j).symm (b.lent j (mem_cons_of_mem borrowed))
  · intro j e here
    exact b.fresh j e (mem_cons_of_mem here)
  · exact Nat.le_refl _
  · intro here
    exact b.steady (mem_cons_of_mem here)

theorem opened (b : Books s h) (i : ℕ) : Books { s with opens := s.opens + 1 } (.fresh i s.opens ::ₘ h) := by
  have counted : Books { s with opens := s.opens + 1 } h := by
    exact b.rebook s.ih s.fdInUseCount (s.opens + 1) rfl rfl (fun _ => rfl) (fun _ => ⟨rfl, rfl, rfl⟩) (fun _ => rfl)
      b.held b.lent b.fresh (Nat.le_succ _) b.steady
  exact counted.note (.inr ⟨rfl, b.past i⟩)

theorem synced (b : Books s h) (i : ℕ) (flag : Bool) : Books (s.setIh i { s.ih i with ih_synced := flag }) h := by
  have refcnt : ∀ j, (update s.ih i { s.ih i with ih_synced := flag } j).ih_refcnt = (s.ih j).ih_refcnt := by
    intro j
    by_cases here : j = i
    · subst here
      rw [update_self]
    · rw [update_of_ne here]
  exact b.rebook _ s.fdInUseCount s.opens rfl rfl (fun _ => rfl) (update_same rfl rfl rfl)
    (fun j => by rw [refcnt]) b.held b.lent b.fresh (Nat.le_refl _) b.steady

end Books

end HandleCache

end OpenAFS.Vol
