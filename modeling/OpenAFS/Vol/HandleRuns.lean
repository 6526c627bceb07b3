import OpenAFS.Vol.HandleQueues

namespace OpenAFS.Vol

open Function (update update_self)
open Multiset (mem_cons_self notMem_zero)
open Lib List

/-- An `ih_open` that has a descriptor of the handle that no list has yet. -/
def Task.opening : Task → Option ℕ
  | .iopened _ ihP (.ok _) => some ihP
  | _ => none

namespace HandleCache

/-- No open finds that the system has no descriptors left while one is in the cache, and no handle is closed between the
call of the system for a descriptor of it and the end of that open. -/
def Met (s : HandleCache) : HandleAction → Prop
  | .resume (.iopened _ _ .emfile) _ => s.fdLru = []
  | .ih_reallyclose ihP => some ihP ∉ s.tasks.map Task.opening
  | _ => True

instance (s : HandleCache) (a : HandleAction) : Decidable (s.Met a) := by
  unfold Met
  split <;> infer_instance

/-- The state of the cache in the words of the source. An item `use` is a descriptor in use, `queued` and `pending` are
closes and opens in progress, `hold` and `lend` are references. -/
structure Sound (s : HandleCache) : Prop where
  count : s.fdInUseCount = s.fdLru.length + s.items.countP Item.IsOpen + s.items.count .pending
  places : ∀ f, s.fdAvail.count f + s.fdLru.count f + s.items.count (.use f) + s.items.count (.queued f) =
    if f < s.fdNew then 1 else 0
  listed : ∀ f, f ∈ s.fdLru ∨ .use f ∈ s.items → ∃ i d, s.fd f = ⟨if f ∈ s.fdLru then .open else .inUse, some d, some i⟩ ∧
      i ∈ s.ihashTable ∧ ∀ j ∈ s.ihashTable, f ∈ (s.ih j).ih_fds ↔ j = i
  refcnt : ∀ i ∈ s.ihashTable, (s.ih i).ih_refcnt =
    s.items.count (.hold i) + s.items.count (.lend i) + s.items.countP (Item.Names s.fd i)
  unique : ∀ i ∈ s.ihashTable, ∀ j ∈ s.ihashTable, (s.ih i).name = (s.ih j).name → i = j
  cached : ∀ f ∈ s.fdLru, ∀ i d, s.fd f = ⟨.open, some d, some i⟩ → s.closedAt i ≤ d
  opened : ∀ sync i d, .iopened sync i (.ok d) ∈ s.tasks → s.closedAt i ≤ d
  running : s.asserted = false

variable {s s' : HandleCache} {g h : Multiset Item} {f i d : ℕ} {x : Item} {sync : Option ℕ} {next : Option SyncPoint}
  {t : Task}

def Balanced (s : HandleCache) (h : Multiset Item) : Prop := s.Books (h + s.items)

theorem balanced_cons : s.Balanced (x ::ₘ h) ↔ s.Books (x ::ₘ (h + s.items)) := by
  unfold Balanced
  rw [Multiset.cons_add]

theorem balanced_zero : s.Balanced 0 ↔ s.Books s.items := by
  unfold Balanced
  rw [Multiset.zero_add]

theorem balanced_swap {y : Item} : s.Balanced (x ::ₘ y ::ₘ h) ↔ s.Balanced (y ::ₘ x ::ₘ h) := by
  rw [Multiset.cons_swap]

theorem Books.of_tasks (b : s.Books h) (tasks : Multiset Task) : ({ s with tasks } : HandleCache).Books h :=
  ⟨b.places, b.avail, b.cached, b.used, b.named, b.nodup, b.total, b.handles, b.refcnt, b.held, b.unique, b.lent,
    b.fresh, b.past, b.steady, b.running⟩

theorem items_add (s : HandleCache) (t : Task) : (s.add t).items = t.items + s.items := Multiset.cons_bind t s.tasks _

theorem Balanced.add (b : s.Balanced (t.items + h)) : (s.add t).Balanced h := by
  unfold Balanced at b ⊢
  rw [items_add, ← Multiset.add_assoc, Multiset.add_comm h]
  exact b.of_tasks _

theorem Balanced.park (b : s.Balanced t.items) : (s.add t).Balanced 0 := by
  apply Balanced.add
  rw [Multiset.add_zero]
  exact b

theorem Balanced.take (b : s.Balanced 0) (here : t ∈ s.tasks) : (s.take t).Balanced t.items := by
  have all : s.items = t.items + (s.take t).items := by
    unfold items HandleCache.take
    rw [← Multiset.cons_bind, Multiset.cons_erase here]
  have books := balanced_zero.mp b
  rw [all] at books
  exact books.of_tasks _

theorem mem_items {t : Task} (here : t ∈ s.tasks) (inside : x ∈ t.items) : x ∈ s.items :=
  Multiset.mem_bind.mpr ⟨t, here, inside⟩

theorem Balanced.of_ref (b : s.Balanced 0) (here : .ref i ∈ s.tasks) : .lend i ∈ s.items ∧ i ∈ s.ihashTable := by
  have lends : .lend i ∈ s.items := mem_items here (Multiset.mem_singleton_self _)
  exact ⟨lends, (balanced_zero.mp b).held i (.inr lends)⟩

theorem Balanced.of_opener (b : s.Balanced (opener sync i ::ₘ h)) : i ∈ s.ihashTable := by
  have books := balanced_cons.mp b
  have first := mem_cons_self (opener sync i) (h + s.items)
  cases sync with
  | none => exact books.held i (.inr (books.lent i first))
  | some ihash => exact books.held i (.inl first)

theorem last_first (x y z : Item) : ({x, y, z} : Multiset Item) = z ::ₘ {x, y} := by
  show x ::ₘ y ::ₘ z ::ₘ 0 = z ::ₘ x ::ₘ y ::ₘ 0
  rw [Multiset.cons_swap y z, Multiset.cons_swap x z]

theorem Balanced.keep (b : s.Balanced (opener sync i ::ₘ h)) : s.Balanced (h + keeper sync i) := by
  cases sync with
  | none =>
    have kept : s.Balanced h := (balanced_cons.mp b).unnote (d := 0) (.inl rfl)
    rw [show keeper none i = 0 from rfl, Multiset.add_zero]
    exact kept
  | some ihash =>
    rw [show keeper (some ihash) i = {.hold i} from rfl, Multiset.add_comm, Multiset.singleton_add]
    exact b

theorem Balanced.openDone (b : s.Balanced (.use f ::ₘ keeper sync i)) : (s.openDone sync i f).Balanced 0 := by
  cases sync with
  | none => exact Balanced.park (t := .fd f) b
  | some ihash =>
    apply Balanced.park (t := .sync (.opened ihash i f))
    show Balanced _ {.hold i, .use f}
    rw [Multiset.pair_comm]
    exact b

theorem Balanced.openFailed (b : s.Balanced {opener sync i}) : (s.openFailed sync i).Balanced 0 := by
  cases sync with
  | none =>
    have nothing : s.Balanced 0 := (balanced_cons.mp b).unnote (d := 0) (.inl rfl)
    exact nothing
  | some ihash => exact b.park

theorem Balanced.closeDone (b : s.Balanced (caller next)) : (s.closeDone next).Balanced 0 := by
  cases next with
  | none => exact b
  | some point => exact b.park

theorem Balanced.drop (b : s.Balanced (.hold i ::ₘ caller next)) : (s.drop next i).Balanced 0 := by
  unfold HandleCache.drop
  split
  · have less : (s.setRefcnt i ((s.ih i).ih_refcnt - 1)).Balanced (caller next) := (balanced_cons.mp b).unhold
    exact less.closeDone
  · exact Balanced.park (t := .release next i) b

theorem Balanced.ih_open (b : s.Balanced {opener sync i}) : ∃ s', s.ih_open sync i = some s' ∧ s'.Balanced 0 := by
  have hashed := b.of_opener
  unfold HandleCache.ih_open
  split
  · next fdP found =>
    have mine : fdP ∈ (s.ih i).ih_fds := List.mem_reverse.mp (mem_of_find?_eq_some found)
    have status : (s.fd fdP).fd_status ≠ .inUse := by simpa using find?_some found
    rcases Books.named b i hashed fdP mine with ⟨record, lru | used⟩
    · rcases Books.cached b fdP lru with ⟨j, d, tells, -⟩
      rw [if_neg (not_not.mpr (by rw [tells]))]
      refine ⟨_, rfl, ?_⟩
      have taken := Books.hit b lru record
      have taken : Balanced _ (.use fdP ::ₘ opener sync i ::ₘ 0) := balanced_cons.mpr taken
      rw [balanced_swap] at taken
      have kept := taken.keep
      exact kept.openDone
    · rcases Books.used b fdP used with ⟨j, d, tells, -⟩
      rw [tells] at status
      exact absurd rfl status
  · refine ⟨_, rfl, ?_⟩
    have pending := balanced_cons.mpr (Books.pend b)
    apply Balanced.park (t := .iopen sync i)
    show Balanced _ {opener sync i, .pending}
    rw [Multiset.pair_comm]
    exact pending

theorem Balanced.os_iopen (b : s.Balanced {opener sync i, .pending}) (outcome : OpenResult) :
    (s.OS_IOPEN sync i outcome).Balanced 0 := by
  cases outcome with
  | ok _ =>
    have new := balanced_cons.mpr (Books.opened b i)
    apply Balanced.park (t := .iopened sync i (.ok s.opens))
    show Balanced _ {opener sync i, .pending, .fresh i s.opens}
    rw [last_first]
    exact new
  | emfile => exact Balanced.park (t := .iopened sync i .emfile) b
  | error => exact Balanced.park (t := .iopened sync i .error) b

theorem Balanced.install (b : s.Balanced (.pending ::ₘ h)) {rest : List ℕ} (first : s.fdAvail = f :: rest)
    (hashed : i ∈ s.ihashTable) (new : s.closedAt i ≤ d) :
    (HandleCache.install i f d { s with fdAvail := rest }).Balanced (.use f ::ₘ h) :=
  balanced_cons.mpr ((balanced_cons.mp b).install first hashed new)

theorem Balanced.steal (b : s.Balanced h) {rest : List ℕ} (first : s.fdLru = f :: rest) (hashed : i ∈ s.ihashTable)
    (new : s.closedAt i ≤ d) :
    ∃ closeFd s', s.steal f rest = some (closeFd, s') ∧ (s'.install i f d).Balanced (.use f ::ₘ h) := by
  rcases Books.cached b f (first ▸ List.mem_cons_self) with ⟨old, closeFd, tells, -⟩
  have stolen : s.steal f rest = some (closeFd, { s with
      fdLru := rest, ih := update s.ih old { s.ih old with ih_fds := (s.ih old).ih_fds.erase f } }) := by
    unfold HandleCache.steal
    rw [tells]
    rfl
  refine ⟨closeFd, _, stolen, ?_⟩
  have closed := balanced_cons.mpr (Books.steal b first (i := old) (by rw [tells]))
  have installed := Balanced.install (i := i) (d := d) closed rfl hashed new
  unfold HandleCache.install HandleCache.setFd at installed ⊢
  simp only [Function.update_idem] at installed ⊢
  exact installed

theorem Balanced.fill (b : s.Balanced {opener sync i, .pending}) (new : s.closedAt i ≤ d) {rest : List ℕ}
    (first : s.fdAvail = f :: rest) :
    (s.fd f).fd_status = .avail ∧ ((HandleCache.install i f d { s with fdAvail := rest }).openDone sync i f).Balanced 0 := by
  constructor
  · rw [Books.avail b f (first ▸ List.mem_cons_self)]
    rfl
  · have hashed := b.of_opener
    have kept := b.keep
    exact (kept.install first hashed new).openDone

theorem Balanced.ih_open_finish {fd : OpenResult} (b : s.Balanced (Task.items (.iopened sync i fd)))
    (room : fd = .emfile → s.fdLru = []) : ∃ s', s.ih_open_finish sync i fd = some s' ∧ s'.Balanced 0 := by
  have failed : s.Balanced {opener sync i, .pending} →
      (({ s with fdInUseCount := s.fdInUseCount - 1 } : HandleCache).openFailed sync i).Balanced 0 := by
    intro b
    apply Balanced.openFailed
    rw [Multiset.pair_comm] at b
    exact (balanced_cons.mp b).unpend
  cases fd with
  | error => exact ⟨_, rfl, failed b⟩
  | emfile =>
    refine ⟨({ s with fdInUseCount := s.fdInUseCount - 1 } : HandleCache).openFailed sync i, ?_, failed b⟩
    unfold HandleCache.ih_open_finish
    rw [room rfl]
  | ok d =>
    have b : s.Balanced {opener sync i, .pending, .fresh i d} := b
    rw [last_first] at b
    have books := balanced_cons.mp b
    have fresh : s.closedAt i ≤ d := books.fresh i d (mem_cons_self _ _)
    have b : s.Balanced {opener sync i, .pending} := books.unnote (.inr rfl)
    have hashed := b.of_opener
    unfold HandleCache.ih_open_finish
    simp only
    split
    · next fdP rest taken =>
      have first : s.fdLru = fdP :: rest := by
        split at taken
        · exact taken
        · cases taken
      rcases b.steal first hashed fresh with ⟨closeFd, s', stolen, b'⟩
      rw [stolen]
      refine ⟨_, rfl, ?_⟩
      apply Balanced.park (t := .swap sync i fdP closeFd)
      rw [Multiset.insert_eq_cons, balanced_swap] at b'
      have kept := b'.keep
      rw [Multiset.cons_add, Multiset.singleton_add] at kept
      exact kept
    generalize grown : (if s.fdAvail = [] then s.fdHandleAllocateChunk else s) = t
    have b : t.Balanced {opener sync i, .pending} := by
      rw [← grown]
      split
      · exact Books.fdHandleAllocateChunk b
      · exact b
    have fresh : t.closedAt i ≤ d := by
      rw [← grown]
      split
      · exact fresh
      · exact fresh
    split
    · next empty =>
      rw [← grown] at empty
      split at empty
      · next none_ =>
        rw [show s.fdHandleAllocateChunk.fdAvail = s.fdAvail ++ List.range' s.fdNew FD_HANDLE_MALLOCSIZE from rfl,
          none_] at empty
        cases empty
      · next some_ => exact absurd empty some_
    · next fdP rest first =>
      rcases b.fill fresh first with ⟨status, b'⟩
      rw [if_neg (not_not.mpr status)]
      exact ⟨_, rfl, b'⟩

theorem Balanced.counted (b : s.Balanced (.use f ::ₘ h)) : 0 < s.fdInUseCount := by
  have total := (balanced_cons.mp b).total
  rw [Books.isOpen_cons_use] at total
  omega

theorem Balanced.fd_close (b : s.Balanced (.use f ::ₘ caller next)) : ∃ s', s.fd_close next f = some s' ∧ s'.Balanced 0 := by
  have books := balanced_cons.mp b
  rcases books.used f (mem_cons_self _ _) with ⟨i, d, tells, -⟩
  have counted := b.counted
  unfold HandleCache.fd_close
  rw [tells]
  simp only
  rw [if_neg (by omega)]
  split
  · exact ⟨_, rfl, Balanced.park (t := .reallyclose next f) b⟩
  next keep =>
  refine ⟨_, rfl, ?_⟩
  have unflagged : (s.ih i).ih_reallyClosed = false := by
    rw [not_or, Bool.not_eq_true] at keep
    exact keep.1
  have cached := books.cache (i := i) (by rw [tells]) unflagged
  apply Balanced.drop
  apply balanced_cons.mpr
  rw [tells] at cached
  exact cached

theorem Balanced.fd_reallyclose (b : s.Balanced (.use f ::ₘ caller next)) :
    ∃ s', s.fd_reallyclose next f = some s' ∧ s'.Balanced 0 := by
  have books := balanced_cons.mp b
  rcases books.used f (mem_cons_self _ _) with ⟨i, d, tells, -⟩
  have counted := b.counted
  unfold HandleCache.fd_reallyclose
  rw [tells]
  simp only
  rw [if_neg (by omega)]
  refine ⟨_, rfl, ?_⟩
  have closed := books.reallyclose (i := i) (by rw [tells])
  apply Balanced.park (t := .close next i d)
  apply balanced_cons.mpr
  rw [Multiset.cons_add]
  exact closed

theorem Balanced.fd_reallyclose_finish (b : s.Balanced (.hold i ::ₘ .pending ::ₘ caller next)) :
    (s.fd_reallyclose_finish next i).Balanced 0 := by
  rw [balanced_swap] at b
  have closed : ({ s with fdInUseCount := s.fdInUseCount - 1 } : HandleCache).Balanced (.hold i ::ₘ caller next) :=
    (balanced_cons.mp b).unpend
  exact closed.drop

theorem Balanced.ih_fdclose (b : s.Books h) (has : .hold i ∈ h ∨ .lend i ∈ h) (table : List ℕ) (closedAt : ℕ → ℕ)
    (others : ∀ j, j ≠ i → closedAt j = s.closedAt j) (past : closedAt i ≤ s.opens)
    (fresh : ∀ d, .fresh i d ∈ h → closedAt i ≤ d) :
    ∃ queue left, ({ s with ihashTable := table } : HandleCache).ih_fdclose i = some (queue, { s with
      ih := update s.ih i { s.ih i with ih_fds := left, ih_reallyClosed := !left.isEmpty }
      fdLru := s.fdLru.filter (fun g => g ∉ queue)
      ihashTable := table }) ∧
    ({ s with
      ih := update s.ih i { s.ih i with ih_fds := left, ih_reallyClosed := !left.isEmpty }
      fdLru := s.fdLru.filter (fun g => g ∉ queue)
      closedAt } : HandleCache).Books (Books.queued queue + h) ∧
    ((s.ih i).ih_refcnt = 1 → left = []) := by
  have hashed := b.held i has
  have positive := b.refcnt_pos has
  have books := b.fdclose hashed closedAt others past fresh _ rfl rfl
  have inUse := (b.split hashed).2
  generalize isQueue : (s.ih i).ih_fds.filter (fun g => (s.fd g).fd_status = .open) = queue at books
  generalize isLeft : (s.ih i).ih_fds.filter (fun g => (s.fd g).fd_status ≠ .open) = left at books inUse
  have sound : ¬ ∃ g ∈ (s.ih i).ih_fds, (s.fd g).fd_ih ≠ some i ∨ (s.fd g).fd_status = .avail := by
    rintro ⟨g, mine, bad⟩
    rcases b.named i hashed g mine with ⟨record, place⟩
    rcases bad with other | status
    · exact other record
    rcases place with lru | used
    · rcases b.cached g lru with ⟨j, d, tells, -⟩
      rw [tells] at status
      cases status
    · rcases b.used g used with ⟨j, d, tells, -⟩
      rw [tells] at status
      cases status
  have alone : (s.ih i).ih_refcnt = 1 → left = [] := by
    intro one
    rw [b.refcnt i (b.new_of_hashed hashed)] at one
    have own : 0 < h.count (.hold i) + h.count (.lend i) := by
      rcases has with there | there
      · have pos := Multiset.count_pos.mpr there
        omega
      · have pos := Multiset.count_pos.mpr there
        omega
    have none_ : h.countP (Item.Names s.fd i) = 0 := by omega
    apply List.eq_nil_iff_forall_not_mem.mpr
    intro g there
    rcases (inUse g).mp there with ⟨used, record⟩
    exact Multiset.countP_eq_zero.mp none_ _ used record
  refine ⟨queue, left, ?_, books, alone⟩
  unfold HandleCache.ih_fdclose
  simp only
  rw [isQueue, isLeft, if_neg (by omega), if_neg sound, if_neg (by exact fun both => both.2 (alone both.1))]
  rfl

theorem Balanced.ih_fdclose_finish {queue : List ℕ} {last : Bool} (b : s.Balanced (Task.items (.fdclose next i queue last))) :
    ∃ s', s.ih_fdclose_finish next i queue last = some s' ∧ s'.Balanced 0 := by
  have books : s.Books (Books.queued queue + ((if last then {.last i} else 0) + caller next + s.items)) := by
    rw [← Multiset.add_assoc]
    exact b
  have total := books.total
  rw [Multiset.countP_add, Books.isOpen_queued] at total
  unfold HandleCache.ih_fdclose_finish
  rw [if_neg (by push_cast at total; omega)]
  refine ⟨_, rfl, ?_⟩
  have closed := books.fdclosed
  apply Balanced.closeDone
  cases last with
  | false =>
    rw [if_neg (by simp), Multiset.zero_add] at closed
    exact closed
  | true =>
    rw [if_pos rfl, Multiset.singleton_add, Multiset.cons_add] at closed
    exact closed.retire

theorem Balanced.ih_reallyclose (b : s.Balanced 0) (has : .lend i ∈ s.items) (quiet : ∀ d, .fresh i d ∉ s.items) :
    ∃ s', s.ih_reallyclose i = some s' ∧ s'.Balanced 0 := by
  have books := balanced_zero.mp b
  rcases Balanced.ih_fdclose books (.inr has) s.ihashTable (update s.closedAt i s.opens)
    (fun j other => Function.update_of_ne other _ _) (by rw [update_self])
    (fun d there => absurd there (quiet d)) with ⟨queue, left, closed, books', -⟩
  unfold HandleCache.ih_reallyclose
  rw [closed]
  simp only
  split
  · next empty =>
    refine ⟨_, rfl, ?_⟩
    apply balanced_zero.mpr
    subst empty
    rw [show Books.queued [] = 0 from rfl, Multiset.zero_add] at books'
    exact books'
  refine ⟨_, rfl, ?_⟩
  apply Balanced.park (t := .fdclose none i queue false)
  have same : Task.items (.fdclose none i queue false) = Books.queued queue := by
    show Books.queued queue + (0 + 0) = _
    rw [Multiset.add_zero, Multiset.add_zero]
  rw [same]
  exact books'

theorem Balanced.ih_release (b : s.Balanced (.hold i ::ₘ caller next)) : ∃ s', s.ih_release next i = some s' ∧ s'.Balanced 0 := by
  have books := balanced_cons.mp b
  have has : .hold i ∈ (.hold i ::ₘ (caller next + s.items) : Multiset Item) := mem_cons_self _ _
  have positive := books.refcnt_pos (.inl has)
  unfold HandleCache.ih_release
  rw [if_neg (by omega)]
  split
  · have less : (s.setRefcnt i ((s.ih i).ih_refcnt - 1)).Balanced (caller next) := books.unhold
    exact ⟨_, rfl, less.closeDone⟩
  next notMore =>
  have one : (s.ih i).ih_refcnt = 1 := by omega
  rcases Balanced.ih_fdclose books (.inl has) (s.ihashTable.erase i) s.closedAt (fun _ _ => rfl) (books.past i)
    (fun d there => books.fresh i d there) with ⟨queue, left, closed, books', empty⟩
  rw [closed]
  simp only
  have moved : Books.queued queue + (.hold i ::ₘ (caller next + s.items)) =
      .hold i ::ₘ (Books.queued queue + (caller next + s.items)) := Multiset.add_cons _ _ _
  rw [moved] at books'
  have gone := books'.unhash (by
    show (update s.ih i _ i).ih_refcnt = 1
    rw [update_self]
    exact one) (by
    show (update s.ih i _ i).ih_fds = []
    rw [update_self]
    exact empty one)
  split
  · next none_ =>
    refine ⟨_, rfl, ?_⟩
    subst none_
    rw [show Books.queued [] = 0 from rfl, Multiset.zero_add] at gone
    apply Balanced.closeDone
    exact gone.retire
  · refine ⟨_, rfl, ?_⟩
    apply Balanced.park (t := .fdclose next i queue true)
    show HandleCache.Books _ (Books.queued queue + ({.last i} + caller next) + s.items)
    rw [Multiset.singleton_add, Multiset.add_cons, Multiset.cons_add, Multiset.add_assoc]
    exact gone

theorem Balanced.refer (b : s.Balanced 0) (hashed : i ∈ s.ihashTable) :
    ((s.setRefcnt i ((s.ih i).ih_refcnt + 1)).add (.ref i)).Balanced 0 := by
  apply Balanced.park (t := .ref i)
  exact (balanced_zero.mp b).refer (.inr rfl) hashed

theorem Balanced.ih_init (b : s.Balanced 0) (name : InodeName) : ∃ s', s.ih_init name = some s' ∧ s'.Balanced 0 := by
  unfold HandleCache.ih_init
  split
  · next i found => exact ⟨_, rfl, b.refer (mem_of_find?_eq_some found)⟩
  next absent =>
  simp only
  have absent : ∀ j ∈ s.ihashTable, (s.ih j).name ≠ name := by simpa using absent
  generalize grown : (if s.ihAvail = [] then s.iHandleAllocateChunk else s) = t
  have books : t.Books t.items := by
    rw [← grown]
    split
    · exact (balanced_zero.mp b).iHandleAllocateChunk
    · exact balanced_zero.mp b
  have absent : ∀ j ∈ t.ihashTable, (t.ih j).name ≠ name := by
    rw [← grown]
    split
    · intro j hj
      show (if _ then _ else _ : IHandle).name ≠ name
      rw [apply_ite IHandle.name, ite_self]
      exact absent j hj
    · exact absent
  split
  · next empty =>
    rw [← grown] at empty
    split at empty
    · next none_ =>
      rw [show s.iHandleAllocateChunk.ihAvail = s.ihAvail ++ List.range' s.ihNew I_HANDLE_MALLOCSIZE from rfl, none_] at empty
      cases empty
    · next some_ => exact absurd empty some_
  · next i rest first =>
    have zero := books.refcnt_avail (i := i) (first ▸ List.mem_cons_self)
    rw [if_neg (not_not.mpr zero)]
    refine ⟨_, rfl, ?_⟩
    apply Balanced.park (t := .ref i)
    exact books.init first _ rfl rfl absent

theorem Balanced.ih_copy (b : s.Balanced 0) (has : .lend i ∈ s.items) : ∃ s', s.ih_copy i = some s' ∧ s'.Balanced 0 := by
  have books := balanced_zero.mp b
  have positive := books.refcnt_pos (.inr has)
  unfold HandleCache.ih_copy
  rw [if_neg (by omega)]
  exact ⟨_, rfl, b.refer (books.held i (.inr has))⟩

theorem Balanced.hold (b : s.Balanced h) (hashed : i ∈ s.ihashTable) :
    (s.setRefcnt i ((s.ih i).ih_refcnt + 1)).Balanced (.hold i ::ₘ h) :=
  balanced_cons.mpr (Books.refer b (.inl rfl) hashed)

theorem mem_chain {ihash : ℕ} (here : i ∈ s.chain ihash) : i ∈ s.ihashTable := (List.mem_filter.mp here).1

theorem caller_nextChain (ihash : ℕ) : caller (nextChain ihash) = 0 := by
  unfold nextChain
  split
  · rfl
  · rfl

theorem Balanced.ih_sync_all {point : SyncPoint} (b : s.Balanced point.items) :
    ∃ s', s.ih_sync_all point = some s' ∧ s'.Balanced 0 := by
  cases point with
  | chain ihash =>
    unfold HandleCache.ih_sync_all
    simp only
    split
    · next i rest first =>
      refine ⟨_, rfl, ?_⟩
      apply Balanced.park (t := .sync (.visit ihash i))
      exact Balanced.hold b (mem_chain (first ▸ List.mem_cons_self : i ∈ s.chain ihash))
    refine ⟨_, rfl, ?_⟩
    apply Balanced.closeDone
    rw [caller_nextChain]
    exact b
  | visit ihash i =>
    unfold HandleCache.ih_sync_all
    simp only
    split
    · apply Balanced.ih_open
      exact Books.synced b i false
    · refine ⟨_, rfl, ?_⟩
      exact Balanced.park (t := .sync (.leave ihash i)) b
  | opened ihash i f =>
    apply Balanced.fd_close
    have b : s.Balanced {.hold i, .use f} := b
    rw [Multiset.pair_comm] at b
    exact b
  | leave ihash i =>
    unfold HandleCache.ih_sync_all
    simp only
    split
    · next following found =>
      refine ⟨_, rfl, ?_⟩
      apply Balanced.drop
      have hashed : following ∈ s.ihashTable := mem_chain (mem_of_getElem? found)
      have b : (s.setRefcnt following ((s.ih following).ih_refcnt + 1)).Balanced (.hold following ::ₘ {.hold i}) :=
        Balanced.hold b hashed
      rw [show (.hold following ::ₘ {.hold i} : Multiset Item) = .hold i ::ₘ {.hold following} from
        Multiset.pair_comm _ _] at b
      exact b
    · refine ⟨_, rfl, ?_⟩
      apply Balanced.drop
      rw [caller_nextChain]
      exact b

theorem plain_point {point : SyncPoint} (here : x ∈ point.items) : (∀ i d, x ≠ .fresh i d) ∧ ∀ i, x ≠ .borrow i := by
  cases point with
  | chain => cases notMem_zero _ here
  | visit _ i =>
    have same : x = .hold i := Multiset.mem_singleton.mp here
    simp [same]
  | leave _ i =>
    have same : x = .hold i := Multiset.mem_singleton.mp here
    simp [same]
  | opened _ i f =>
    have either : x = .hold i ∨ x = .use f := by simpa [SyncPoint.items] using here
    rcases either with rfl | rfl <;> simp

theorem plain_caller (here : x ∈ caller next) : (∀ i d, x ≠ .fresh i d) ∧ ∀ i, x ≠ .borrow i := by
  cases next with
  | none => cases notMem_zero _ here
  | some point => exact plain_point here

def Special (t : Task) (x : Item) : Prop :=
  (∀ i d, x = .fresh i d → t.opening = some i) ∧ ∀ i, x = .borrow i → t.borrows = some i

theorem special_of_plain (plain : (∀ i d, x ≠ .fresh i d) ∧ ∀ i, x ≠ .borrow i) : Special t x :=
  ⟨fun i d same => absurd same (plain.1 i d), fun i same => absurd same (plain.2 i)⟩

theorem special_opener (rely : sync = none → t.borrows = some i) : Special t (opener sync i) := by
  cases sync with
  | none =>
    constructor
    · intro j d same
      cases same
    · intro j same
      cases same
      exact rely rfl
  | some ihash => exact special_of_plain (by simp [opener])

theorem special_items (here : x ∈ t.items) : Special t x := by
  have plain : ((∀ i d, x ≠ .fresh i d) ∧ ∀ i, x ≠ .borrow i) → Special t x := special_of_plain
  cases t with
  | ref i =>
    have same : x = .lend i := Multiset.mem_singleton.mp here
    exact plain (by simp [same])
  | fd f =>
    have same : x = .use f := Multiset.mem_singleton.mp here
    exact plain (by simp [same])
  | iopen sync j =>
    have either : x = opener sync j ∨ x = .pending := by simpa [Task.items] using here
    rcases either with rfl | rfl
    · exact special_opener fun user => by rw [user]; rfl
    · exact plain (by simp)
  | iopened sync j fd =>
    have either : x = opener sync j ∨ x = .pending ∨ ∃ d, fd = .ok d ∧ x = .fresh j d := by
      cases fd <;> simpa [Task.items] using here
    rcases either with rfl | rfl | ⟨d, rfl, rfl⟩
    · exact special_opener fun user => by rw [user]; rfl
    · exact plain (by simp)
    constructor
    · intro i e same
      cases same
      rfl
    · intro i same
      cases same
  | retry sync j =>
    have either : x = opener sync j ∨ x = .pending ∨ x = .retry := by simpa [Task.items] using here
    rcases either with rfl | rfl | rfl
    · exact special_opener fun user => by rw [user]; rfl
    · exact plain (by simp)
    · exact plain (by simp)
  | swap sync j f =>
    have either : x = .use f ∨ x = .pending ∨ x ∈ keeper sync j := by simpa [Task.items] using here
    rcases either with rfl | rfl | kept
    · exact plain (by simp)
    · exact plain (by simp)
    cases sync with
    | none => cases notMem_zero _ kept
    | some ihash =>
      have same : x = .hold j := Multiset.mem_singleton.mp kept
      exact plain (by simp [same])
  | reallyclose next f =>
    have either : x = .use f ∨ x ∈ caller next := by simpa [Task.items] using here
    rcases either with rfl | there
    · exact plain (by simp)
    · exact plain (plain_caller there)
  | close next j =>
    have either : x = .hold j ∨ x = .pending ∨ x ∈ caller next := by simpa [Task.items] using here
    rcases either with rfl | rfl | there
    · exact plain (by simp)
    · exact plain (by simp)
    · exact plain (plain_caller there)
  | release next j =>
    have either : x = .hold j ∨ x ∈ caller next := by simpa [Task.items] using here
    rcases either with rfl | there
    · exact plain (by simp)
    · exact plain (plain_caller there)
  | fdclose next j queue last =>
    rcases Multiset.mem_add.mp here with inQueue | there
    · rcases Books.mem_queued.mp inQueue with ⟨f, -, rfl⟩
      exact plain (by simp)
    rcases Multiset.mem_add.mp there with there | there
    · cases last with
      | false => cases notMem_zero _ there
      | true =>
        have same : x = .last j := Multiset.mem_singleton.mp there
        exact plain (by simp [same])
    · exact plain (plain_caller there)
  | sync point => exact plain (plain_point here)

theorem mem_task (here : x ∈ s.items) : ∃ t ∈ s.tasks, Special t x := by
  rcases Multiset.mem_bind.mp here with ⟨t, task, inside⟩
  exact ⟨t, task, special_items inside⟩

theorem Balanced.resume {outcome : OpenResult} (b : s.Balanced t.items)
    (room : ∀ sync i, t = .iopened sync i .emfile → s.fdLru = []) :
    ∃ s', s.resume t outcome = some s' ∧ s'.Balanced 0 := by
  cases t with
  | ref i => exact ⟨_, rfl, b.park⟩
  | fd f => exact ⟨_, rfl, b.park⟩
  | iopen sync i => exact ⟨_, rfl, b.os_iopen outcome⟩
  | iopened sync i fd => exact b.ih_open_finish fun same => room sync i (by rw [same])
  | retry sync i =>
    have bad : .retry ∈ (Task.retry sync i ‹ℕ›).items + s.items :=
      Multiset.mem_add.mpr (.inl (by simp [Task.items]))
    exact absurd bad (Books.steady b)
  | swap sync i f =>
    refine ⟨_, rfl, ?_⟩
    apply Balanced.openDone
    have b : s.Balanced (.use f ::ₘ .pending ::ₘ keeper sync i) := b
    rw [balanced_swap] at b
    exact (balanced_cons.mp b).unpend
  | reallyclose next f => exact b.fd_reallyclose
  | close next i => exact ⟨_, rfl, b.fd_reallyclose_finish⟩
  | release next i => exact b.ih_release
  | fdclose next i queue last => exact b.ih_fdclose_finish
  | sync point => exact b.ih_sync_all

theorem Balanced.act {a : HandleAction} (b : s.Balanced 0) (enabled : s.Enabled a) (met : s.Met a) :
    ∃ s', s.act a = some s' ∧ s'.Balanced 0 := by
  cases a with
  | ih_init name => exact b.ih_init name
  | ih_copy i => exact b.ih_copy (b.of_ref enabled).1
  | ih_open i =>
    have relied : s.Balanced {opener none i} := by
      apply balanced_cons.mpr
      rw [Multiset.zero_add]
      exact (balanced_zero.mp b).note (d := 0) (.inl ⟨rfl, (b.of_ref enabled).1⟩)
    exact relied.ih_open
  | fd_close f =>
    have taken : (s.take (.fd f)).Balanced (.use f ::ₘ caller none) := b.take enabled
    exact taken.fd_close
  | fd_reallyclose f =>
    have taken : (s.take (.fd f)).Balanced (.use f ::ₘ caller none) := b.take enabled
    exact taken.fd_reallyclose
  | fd_sync f =>
    unfold HandleCache.act
    simp only
    split
    · next i record =>
      refine ⟨_, rfl, ?_⟩
      exact Books.synced b i true
    · exact ⟨_, rfl, b⟩
  | ih_reallyclose i =>
    apply b.ih_reallyclose (b.of_ref enabled).1
    intro d there
    rcases mem_task there with ⟨t, task, special⟩
    exact met (Multiset.mem_map.mpr ⟨t, task, special.1 i d rfl⟩)
  | ih_release i =>
    have taken : (s.take (.ref i)).Balanced {.lend i} := b.take enabled.1
    suffices held : (s.take (.ref i)).Balanced (.hold i ::ₘ caller none) from held.ih_release
    apply balanced_cons.mpr
    apply (balanced_cons.mp taken).unlend
    intro relied
    rw [Multiset.zero_add] at relied ⊢
    rcases mem_task relied with ⟨t, task, special⟩
    have borrows : some i ∈ s.tasks.map Task.borrows :=
      Multiset.mem_map.mpr ⟨t, Multiset.mem_of_mem_erase task, special.2 i rfl⟩
    exact mem_items (t := .ref i) (enabled.2 borrows) (Multiset.mem_singleton_self _)
  | ih_sync_all =>
    refine ⟨_, rfl, ?_⟩
    exact Balanced.park (t := .sync (.chain 0)) b
  | resume t outcome =>
    have taken := b.take enabled
    apply taken.resume
    intro sync i same
    rw [same] at met
    exact met

theorem Balanced.step {a : HandleAction} (b : s.Balanced 0) (met : s.Met a) (taken : s.step a = some s') : s'.Balanced 0 := by
  rcases Option.ite_none_right_eq_some.mp taken with ⟨enabled, done⟩
  rcases b.act enabled met with ⟨t, acted, b'⟩
  rw [acted, Option.getD_some] at done
  cases done
  exact b'

theorem Start.balanced (start : s.Start) : s.Balanced 0 := by
  have nothing : s.items = 0 := by
    unfold items
    rw [start.tasks]
    rfl
  apply balanced_zero.mpr
  rw [nothing]
  constructor
  · intro f
    rw [start.fdAvail, start.fdLru, start.fdNew]
    rfl
  · rw [start.fdAvail]
    exact fun f there => absurd there not_mem_nil
  · rw [start.fdLru]
    exact fun f there => absurd there not_mem_nil
  · exact fun f there => absurd there (notMem_zero _)
  · rw [start.ihashTable]
    exact fun i there => absurd there not_mem_nil
  · rw [start.ihashTable]
    exact fun i there => absurd there not_mem_nil
  · rw [start.fdInUseCount, start.fdLru]
    rfl
  · intro i
    rw [start.ihAvail, start.ihashTable, start.ihNew]
    rfl
  · intro i small
    rw [start.ihNew] at small
    cases small
  · intro i has
    rcases has with there | there
    · cases notMem_zero _ there
    · cases notMem_zero _ there
  · rw [start.ihashTable]
    exact fun i there => absurd there not_mem_nil
  · exact fun i there => absurd there (notMem_zero _)
  · exact fun i d there => absurd there (notMem_zero _)
  · intro i
    rw [start.closedAt, start.opens]
  · exact notMem_zero _
  · exact start.asserted

theorem Balanced.sound (b : s.Balanced 0) : s.Sound := by
  have books := balanced_zero.mp b
  have listed : ∀ f i, (s.fd f).fd_ih = some i → i ∈ s.ihashTable → f ∈ (s.ih i).ih_fds →
      ∀ j ∈ s.ihashTable, f ∈ (s.ih j).ih_fds ↔ j = i := by
    intro f i record hashed mine j hj
    constructor
    · intro there
      have back := (books.named j hj f there).1
      rw [record] at back
      exact (Option.some_inj.mp back).symm
    · intro same
      rw [same]
      exact mine
  constructor
  · exact books.total
  · exact books.places
  · intro f place
    by_cases lru : f ∈ s.fdLru
    · rcases books.cached f lru with ⟨i, d, tells, hashed, mine, -⟩
      rw [if_pos lru]
      exact ⟨i, d, tells, hashed, listed f i (by rw [tells]) hashed mine⟩
    · rcases books.used f (place.resolve_left lru) with ⟨i, d, tells, hashed, mine, -⟩
      rw [if_neg lru]
      exact ⟨i, d, tells, hashed, listed f i (by rw [tells]) hashed mine⟩
  · intro i hashed
    have handle := books.handles i
    have pos := List.count_pos_iff.mpr hashed
    rw [if_pos (books.new_of_hashed hashed)] at handle
    have count := books.refcnt i (books.new_of_hashed hashed)
    omega
  · exact books.unique
  · intro f lru i d record
    rcases books.cached f lru with ⟨j, e, tells, -, -, old, -⟩
    rw [record] at tells
    cases tells
    exact old
  · intro sync i d task
    apply books.fresh i d
    exact mem_items task (by simp [Task.items])
  · exact books.running

end HandleCache

/-- In every run in which no descriptor is taken from the cache for want of others, and no handle is closed in the middle
of an open of it. -/
theorem inode_handles_balance (s : HandleCache) (reached : handleCache.ReachWhere HandleCache.Met s) : s.Sound := by
  have balanced : s.Balanced 0 := by
    apply reached.invariant
    · exact fun s start => start.balanced
    · exact fun s a s' b met taken => b.step met taken
  exact balanced.sound

def emptyCache : HandleCache where
  ih := fun _ => ⟨⟨0, 0, 0⟩, false, false, 0, []⟩
  ihNew := 0
  ihAvail := []
  ihashTable := []
  fd := fun _ => .closed
  fdNew := 0
  fdAvail := []
  fdLru := []
  fdCacheSize := 127
  fdInUseCount := 0
  tasks := 0
  opens := 0
  closedAt := fun _ => 0
  asserted := false

theorem emptyCache_start : emptyCache.Start := ⟨rfl, rfl, rfl, rfl, rfl, rfl, rfl, rfl, rfl, fun _ => rfl, rfl⟩

def openFile (ihP : ℕ) (fd : OpenResult) (opened : OpenResult) : List HandleAction :=
  [.ih_open ihP, .resume (.iopen none ihP) fd, .resume (.iopened none ihP opened) .error]

/-- A file is opened, synced, cached and opened again, and closed for good while it is in use. -/
def openAndClose : List HandleAction :=
  [.ih_init ⟨1, 5, 7⟩] ++ openFile 0 (.ok 0) (.ok 0) ++ [.fd_sync 0, .fd_close 0, .ih_sync_all,
    .resume (.sync (.chain 0)) .error, .ih_copy 0, .ih_open 0, .ih_reallyclose 0, .fd_close 0,
    .resume (.reallyclose none 0) .error, .resume (.close none 0 0) .error] ++ openFile 0 (.ok 0) (.ok 1) ++
  [.fd_close 1, .ih_reallyclose 0, .resume (.fdclose none 0 [1] false) .error, .ih_release 0, .ih_release 0]

def opensAndCloses : HandleCache :=
  (handleCache.runWhere HandleCache.Met emptyCache openAndClose).get (by decide +kernel)

theorem inode_handles_balance_opened : opensAndCloses.Sound ∧ opensAndCloses.opens = 2 := by
  have ran : handleCache.runWhere HandleCache.Met emptyCache openAndClose = some opensAndCloses :=
    (Option.some_get _).symm
  exact ⟨inode_handles_balance opensAndCloses (Machine.ReachWhere.runWhere (.start emptyCache_start) ran), by decide +kernel⟩

def openWithoutRoom : List HandleAction :=
  [.ih_init ⟨1, 5, 7⟩] ++ openFile 0 (.ok 0) (.ok 0) ++ [.fd_close 0, .ih_init ⟨1, 5, 8⟩] ++ openFile 1 .emfile .emfile ++
    [.resume (.retry none 1 0) .error]

def outOfRoom : HandleCache := (handleCache.run emptyCache openWithoutRoom).get (by decide +kernel)

def closeWhileOpening : List HandleAction :=
  [.ih_init ⟨1, 5, 7⟩, .ih_open 0, .resume (.iopen none 0) (.ok 0), .ih_reallyclose 0,
    .resume (.iopened none 0 (.ok 0)) .error, .fd_close 0]

def closedWhileOpening : HandleCache := (handleCache.run emptyCache closeWhileOpening).get (by decide +kernel)

/-- The retry counts a descriptor that is closed, and the open brings one back that was to be closed. -/
theorem retry_and_late_open : (¬ ∀ s, handleCache.Reach s →
      s.fdInUseCount = s.fdLru.length + s.items.countP Item.IsOpen + s.items.count .pending) ∧
    ¬ ∀ s, handleCache.Reach s → ∀ f ∈ s.fdLru, ∀ i d, s.fd f = ⟨.open, some d, some i⟩ → s.closedAt i ≤ d := by
  constructor
  · intro claimed
    have ran : handleCache.run emptyCache openWithoutRoom = some outOfRoom := (Option.some_get _).symm
    have count := claimed outOfRoom (Machine.Reach.run (.start emptyCache_start) ran)
    have two : outOfRoom.fdInUseCount = 2 := by decide +kernel
    have empty : outOfRoom.fdLru.length = 0 := by decide +kernel
    have closed : outOfRoom.items.countP Item.IsOpen = 0 := by decide +kernel
    have pending : outOfRoom.items.count .pending = 1 := by decide +kernel
    rw [two, empty, closed, pending] at count
    cases count
  · intro claimed
    have ran : handleCache.run emptyCache closeWhileOpening = some closedWhileOpening := (Option.some_get _).symm
    have cached : 0 ∈ closedWhileOpening.fdLru := by decide +kernel
    have record : closedWhileOpening.fd 0 = ⟨.open, some 0, some 0⟩ := by decide +kernel
    have closed : closedWhileOpening.closedAt 0 = 1 := by decide +kernel
    have old := claimed closedWhileOpening (Machine.Reach.run (.start emptyCache_start) ran) 0 cached 0 0 record
    rw [closed] at old
    cases old

end OpenAFS.Vol
