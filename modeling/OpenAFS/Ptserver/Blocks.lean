import OpenAFS.Ptserver.Threads

namespace OpenAFS.Ptserver

open Function (update update_self update_of_ne)
open Lib List PrDb

inductive Role where
  | none
  | entry
  | cont (e : Nat)
  | free
  /-- Taken from the free list or the end of the file by the transaction that runs, and not yet used. -/
  | loose
  deriving DecidableEq

def PrDb.IsBlock (db : PrDb) (b : Nat) : Prop := ∃ n, b = headerSize + entrySize * n ∧ b < db.header.eofPtr

structure Roles (db : PrDb) (role : Nat → Role) (conts : Nat → List Nat) (free : List Nat) : Prop where
  blocks : ∀ b, db.IsBlock b ↔ role b ≠ .none
  aligned : ∃ n, db.header.eofPtr = headerSize + entrySize * n
  contLists : ∀ e, role e = .entry → Linked db.load Slot.next (.next e) (conts e)
  onList : ∀ e c, role e = .entry → (c ∈ conts e ↔ role c = .cont e)
  owner : ∀ e c, role c = .cont e → role e = .entry
  freeList : Linked db.load Slot.next .freePtr free
  onFreeList : ∀ c, c ∈ free ↔ role c = .free
  entries : ∀ b, role b = .entry → db.IsEntry b ∧ (db.entry b).flags &&& (prFree ||| prCont) = 0
  continued : ∀ e c, role c = .cont e → (db.cont c).flags = prCont
  unused : ∀ b, role b = .free → (db.entry b).flags = prFree

theorem next_injective : Function.Injective Slot.next := by
  intro b c same
  cases same
  rfl

theorem update_role {role : Nat → Role} {b c : Nat} {r r' : Role} (other : r ≠ r') :
    update role b r' c = r ↔ c ≠ b ∧ role c = r := by
  by_cases equal : c = b
  · rw [equal, update_self]
    simp [Ne.symm other]
  · simp [equal]

namespace Roles

variable {db db' : PrDb} {role : Nat → Role} {conts : Nat → List Nat} {free : List Nat}

variable {b : Nat}

theorem isBlock (roles : Roles db role conts free) (known : role b ≠ .none) : db.IsBlock b :=
  (roles.blocks b).mpr known

theorem ne_zero (roles : Roles db role conts free) (known : role b ≠ .none) : b ≠ 0 := by
  obtain ⟨n, here, -⟩ := roles.isBlock known
  unfold headerSize at here
  omega

theorem lt_eof (roles : Roles db role conts free) (known : role b ≠ .none) : b < db.header.eofPtr := by
  obtain ⟨n, -, below⟩ := roles.isBlock known
  exact below

theorem congr (roles : Roles db role conts free) (eof : db'.header.eofPtr = db.header.eofPtr)
    (first : db'.header.freePtr = db.header.freePtr)
    (next : ∀ b, role b ≠ .none → role b ≠ .loose → (db'.entry b).next = (db.entry b).next)
    (entries : ∀ b, role b = .entry → db'.IsEntry b ∧ (db'.entry b).flags &&& (prFree ||| prCont) = 0)
    (continued : ∀ e c, role c = .cont e → (db'.cont c).flags = prCont)
    (unused : ∀ b, role b = .free → (db'.entry b).flags = prFree) : Roles db' role conts free := by
  refine ⟨?_, ?_, ?_, roles.onList, roles.owner, ?_, roles.onFreeList, entries, continued, unused⟩
  · intro b
    unfold PrDb.IsBlock
    rw [eof]
    exact roles.blocks b
  · rw [eof]
    exact roles.aligned
  · intro e here
    apply (roles.contLists e here).congr
    · exact next e (by simp [here]) (by simp [here])
    · intro c inside
      have known := (roles.onList e c here).mp inside
      exact next c (by simp [known]) (by simp [known])
  · apply roles.freeList.congr
    · exact first
    · intro c inside
      have known := (roles.onFreeList c).mp inside
      exact next c (by simp [known]) (by simp [known])

theorem onlyLinks (roles : Roles db role conts free) (only : OnlyLinks db db') : Roles db' role conts free := by
  have next (b : Nat) : (db'.entry b).next = (db.entry b).next := congrArg (fun d => d.next) (only.data b)
  have flags (b : Nat) : (db'.entry b).flags = (db.entry b).flags := congrArg (fun d => d.flags) (only.data b)
  apply roles.congr only.eofPtr only.freePtr (fun b _ _ => next b)
  · intro b here
    rw [only.form, flags]
    exact roles.entries b here
  · intro e c here
    rw [only.cont]
    exact roles.continued e c here
  · intro b here
    rw [flags]
    exact roles.unused b here

theorem putEntry (roles : Roles db role conts free) {e : PrEntry} (here : role b = .entry)
    (next : e.next = (db.entry b).next) (flags : e.flags &&& (prFree ||| prCont) = 0) :
    Roles (db.putEntry b e) role conts free := by
  apply @congr db (db.putEntry b e) _ _ _ roles rfl rfl
  · intro c _ _
    rw [entry_putEntry]
    split
    · rename_i same
      rw [same, next]
    · rfl
  · intro c known
    rw [isEntry_putEntry, entry_putEntry]
    split
    · rename_i same
      exact ⟨.inl same, flags⟩
    · exact ⟨.inr (roles.entries c known).1, (roles.entries c known).2⟩
  · intro e' c known
    have other : c ≠ b := by
      rintro rfl
      rw [here] at known
      cases known
    rw [cont_putEntry, if_neg other]
    exact roles.continued e' c known
  · intro c known
    have other : c ≠ b := by
      rintro rfl
      rw [here] at known
      cases known
    rw [entry_putEntry, if_neg other]
    exact roles.unused c known

theorem putCont (roles : Roles db role conts free) {e c : Nat} {x : ContEntry} (here : role c = .cont e)
    (next : x.next = (db.cont c).next) (flags : x.flags = prCont) : Roles (db.putCont c x) role conts free := by
  rw [cont_next] at next
  apply @congr db (db.putCont c x) _ _ _ roles rfl rfl
  · intro b _ _
    rw [entry_putCont]
    split
    · rename_i same
      rw [same, ← next]
    · rfl
  · intro b known
    have other : b ≠ c := by
      rintro rfl
      rw [here] at known
      cases known
    rw [isEntry_putCont, entry_putCont, if_neg other]
    exact ⟨⟨other, (roles.entries b known).1⟩, (roles.entries b known).2⟩
  · intro e' d known
    rw [cont_putCont]
    split
    · exact flags
    · exact roles.continued e' d known
  · intro b known
    have other : b ≠ c := by
      rintro rfl
      rw [here] at known
      cases known
    rw [entry_putCont, if_neg other]
    exact roles.unused b known

theorem take (roles : Roles db role conts free) {free' : List Nat} (known : role b = .none ∨ role b = .free)
    (block : db'.block = db.block) (here : db'.IsBlock b) (blocks : ∀ c ≠ b, db'.IsBlock c ↔ db.IsBlock c)
    (aligned : ∃ n, db'.header.eofPtr = headerSize + entrySize * n)
    (freeList : Linked db'.load Slot.next .freePtr free') (onFreeList : ∀ c, c ∈ free' ↔ c ≠ b ∧ c ∈ free) :
    Roles db' (update role b .loose) conts free' := by
  have entry : db'.entry = db.entry := by
    unfold PrDb.entry
    rw [block]
  have cont : db'.cont = db.cont := by
    unfold PrDb.cont
    rw [block]
  have unlike {c : Nat} {r : Role} (old : role c = r) (used : r ≠ .none ∧ r ≠ .free) : c ≠ b := by
    rintro rfl
    rw [old] at known
    exact known.elim used.1 used.2
  refine ⟨?_, aligned, ?_, ?_, ?_, freeList, ?_, ?_, ?_, ?_⟩
  · intro c
    by_cases equal : c = b
    · rw [equal, update_self]
      exact iff_of_true here (by simp)
    · rw [update_of_ne equal, blocks c equal]
      exact roles.blocks c
  · intro e known'
    apply (roles.contLists e ((update_role (by simp)).mp known').2).congr
    · rw [load_next, load_next, entry]
    · intro c _
      rw [load_next, load_next, entry]
  · intro e c known'
    rw [roles.onList e c ((update_role (by simp)).mp known').2, update_role (by simp), and_iff_right_of_imp]
    exact fun used => unlike used (by simp)
  · intro e c known'
    have used := roles.owner e c ((update_role (by simp)).mp known').2
    exact (update_role (by simp)).mpr ⟨unlike used (by simp), used⟩
  · intro c
    rw [onFreeList, roles.onFreeList, update_role (by simp)]
  · intro c known'
    unfold PrDb.IsEntry
    rw [block, entry]
    exact roles.entries c ((update_role (by simp)).mp known').2
  · intro e c known'
    rw [cont]
    exact roles.continued e c ((update_role (by simp)).mp known').2
  · intro c known'
    rw [entry]
    exact roles.unused c ((update_role (by simp)).mp known').2

theorem allocBlock (roles : Roles db role conts free) :
    ∃ free', Roles db.allocBlock.1 (update role db.allocBlock.2 .loose) conts free' ∧
      (role db.allocBlock.2 = .none ∨ role db.allocBlock.2 = .free) := by
  unfold PrDb.allocBlock
  by_cases more : db.header.freePtr ≠ 0
  · rw [if_pos more]
    cases free with
    | nil => exact absurd roles.freeList more
    | cons b rest =>
      have linked := roles.freeList
      have here : db.header.freePtr = b := linked.1
      have known : role b = .free := (roles.onFreeList b).mp mem_cons_self
      have once := List.nodup_cons.mp linked.nodup
      refine ⟨rest, ?_, here ▸ .inr known⟩
      refine roles.take ?_ ?_ ?_ ?_ ?_ ?_ ?_
      · exact here ▸ .inr known
      · rfl
      · rw [here]
        exact roles.isBlock (by simp [known])
      · exact fun c _ => Iff.rfl
      · exact roles.aligned
      · rw [here]
        refine Linked.move (a := .next b) (linked.2.2.congr ?_ ?_) rfl
        · rfl
        · exact fun _ _ => rfl
      · intro c
        rw [here, mem_cons]
        constructor
        · intro inside
          refine ⟨?_, .inr inside⟩
          rintro rfl
          exact once.1 inside
        · exact fun other => other.2.resolve_left other.1
  rw [if_neg more]
  obtain ⟨n, aligned⟩ := roles.aligned
  have fresh : role db.header.eofPtr = .none := by
    by_contra known
    exact absurd (roles.lt_eof known) (Nat.lt_irrefl _)
  refine ⟨free, ?_, .inl fresh⟩
  refine roles.take (.inl fresh) ?_ ?_ ?_ ?_ ?_ ?_
  · rfl
  · refine ⟨n, aligned, ?_⟩
    change db.header.eofPtr < db.header.eofPtr + entrySize
    unfold entrySize
    omega
  · intro c other
    unfold PrDb.IsBlock
    dsimp only
    constructor
    · rintro ⟨m, here, below⟩
      refine ⟨m, here, ?_⟩
      unfold entrySize at *
      omega
    · rintro ⟨m, here, below⟩
      refine ⟨m, here, ?_⟩
      omega
  · refine ⟨n + 1, ?_⟩
    change db.header.eofPtr + entrySize = _
    unfold entrySize at *
    omega
  · exact roles.freeList.congr rfl fun _ _ => rfl
  · intro c
    rw [and_iff_right_of_imp]
    rintro inside rfl
    have known := (roles.onFreeList _).mp inside
    rw [fresh] at known
    cases known

theorem freeBlock (roles : Roles db role conts free) (here : role b = .loose) :
    Roles (db.freeBlock b) (update role b .free) conts (b :: free) := by
  have nonzero := roles.ne_zero (b := b) (by simp [here])
  have entry (c : Nat) (other : c ≠ b) : (db.freeBlock b).entry c = db.entry c := by
    rw [PrDb.freeBlock, entry_putEntry, if_neg other, entry_header]
  have unlike {c : Nat} {r : Role} (old : role c = r) (used : r ≠ .loose) : c ≠ b := by
    rintro rfl
    exact used (old.symm.trans here)
  refine ⟨?_, roles.aligned, ?_, ?_, ?_, ?_, ?_, ?_, ?_, ?_⟩
  · intro c
    by_cases equal : c = b
    · rw [equal, update_self]
      exact iff_of_true (roles.isBlock (by simp [here])) (by simp)
    · rw [update_of_ne equal]
      exact roles.blocks c
  · intro e known
    have used := ((update_role (by simp)).mp known).2
    apply (roles.contLists e used).congr
    · rw [load_next, load_next, entry e (unlike used (by simp))]
    · intro c inside
      rw [load_next, load_next, entry c (unlike ((roles.onList e c used).mp inside) (by simp))]
  · intro e c known
    rw [roles.onList e c ((update_role (by simp)).mp known).2, update_role (by simp), and_iff_right_of_imp]
    exact fun used => unlike used (by simp)
  · intro e c known
    have used := roles.owner e c ((update_role (by simp)).mp known).2
    exact (update_role (by simp)).mpr ⟨unlike used (by simp), used⟩
  · apply roles.freeList.push nonzero
    · rfl
    · rw [load_next, PrDb.freeBlock, entry_putEntry, if_pos rfl]
      rfl
    · intro c inside
      rw [load_next, load_next, entry c (unlike ((roles.onFreeList c).mp inside) (by simp))]
  · intro c
    rw [mem_cons, roles.onFreeList]
    by_cases equal : c = b
    · simp [equal]
    · rw [update_of_ne equal, or_iff_right equal]
  · intro c known
    have used := ((update_role (by simp)).mp known).2
    rw [entry c (unlike used (by simp)), PrDb.freeBlock, isEntry_putEntry, isEntry_header]
    exact ⟨.inr (roles.entries c used).1, (roles.entries c used).2⟩
  · intro e c known
    have used := ((update_role (by simp)).mp known).2
    rw [PrDb.freeBlock, cont_putEntry, if_neg (unlike used (by simp)), cont_header]
    exact roles.continued e c used
  · intro c known
    by_cases equal : c = b
    · rw [equal, PrDb.freeBlock, entry_putEntry, if_pos rfl]
    · rw [update_of_ne equal] at known
      rw [entry c equal]
      exact roles.unused c known

theorem newEntry (roles : Roles db role conts free) {e : PrEntry} (here : role b = .loose) (next : e.next = 0)
    (flags : e.flags &&& (prFree ||| prCont) = 0) :
    Roles (db.putEntry b e) (update role b .entry) (update conts b []) free := by
  have entry (c : Nat) (other : c ≠ b) : (db.putEntry b e).entry c = db.entry c := by
    rw [entry_putEntry, if_neg other]
  have unlike {c : Nat} {r : Role} (old : role c = r) (used : r ≠ .loose) : c ≠ b := by
    rintro rfl
    exact used (old.symm.trans here)
  have orphaned (c : Nat) : role c ≠ .cont b := by
    intro known
    have used := roles.owner b c known
    rw [here] at used
    cases used
  refine ⟨?_, roles.aligned, ?_, ?_, ?_, ?_, ?_, ?_, ?_, ?_⟩
  · intro c
    by_cases equal : c = b
    · rw [equal, update_self]
      exact iff_of_true (roles.isBlock (by simp [here])) (by simp)
    · rw [update_of_ne equal]
      exact roles.blocks c
  · intro a known
    by_cases equal : a = b
    · rw [equal, update_self]
      change (db.putEntry b e).load (.next b) = 0
      rw [load_next, entry_putEntry, if_pos rfl, next]
    rw [update_of_ne equal] at known ⊢
    apply (roles.contLists a known).congr
    · rw [load_next, load_next, entry a equal]
    · intro c inside
      rw [load_next, load_next, entry c (unlike ((roles.onList a c known).mp inside) (by simp))]
  · intro a c known
    rw [update_role (by simp), and_iff_right_of_imp fun used => unlike used (by simp)]
    by_cases equal : a = b
    · rw [equal, update_self]
      exact iff_of_false (by simp) (orphaned c)
    · rw [update_of_ne equal] at known ⊢
      exact roles.onList a c known
  · intro a c known
    have used := roles.owner a c ((update_role (by simp)).mp known).2
    rw [update_of_ne (unlike used (by simp)), used]
  · apply roles.freeList.congr
    · rfl
    · intro c inside
      rw [load_next, load_next, entry c (unlike ((roles.onFreeList c).mp inside) (by simp))]
  · intro c
    rw [roles.onFreeList, update_role (by simp), and_iff_right_of_imp]
    exact fun used => unlike used (by simp)
  · intro c known
    rw [isEntry_putEntry, entry_putEntry]
    by_cases equal : c = b
    · rw [if_pos equal]
      exact ⟨.inl equal, flags⟩
    · rw [update_of_ne equal] at known
      rw [if_neg equal]
      exact ⟨.inr (roles.entries c known).1, (roles.entries c known).2⟩
  · intro a c known
    have used := ((update_role (by simp)).mp known).2
    rw [cont_putEntry, if_neg (unlike used (by simp))]
    exact roles.continued a c used
  · intro c known
    have used := ((update_role (by simp)).mp known).2
    rw [entry c (unlike used (by simp))]
    exact roles.unused c used

theorem drop (roles : Roles db role conts free) (here : role b = .entry) :
    Roles db (fun c => if c = b ∨ role c = .cont b then .loose else role c) conts free := by
  have kept {c : Nat} {r : Role} (other : r ≠ .loose) :
      (if c = b ∨ role c = .cont b then .loose else role c) = r ↔ ¬ (c = b ∨ role c = .cont b) ∧ role c = r := by
    by_cases gone : c = b ∨ role c = .cont b
    · simp [gone, Ne.symm other]
    · simp [gone]
  refine ⟨?_, roles.aligned, ?_, ?_, ?_, roles.freeList, ?_, ?_, ?_, ?_⟩
  · intro c
    rw [roles.blocks]
    by_cases gone : c = b ∨ role c = .cont b
    · rw [if_pos gone]
      refine iff_of_true ?_ (by simp)
      rcases gone with rfl | cont
      · simp [here]
      · simp [cont]
    · rw [if_neg gone]
  · exact fun e known => roles.contLists e ((kept (by simp)).mp known).2
  · intro e c known
    obtain ⟨other, used⟩ := (kept (by simp)).mp known
    rw [roles.onList e c used, kept (by simp), and_iff_right_of_imp]
    rintro cont (rfl | mine)
    · rw [here] at cont
      cases cont
    · rw [cont] at mine
      cases mine
      exact other (.inl rfl)
  · intro e c known
    obtain ⟨other, cont⟩ := (kept (by simp)).mp known
    have used := roles.owner e c cont
    refine (kept (by simp)).mpr ⟨?_, used⟩
    rintro (rfl | mine)
    · exact other (.inr cont)
    · rw [used] at mine
      cases mine
  · intro c
    rw [roles.onFreeList, kept (by simp), and_iff_right_of_imp]
    rintro unused (rfl | mine)
    · rw [here] at unused
      cases unused
    · rw [unused] at mine
      cases mine
  · exact fun c known => roles.entries c ((kept (by simp)).mp known).2
  · exact fun e c known => roles.continued e c ((kept (by simp)).mp known).2
  · exact fun c known => roles.unused c ((kept (by simp)).mp known).2

theorem slotAfter_owner {e : Nat} {before : List Nat} (roles : Roles db role conts free) (here : role e = .entry)
    (known : ∀ c ∈ before, c ∈ conts e) :
    ∃ b, slotAfter Slot.next (.next e) before = .next b ∧ (b = e ∨ role b = .cont e) := by
  rcases @slotAfter_mem _ Slot.next (.next e) before with first | ⟨c, inside, later⟩
  · exact ⟨e, first, .inl rfl⟩
  · exact ⟨c, later, .inr ((roles.onList e c here).mp (known c inside))⟩

theorem appendCont (roles : Roles db role conts free) {e : Nat} (here : role e = .entry) (fresh : role b = .loose)
    (eof : db'.header.eofPtr = db.header.eofPtr) (first : db'.header.freePtr = db.header.freePtr)
    (last : db'.load (slotAfter Slot.next (.next e) (conts e)) = b) (end_ : (db'.entry b).next = 0)
    (next : ∀ c ≠ b, Slot.next c ≠ slotAfter Slot.next (.next e) (conts e) → (db'.entry c).next = (db.entry c).next)
    (entries : ∀ c, role c = .entry → db'.IsEntry c ∧ (db'.entry c).flags &&& (prFree ||| prCont) = 0)
    (continued : ∀ c, (∃ a, role c = .cont a) ∨ c = b → (db'.cont c).flags = prCont)
    (unused : ∀ c, role c = .free → (db'.entry c).flags = prFree) :
    Roles db' (update role b (.cont e)) (update conts e (conts e ++ [b])) free := by
  obtain ⟨q, slot, place⟩ := roles.slotAfter_owner here fun c inside => inside
  have unlike {c : Nat} {r : Role} (old : role c = r) (used : r ≠ .loose) : c ≠ b := by
    rintro rfl
    exact used (old.symm.trans fresh)
  have apart (c : Nat) (other : c ≠ e) (cont : role c ≠ .cont e) : Slot.next c ≠ slotAfter Slot.next (.next e) (conts e) := by
    rw [slot]
    intro same
    rw [next_injective same] at other cont
    exact place.elim other cont
  have linked := roles.contLists e here
  refine ⟨?_, eof ▸ roles.aligned, ?_, ?_, ?_, ?_, ?_, ?_, ?_, ?_⟩
  · intro c
    unfold PrDb.IsBlock
    rw [eof]
    by_cases equal : c = b
    · rw [equal, update_self]
      exact iff_of_true (roles.isBlock (by simp [fresh])) (by simp)
    · rw [update_of_ne equal]
      exact roles.blocks c
  · intro a known
    have used := ((update_role (by simp)).mp known).2
    by_cases equal : a = e
    · rw [equal, update_self]
      apply linked.snoc (roles.ne_zero (b := b) (by simp [fresh])) last end_
      · exact fun other => next e (unlike here (by simp)) other
      · exact fun c inside other => next c (unlike ((roles.onList e c here).mp inside) (by simp)) other
    rw [update_of_ne equal]
    apply (roles.contLists a used).congr
    · exact next a (unlike used (by simp)) (apart a equal (by simp [used]))
    intro c inside
    have cont := (roles.onList a c used).mp inside
    refine next c (unlike cont (by simp)) (apart c ?_ ?_)
    · rintro rfl
      rw [here] at cont
      cases cont
    · rw [cont]
      simpa using equal
  · intro a c known
    have used := ((update_role (by simp)).mp known).2
    by_cases equal : a = e
    · rw [equal, update_self, mem_append, mem_singleton, roles.onList e c here]
      by_cases same : c = b
      · simp [same]
      · rw [update_of_ne same, or_iff_left same]
    · rw [update_of_ne equal, update_role (by simpa using equal), roles.onList a c used,
        and_iff_right_of_imp fun cont => unlike cont (by simp)]
  · intro a c known
    by_cases same : c = b
    · rw [same, update_self] at known
      cases known
      rw [update_of_ne (unlike here (by simp)), here]
    · rw [update_of_ne same] at known
      have used := roles.owner a c known
      rw [update_of_ne (unlike used (by simp)), used]
  · apply roles.freeList.congr
    · exact first
    intro c inside
    have free := (roles.onFreeList c).mp inside
    refine next c (unlike free (by simp)) (apart c ?_ (by simp [free]))
    rintro rfl
    rw [here] at free
    cases free
  · intro c
    rw [roles.onFreeList, update_role (by simp), and_iff_right_of_imp]
    exact fun used => unlike used (by simp)
  · exact fun c known => entries c ((update_role (by simp)).mp known).2
  · intro a c known
    by_cases same : c = b
    · exact continued c (.inr same)
    · rw [update_of_ne same] at known
      exact continued c (.inl ⟨a, known⟩)
  · exact fun c known => unused c ((update_role (by simp)).mp known).2

theorem releaseCont (roles : Roles db role conts free) {e : Nat} {before after : List Nat} (here : role e = .entry)
    (split : conts e = before ++ b :: after) (eof : db'.header.eofPtr = db.header.eofPtr)
    (first : db'.header.freePtr = b) (old : (db'.entry b).next = db.header.freePtr)
    (slot : db'.load (slotAfter Slot.next (.next e) before) = (db.entry b).next)
    (next : ∀ c ≠ b, Slot.next c ≠ slotAfter Slot.next (.next e) before → (db'.entry c).next = (db.entry c).next)
    (entries : ∀ c, role c = .entry → db'.IsEntry c ∧ (db'.entry c).flags &&& (prFree ||| prCont) = 0)
    (continued : ∀ a c, role c = .cont a → c ≠ b → (db'.cont c).flags = prCont)
    (unused : ∀ c, role c = .free ∨ c = b → (db'.entry c).flags = prFree) :
    Roles db' (update role b .free) (update conts e (before ++ after)) (b :: free) := by
  have onList (c : Nat) : c ∈ before ++ b :: after ↔ role c = .cont e := by
    rw [← split]
    exact roles.onList e c here
  have mine : role b = .cont e := (onList b).mp (by simp)
  have linked := roles.contLists e here
  rw [split] at linked
  have once := linked.nodup
  have rest (c : Nat) : c ∈ before ++ after ↔ c ∈ before ++ b :: after ∧ c ≠ b := by
    rw [← filter_ne_of_nodup once, mem_filter, decide_eq_true_eq]
  obtain ⟨q, place, owner⟩ := @slotAfter_owner _ _ _ _ e before roles here (by
    intro c inside
    rw [split]
    exact mem_append_left _ inside)
  have unlike {c : Nat} {r : Role} (known : role c = r) (used : r ≠ .cont e) : c ≠ b := by
    rintro rfl
    exact used (known.symm.trans mine)
  have apart (c : Nat) (other : c ≠ e) (cont : role c ≠ .cont e) : Slot.next c ≠ slotAfter Slot.next (.next e) before := by
    rw [place]
    intro same
    rw [next_injective same] at other cont
    exact owner.elim other cont
  have entryNotCont (c a : Nat) (cont : role c = .cont a) : c ≠ e := by
    rintro rfl
    rw [here] at cont
    cases cont
  refine ⟨?_, eof ▸ roles.aligned, ?_, ?_, ?_, ?_, ?_, ?_, ?_, ?_⟩
  · intro c
    unfold PrDb.IsBlock
    rw [eof]
    by_cases equal : c = b
    · rw [equal, update_self]
      exact iff_of_true (roles.isBlock (by simp [mine])) (by simp)
    · rw [update_of_ne equal]
      exact roles.blocks c
  · intro a known
    have used := ((update_role (by simp)).mp known).2
    by_cases equal : a = e
    · rw [equal, update_self]
      apply linked.unlink next_injective
      · intro c inside same
        exact entryNotCont c e ((onList c).mp inside) (next_injective same)
      · exact slot
      · exact fun other => next e (unlike here (by simp)) other
      · exact fun c inside other => next c ((rest c).mp inside).2 other
    · rw [update_of_ne equal]
      apply (roles.contLists a used).congr
      · exact next a (unlike used (by simp)) (apart a equal (by simp [used]))
      · intro c inside
        have cont := (roles.onList a c used).mp inside
        exact next c (unlike cont (by simpa using equal)) (apart c (entryNotCont c a cont) (by simpa [cont] using equal))
  · intro a c known
    have used := ((update_role (by simp)).mp known).2
    rw [update_role (by simp)]
    by_cases equal : a = e
    · rw [equal, update_self, rest, onList, and_comm]
    · rw [update_of_ne equal, roles.onList a c used, and_iff_right_of_imp]
      exact fun cont => unlike cont (by simpa using equal)
  · intro a c known
    have used := roles.owner a c ((update_role (by simp)).mp known).2
    rw [update_of_ne (unlike used (by simp)), used]
  · apply roles.freeList.push (roles.ne_zero (b := b) (by simp [mine])) first old
    intro c inside
    have free := (roles.onFreeList c).mp inside
    refine next c (unlike free (by simp)) (apart c ?_ (by simp [free]))
    rintro rfl
    rw [here] at free
    cases free
  · intro c
    rw [mem_cons, roles.onFreeList]
    by_cases equal : c = b
    · simp [equal]
    · rw [update_of_ne equal, or_iff_right equal]
  · exact fun c known => entries c ((update_role (by simp)).mp known).2
  · intro a c known
    obtain ⟨other, cont⟩ := (update_role (by simp)).mp known
    exact continued a c cont other
  · intro c known
    by_cases equal : c = b
    · exact unused c (.inr equal)
    · rw [update_of_ne equal] at known
      exact unused c (.inl known)

end Roles

end OpenAFS.Ptserver
