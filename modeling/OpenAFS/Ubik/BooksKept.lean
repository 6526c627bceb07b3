import Mathlib.Data.List.Perm.Subperm
import OpenAFS.Ubik.Bookkeeping

namespace OpenAFS.Ubik

open Lib List

namespace TransServer

variable {s s' : TransServer} {t : Nat}

def addrs (s : TransServer) : List Nat := s.dbase.activeTrans.map UbikTrans.addr

def active (type : TransType) (s : TransServer) : Nat := s.dbase.activeTrans.countP fun tt => tt.type = type

structure BooksKept (s : TransServer) : Prop where
  writing : s.dbase.writing = true ↔ s.active .write = 1
  one : s.active .write ≤ 1
  readers : s.dbase.readers = s.active .read
  current : ∀ t ∈ s.currentTrans, t ∈ s.addrs

def ownedBy (holder : Option Holder) (handles : List Nat) : List Nat := (holder.bind Holder.trans).toList ++ handles

def owned (s : TransServer) : List Nat := ownedBy s.holder s.handles

/-- Each transaction in use is on the list, and used in one way only: by an application, or as the remote one. A thread
that waits for a lock keeps its transaction on the list. -/
structure Inv (s : TransServer) : Prop where
  once : s.addrs.Nodup
  below : ∀ t ∈ s.addrs, t < s.brk
  writing : s.active .write = if s.dbase.writing then 1 else 0
  readers : s.dbase.readers = s.active .read
  ownedOnce : s.owned.Nodup
  ownedActive : ∀ t ∈ s.owned, t ∈ s.addrs
  current : ∀ t ∈ s.currentTrans, t ∈ s.addrs ∧ t ∉ s.owned
  queued : s.waiting.Nodup
  waits : ∀ t ∈ s.waiting, t ∉ s.owned ∧ ∃ tt ∈ s.dbase.activeTrans, tt.addr = t ∧ tt.locktype = .wait

theorem Inv.booksKept (inv : Inv s) : BooksKept s := by
  have writers := inv.writing
  refine ⟨?_, ?_, inv.readers, fun t here => (inv.current t here).1⟩
  · rw [writers]
    split <;> simp [*]
  · rw [writers]
    split <;> omega

theorem inv_start : Inv {} := by
  constructor <;> simp [addrs, active, owned, ownedBy]

variable {tt : UbikTrans} {log : Int} {atid : UbikTid} {holder : Holder} {e : End}

theorem find_eq_some (once : s.addrs.Nodup) : s.find t = some tt ↔ tt ∈ s.dbase.activeTrans ∧ tt.addr = t := by
  rw [find]
  constructor
  · intro found
    have here := find?_some found
    exact ⟨mem_of_find?_eq_some found, of_decide_eq_true here⟩
  rintro ⟨inside, here⟩
  obtain ⟨tt', found⟩ := Option.isSome_iff_exists.mp (@find?_isSome _ _ (fun tt : UbikTrans => tt.addr = t) |>.mpr
    ⟨tt, inside, decide_eq_true here⟩)
  have here' := find?_some found
  have same := inj_on_of_nodup_map once (mem_of_find?_eq_some found) inside
    ((of_decide_eq_true here').trans here.symm)
  rw [found, same]

theorem find_isSome (inside : t ∈ s.addrs) : ∃ tt, s.find t = some tt := by
  obtain ⟨tt, member, here⟩ := List.mem_map.mp inside
  exact Option.isSome_iff_exists.mp (List.find?_isSome.mpr ⟨tt, member, decide_eq_true here⟩)

structure Minor (f : UbikTrans → UbikTrans) : Prop where
  addr : ∀ tt, (f tt).addr = tt.addr
  type : ∀ tt, (f tt).type = tt.type

variable {f : UbikTrans → UbikTrans}

theorem addrs_change (minor : Minor f) : (s.change t f).addrs = s.addrs := by
  simp only [addrs, change, map_map]
  apply map_congr_left
  intro tt _
  simp only [Function.comp]
  split
  · exact minor.addr tt
  · rfl

theorem active_change (minor : Minor f) (type : TransType) :
    (s.change t f).active type = s.active type := by
  simp only [active, change, countP_map]
  apply countP_congr
  intro tt _
  simp only [Function.comp]
  split
  · rw [minor.type]
  · rfl

theorem Inv.change (inv : Inv s) (minor : Minor f)
    (lock : t ∈ s.waiting → ∀ tt, tt.locktype = .wait → (f tt).locktype = .wait) : Inv (s.change t f) := by
  constructor
  · rw [addrs_change minor]
    exact inv.once
  · rw [addrs_change minor]
    exact inv.below
  · rw [active_change minor]
    exact inv.writing
  · rw [active_change minor]
    exact inv.readers
  · exact inv.ownedOnce
  · rw [addrs_change minor]
    exact inv.ownedActive
  · rw [addrs_change minor]
    exact inv.current
  · exact inv.queued
  · intro w inside
    obtain ⟨free, tt, member, here, waits⟩ := inv.waits w inside
    refine ⟨free, _, mem_map_of_mem member, ?_, ?_⟩
    · split
      · rw [minor.addr, here]
      · exact here
    split
    · rename_i same
      exact lock (by rwa [← same, here]) tt waits
    · exact waits

theorem minor_abort : Minor fun tt => if tt.done then tt else { tt with done := true, aborted := true } := by
  constructor
  all_goals
    intro tt
    split <;> rfl

theorem minor_done : Minor fun tt => { tt with done := true } := ⟨fun _ => rfl, fun _ => rfl⟩

theorem minor_lock (atype : LockType) : Minor fun tt => { tt with locktype := atype } := ⟨fun _ => rfl, fun _ => rfl⟩

theorem Inv.udiskAbort (inv : Inv s) : Inv (s.udiskAbort t) := by
  apply inv.change minor_abort
  intro _ tt waits
  split <;> exact waits

theorem Inv.done (inv : Inv s) : Inv (s.change t fun tt => { tt with done := true }) :=
  inv.change minor_done fun _ _ waits => waits

theorem Inv.commitLog (inv : Inv s) : Inv (s.commitLog t log).2 := by
  unfold TransServer.commitLog
  split
  · exact inv
  · exact inv.done

theorem Inv.urecoveryAbortAll (inv : Inv s) : Inv s.urecoveryAbortAll := by
  unfold TransServer.urecoveryAbortAll
  generalize s.dbase.activeTrans.map UbikTrans.addr = all
  induction all generalizing s with
  | nil => exact inv
  | cons t all ih => exact ih inv.udiskAbort

structure Unthreaded (tt : UbikTrans) (s : TransServer) (rest : List UbikTrans) : Prop where
  addrs : List.Perm s.addrs (tt.addr :: rest.map UbikTrans.addr)
  active : ∀ type, s.active type = rest.countP (fun tt => tt.type = type) + if tt.type = type then 1 else 0
  others : ∀ other ∈ s.dbase.activeTrans, other.addr ≠ tt.addr → other ∈ rest

theorem unthread (once : s.addrs.Nodup) (found : s.find t = some tt) :
    Unthreaded tt s (s.dbase.activeTrans.eraseP fun tt => tt.addr = t) := by
  obtain ⟨member, here⟩ := (find_eq_some once).mp found
  obtain ⟨tt', before, after, -, here', split, gone⟩ := @exists_of_eraseP _ (fun tt : UbikTrans => tt.addr = t) _ tt
    member (decide_eq_true here)
  have last : tt' = tt := by
    refine inj_on_of_nodup_map once ?_ member ((of_decide_eq_true here').trans here.symm)
    rw [split]
    exact mem_append_right _ mem_cons_self
  subst last
  rw [gone]
  constructor
  · rw [TransServer.addrs, split, map_append, map_append, map_cons]
    exact perm_middle
  · intro type
    rw [TransServer.active, split, countP_append, countP_append, countP_cons]
    simp only [decide_eq_true_eq]
    omega
  intro other inside different
  rw [split, mem_append, mem_cons] at inside
  rcases inside with early | rfl | late
  · exact mem_append_left _ early
  · exact absurd rfl different
  · exact mem_append_right _ late

theorem Inv.udiskEnd (inv : Inv s) (inside : t ∈ s.addrs) (free : t ∉ s.owned) (other : s.currentTrans ≠ some t)
    (idle : t ∉ s.waiting) : Inv (s.udiskEnd t) := by
  have aborted : Inv (s.udiskAbort t) := inv.udiskAbort
  have there : t ∈ (s.udiskAbort t).addrs := by
    rw [TransServer.udiskAbort, addrs_change minor_abort]
    exact inside
  obtain ⟨tt, found⟩ := find_isSome there
  have gone := unthread aborted.once found
  obtain ⟨-, here⟩ := (find_eq_some aborted.once).mp found
  -- the flag tells the type of the transaction
  have flag : (((s.udiskAbort t).find t).any fun tt => tt.type = .write ∧ (s.udiskAbort t).dbase.writing) = true ↔
      tt.type = .write := by
    rw [found, Option.any_some, decide_eq_true_eq]
    refine ⟨And.left, fun write => ⟨write, ?_⟩⟩
    have writers := aborted.writing
    rw [gone.active, if_pos write] at writers
    split at writers
    · assumption
    · omega
  have writers := gone.active .write
  have readers := gone.active .read
  have once := gone.addrs.nodup aborted.once
  rw [nodup_cons] at once
  have kept : ∀ w, w ≠ t → w ∈ (s.udiskAbort t).addrs →
      w ∈ ((s.udiskAbort t).dbase.activeTrans.eraseP fun tt => tt.addr = t).map UbikTrans.addr := by
    intro w different member
    rcases List.mem_cons.mp (gone.addrs.mem_iff.mp member) with same | rest
    · exact absurd (same.trans here) different
    · exact rest
  have common : ∀ dbase : UbikDbase, dbase.activeTrans = (s.udiskAbort t).dbase.activeTrans.eraseP (fun tt => tt.addr = t) →
      (dbase.activeTrans.countP (fun tt => tt.type = .write) = if dbase.writing then 1 else 0) →
      (dbase.readers = dbase.activeTrans.countP fun tt => tt.type = .read) → Inv { s.udiskAbort t with dbase } := by
    intro dbase list flag count
    refine ⟨?_, ?_, flag, count, aborted.ownedOnce, ?_, ?_, aborted.queued, ?_⟩
    · rw [TransServer.addrs, list]
      exact once.2
    · rw [TransServer.addrs, list]
      exact fun w inside => aborted.below w (gone.addrs.mem_iff.mpr (mem_cons_of_mem _ inside))
    · rw [TransServer.addrs, list]
      exact fun w inside => kept w (fun same => free (same ▸ inside)) (aborted.ownedActive w inside)
    · rw [TransServer.addrs, list]
      intro w known
      obtain ⟨member, apart⟩ := aborted.current w known
      exact ⟨kept w (fun same => other (same ▸ known)) member, apart⟩
    · intro w queued
      obtain ⟨apart, tt', member, same, waits⟩ := aborted.waits w queued
      refine ⟨apart, tt', ?_, same, waits⟩
      rw [list]
      apply gone.others tt' member
      rw [same, here]
      rintro rfl
      exact idle queued
  rw [TransServer.udiskEnd]
  have flagged := aborted.writing
  have counted := aborted.readers
  by_cases write : tt.type = .write
  · rw [if_pos (flag.mpr write)]
    apply common _ rfl
    · rw [if_pos write] at writers
      dsimp only
      rw [if_neg Bool.false_ne_true]
      split at flagged <;> omega
    · have none : tt.type ≠ .read := by rw [write]; decide
      rw [if_neg none] at readers
      rw [counted, readers, Nat.add_zero]
  have read : tt.type = .read := by
    cases same : tt.type with
    | read => rfl
    | write => exact absurd same write
  rw [if_neg (fun yes => write (flag.mp yes))]
  apply common _ rfl
  · rw [if_neg write] at writers
    dsimp only
    omega
  · rw [if_pos read] at readers
    dsimp only
    omega

theorem Inv.reown {handles : List Nat} {holder : Option Holder} (inv : Inv s) (once : (ownedBy holder handles).Nodup)
    (fine : ∀ t ∈ ownedBy holder handles, t ∈ s.addrs ∧ s.currentTrans ≠ some t ∧ t ∉ s.waiting) :
    Inv { s with handles, holder } := by
  refine ⟨inv.once, inv.below, inv.writing, inv.readers, once, fun t inside => (fine t inside).1, ?_, inv.queued, ?_⟩
  · exact fun t here => ⟨(inv.current t here).1, fun inside => (fine t inside).2.1 here⟩
  · exact fun t queued => ⟨fun inside => (fine t inside).2.2 queued, (inv.waits t queued).2⟩

theorem Inv.fine (inv : Inv s) (inside : t ∈ s.owned) : t ∈ s.addrs ∧ s.currentTrans ≠ some t ∧ t ∉ s.waiting :=
  ⟨inv.ownedActive t inside, fun here => (inv.current t here).2 inside, fun queued => (inv.waits t queued).1 inside⟩

theorem Inv.sublist {handles : List Nat} {holder : Option Holder} (inv : Inv s)
    (fewer : List.Subperm (ownedBy holder handles) s.owned) : Inv { s with handles, holder } := by
  obtain ⟨l, perm, sub⟩ := fewer
  refine inv.reown (perm.nodup_iff.mp (sub.nodup inv.ownedOnce)) fun t inside => inv.fine ?_
  exact sub.subset (perm.mem_iff.mpr inside)

theorem Inv.letGo (inv : Inv s) : Inv { s with currentTrans := none } :=
  ⟨inv.once, inv.below, inv.writing, inv.readers, inv.ownedOnce, inv.ownedActive, nofun, inv.queued, inv.waits⟩

theorem udiskEnd_eq (t : Nat) (s : TransServer) :
    s.udiskEnd t = { s with dbase := (TransServer.udiskEnd t { dbase := s.dbase }).dbase } := by
  rw [TransServer.udiskEnd]
  split
  · rename_i write
    have here : TransServer.udiskEnd t { dbase := s.dbase } = _ := if_pos write
    rw [here]
    rfl
  rename_i read
  have here : TransServer.udiskEnd t { dbase := s.dbase } = _ := if_neg read
  rw [here]
  rfl

theorem udiskEnd_letGo (t : Nat) (s : TransServer) :
    { s.udiskEnd t with currentTrans := none } = TransServer.udiskEnd t { s with currentTrans := none } := by
  rw [udiskEnd_eq t s, udiskEnd_eq t { s with currentTrans := none }]

theorem udiskEnd_holder (t : Nat) (s : TransServer) :
    { s.udiskEnd t with holder := none } = TransServer.udiskEnd t { s with holder := none } := by
  rw [udiskEnd_eq t s, udiskEnd_eq t { s with holder := none }]

theorem Inv.dropCurrent (inv : Inv s) (current : s.currentTrans = some t) : Inv (s.dropCurrent t) := by
  obtain ⟨inside, free⟩ := inv.current t current
  unfold TransServer.dropCurrent
  split
  · exact inv.letGo
  rename_i busy
  rw [udiskEnd_letGo]
  refine inv.letGo.udiskEnd inside free nofun fun queued => busy ?_
  obtain ⟨-, tt, member, here, waits⟩ := inv.waits t queued
  rw [(find_eq_some inv.once).mpr ⟨member, here⟩, Option.any_some, waits]
  rfl

theorem Inv.checkTid (inv : Inv s) : Inv (s.checkTid atid) := by
  unfold TransServer.checkTid
  split
  · exact inv
  rename_i t current
  split
  · exact inv.dropCurrent current
  · exact inv

structure Begun (s s' : TransServer) (t : Nat) : Prop where
  inv : Inv s'
  inside : t ∈ s'.addrs
  free : t ∉ s'.owned
  other : s'.currentTrans ≠ some t
  idle : t ∉ s'.waiting
  same : s'.handles = s.handles ∧ s'.holder = s.holder ∧ s'.currentTrans = s.currentTrans

theorem Inv.udiskBegin {atype : TransType} {tid : UbikTid} {log : Int} (inv : Inv s) :
    (∃ code, s.udiskBegin atype tid log = (code, none, s)) ∨
      ∃ s', s.udiskBegin atype tid log = (0, some s.brk, s') ∧ Begun s s' s.brk := by
  unfold TransServer.udiskBegin
  split
  · exact .inl ⟨_, rfl⟩
  split
  · exact .inl ⟨_, rfl⟩
  rename_i idle _
  refine .inr ⟨_, rfl, ?_⟩
  have new : s.brk ∉ s.addrs := fun inside => Nat.lt_irrefl _ (inv.below _ inside)
  have free : s.brk ∉ s.owned := fun inside => new (inv.ownedActive _ inside)
  have other : s.currentTrans ≠ some s.brk := fun here => new (inv.current _ here).1
  have queue : s.brk ∉ s.waiting := by
    intro queued
    obtain ⟨-, tt, member, here, -⟩ := inv.waits _ queued
    exact new (List.mem_map.mpr ⟨tt, member, here⟩)
  have common : ∀ dbase : UbikDbase, dbase.activeTrans = { addr := s.brk, type := atype, tid } :: s.dbase.activeTrans →
      (dbase.activeTrans.countP (fun tt => tt.type = .write) = if dbase.writing then 1 else 0) →
      (dbase.readers = dbase.activeTrans.countP fun tt => tt.type = .read) →
      Begun s { s with dbase, brk := s.brk + 1 } s.brk := by
    intro dbase list flag count
    have addrs : dbase.activeTrans.map UbikTrans.addr = s.brk :: s.addrs := by
      rw [list]
      rfl
    refine ⟨⟨?_, ?_, flag, count, inv.ownedOnce, ?_, ?_, inv.queued, ?_⟩, ?_, free, other, queue, rfl, rfl, rfl⟩
    · rw [TransServer.addrs, addrs]
      exact List.nodup_cons.mpr ⟨new, inv.once⟩
    · rw [TransServer.addrs, addrs]
      intro t inside
      rcases List.mem_cons.mp inside with rfl | old
      · exact Nat.lt_succ_self _
      · exact Nat.lt_succ_of_lt (inv.below t old)
    · rw [TransServer.addrs, addrs]
      exact fun t inside => mem_cons_of_mem _ (inv.ownedActive t inside)
    · rw [TransServer.addrs, addrs]
      exact fun t here => ⟨mem_cons_of_mem _ (inv.current t here).1, (inv.current t here).2⟩
    · intro t queued
      obtain ⟨apart, tt, member, rest⟩ := inv.waits t queued
      refine ⟨apart, tt, ?_, rest⟩
      rw [list]
      exact mem_cons_of_mem _ member
    · rw [TransServer.addrs, addrs]
      exact mem_cons_self
  have writers := inv.writing
  have readers := inv.readers
  unfold TransServer.active at writers readers
  cases atype with
  | read =>
    refine common _ rfl ?_ ?_
    · rw [countP_cons_of_neg (by simp), writers]
    · dsimp only
      rw [countP_cons_of_pos (by simp), readers]
      omega
  | write =>
    have quiet : s.dbase.writing = false := by simpa using idle
    refine common _ rfl ?_ ?_
    · rw [countP_cons_of_pos (by simp), writers, quiet]
      rfl
    · rw [countP_cons_of_neg (by simp), readers]

theorem Inv.beginTrans {transMode : TransType} {b : Begin} (inv : Inv s) (unheld : s.holder = none) :
    Inv (s.beginTrans transMode b) := by
  unfold TransServer.beginTrans
  split
  · exact inv
  split
  · exact inv
  split
  · exact inv
  rcases @Inv.udiskBegin s transMode b.tid b.log inv with ⟨code, none⟩ | ⟨s', made, begun⟩
  · rw [none]
    exact inv
  rw [made]
  have owned : s'.owned = s'.handles := by
    rw [owned, ownedBy, begun.same.2.1, unheld]
    rfl
  have once : (s.brk :: s'.handles).Nodup := by
    rw [← owned]
    exact List.nodup_cons.mpr ⟨begun.free, begun.inv.ownedOnce⟩
  have fine : ∀ t ∈ s.brk :: s'.handles, t ∈ s'.addrs ∧ s'.currentTrans ≠ some t ∧ t ∉ s'.waiting := by
    intro t inside
    rcases List.mem_cons.mp inside with rfl | old
    · exact ⟨begun.inside, begun.other, begun.idle⟩
    · rw [← owned] at old
      exact begun.inv.fine old
  cases transMode with
  | read =>
    have still : s'.holder = none := by rw [begun.same.2.1, unheld]
    have kept := @Inv.reown s' (s.brk :: s'.handles) none begun.inv once fine
    rw [← still] at kept
    exact kept
  | write => exact @Inv.reown s' s'.handles (some (.beginContact s.brk)) begun.inv once fine

structure Loose (s : TransServer) (t : Nat) : Prop where
  inv : Inv s
  inside : t ∈ s.addrs
  free : t ∉ s.owned
  other : s.currentTrans ≠ some t
  idle : t ∉ s.waiting

theorem Loose.udiskEnd (loose : Loose s t) : Inv (s.udiskEnd t) :=
  loose.inv.udiskEnd loose.inside loose.free loose.other loose.idle

theorem Loose.change (loose : Loose s t) (minor : Minor f) : Loose (s.change t f) t := by
  refine ⟨loose.inv.change minor fun queued => absurd queued loose.idle, ?_, loose.free, loose.other, loose.idle⟩
  rw [addrs_change minor]
  exact loose.inside

theorem Loose.abortAndEnd (loose : Loose s t) : Inv (s.abortAndEnd t) := (loose.change minor_abort).udiskEnd

theorem Inv.taken (inv : Inv s) (unheld : s.holder = none) (inside : t ∈ s.handles) :
    Loose { s with handles := s.handles.erase t } t := by
  have owned : s.owned = s.handles := by
    rw [owned, ownedBy, unheld]
    rfl
  have once : s.handles.Nodup := owned ▸ inv.ownedOnce
  obtain ⟨active, other, idle⟩ := inv.fine (owned.symm ▸ inside)
  have fewer : ownedBy s.holder (s.handles.erase t) = s.handles.erase t := by
    rw [ownedBy, unheld]
    rfl
  refine ⟨@Inv.sublist s (s.handles.erase t) s.holder inv ?_, active, ?_, other, idle⟩
  · rw [fewer, owned]
    exact List.erase_sublist.subperm
  · change t ∉ ownedBy s.holder (s.handles.erase t)
    rw [fewer]
    exact once.not_mem_erase

theorem Loose.holds (loose : Loose s t) (unheld : s.holder = none) (works : holder.trans = some t) :
    Inv { s with holder := some holder } := by
  have owned : s.owned = s.handles := by
    rw [owned, ownedBy, unheld]
    rfl
  have more : ownedBy (some holder) s.handles = t :: s.owned := by
    rw [ownedBy, Option.bind_some, works, owned]
    rfl
  apply loose.inv.reown
  · rw [more]
    exact List.nodup_cons.mpr ⟨loose.free, loose.inv.ownedOnce⟩
  rw [more]
  intro w inside
  rcases List.mem_cons.mp inside with rfl | old
  · exact ⟨loose.inside, loose.other, loose.idle⟩
  · exact loose.inv.fine old

theorem Inv.abortTrans {type : TransType} (inv : Inv s) (unheld : s.holder = none) (inside : t ∈ s.handles) :
    Inv (s.abortTrans t type e) := by
  have loose := inv.taken unheld inside
  unfold TransServer.abortTrans
  split
  · exact loose.abortAndEnd
  split
  · exact loose.abortAndEnd
  · split
    · exact loose.abortAndEnd
    · exact loose.holds unheld rfl

theorem commitOrRelease_eq (t : Nat) (log : Int) (s : TransServer) : ∃ holder : Holder, holder.trans = some t ∧
    s.commitOrRelease t log = { (s.commitLog t log).2 with holder := some holder } := by
  unfold TransServer.commitOrRelease
  split
  · rename_i made
    exact ⟨.commitContact t, rfl, by rw [made]⟩
  · rename_i made
    exact ⟨.releaseContact t, rfl, by rw [made]⟩

theorem holder_commitLog (t : Nat) (log : Int) (s : TransServer) : (s.commitLog t log).2.holder = s.holder := by
  unfold TransServer.commitLog
  split <;> rfl

theorem Loose.commitLog (loose : Loose s t) : Loose (s.commitLog t log).2 t := by
  unfold TransServer.commitLog
  split
  · exact loose
  · exact loose.change minor_done

theorem Inv.endTrans (inv : Inv s) (unheld : s.holder = none) (inside : t ∈ s.handles) : Inv (s.endTrans t tt e) := by
  have loose := inv.taken unheld inside
  unfold TransServer.endTrans
  split
  · exact loose.abortAndEnd
  split
  · exact (loose.change minor_done).udiskEnd
  split
  · exact loose.abortAndEnd
  split
  · exact loose.holds unheld rfl
  split
  · split
    · exact loose.holds unheld rfl
    · exact loose.holds unheld rfl
  · obtain ⟨holder, works, same⟩ := commitOrRelease_eq t e.log { s with handles := s.handles.erase t }
    rw [same]
    exact loose.commitLog.holds ((holder_commitLog ..).trans unheld) works

theorem Inv.released (inv : Inv s) (held : s.holder = some holder) (works : holder.trans = some t) :
    Loose { s with holder := none } t := by
  have owned : s.owned = t :: s.handles := by
    rw [owned, ownedBy, held, Option.bind_some, works]
    rfl
  have once := owned ▸ inv.ownedOnce
  obtain ⟨active, other, idle⟩ := inv.fine (owned.symm ▸ mem_cons_self)
  refine ⟨@Inv.sublist s s.handles none inv ?_, active, (List.nodup_cons.mp once).1, other, idle⟩
  rw [owned]
  exact (sublist_cons_self t s.handles).subperm

theorem Inv.passed {holder holder' : Holder} (inv : Inv s) (held : s.holder = some holder)
    (works : holder'.trans = holder.trans) : Inv { s with holder := some holder' } := by
  refine @Inv.sublist s s.handles (some holder') inv (List.Perm.of_eq ?_).subperm
  rw [owned, held, ownedBy, ownedBy, Option.bind_some, Option.bind_some, works]

theorem Inv.resume {code : Int} (inv : Inv s) (held : s.holder = some holder) : Inv (s.resume code log holder) := by
  cases holder with
  | beginContact t =>
    rw [TransServer.resume]
    split
    · refine @Inv.sublist s (t :: s.handles) none inv (List.Perm.of_eq ?_).subperm
      rw [owned, held]
      rfl
    · exact inv.udiskAbort.passed held rfl
  | beginAbort t =>
    rw [TransServer.resume, udiskEnd_holder]
    exact (inv.released held rfl).udiskEnd
  | abortContact t =>
    rw [TransServer.resume, TransServer.abortAndEnd, udiskEnd_holder]
    exact ((inv.released held rfl).change minor_abort).udiskEnd
  | relabel t =>
    obtain ⟨holder, works, same⟩ := commitOrRelease_eq t log s
    rw [TransServer.resume, same]
    exact @Inv.passed (s.commitLog t log).2 _ _ inv.commitLog ((holder_commitLog ..).trans held) works
  | commitContact t =>
    rw [TransServer.resume]
    split
    · exact inv.passed held rfl
    · exact inv.passed held rfl
  | commitWait t =>
    rw [TransServer.resume]
    split
    · exact inv.passed held rfl
    · exact inv
  | releaseContact t =>
    rw [TransServer.resume, udiskEnd_holder]
    exact (inv.released held rfl).udiskEnd
  | remoteRelabel t =>
    have kept : Inv (s.commitLog t log).2 := inv.commitLog
    exact @Inv.sublist _ (s.commitLog t log).2.handles none kept (sublist_append_right _ _).subperm
  | transfer => exact @Inv.sublist s s.handles none inv (sublist_append_right _ _).subperm

section

variable (inv : Inv s)
include inv

theorem Inv.sdiskBegin : Inv (s.sdiskBegin atid log) := by
  have dropped : ∃ s', Inv s' ∧ s'.currentTrans = none ∧ s.sdiskBegin atid log =
      { (s'.udiskBegin .write atid log).2.2 with currentTrans := (s'.udiskBegin .write atid log).2.1 } := by
    have checked : Inv (s.checkTid atid) := inv.checkTid
    cases current : (s.checkTid atid).currentTrans with
    | none =>
      refine ⟨s.checkTid atid, checked, current, ?_⟩
      rw [TransServer.sdiskBegin]
      simp only [current]
    | some t =>
      refine ⟨(s.checkTid atid).dropCurrent t, checked.dropCurrent current, rfl, ?_⟩
      rw [TransServer.sdiskBegin]
      simp only [current]
  obtain ⟨s', inv', none, same⟩ := dropped
  rw [same]
  rcases @Inv.udiskBegin s' .write atid log inv' with ⟨code, refused⟩ | ⟨s'', made, begun⟩
  · rw [refused]
    exact inv'.letGo
  rw [made]
  have kept := begun.inv
  exact ⟨kept.once, kept.below, kept.writing, kept.readers, kept.ownedOnce, kept.ownedActive,
    fun t here => by cases here; exact ⟨begun.inside, begun.free⟩, kept.queued, kept.waits⟩

theorem Inv.sdiskTrans {current : Option Nat}
    (trans : s.sdiskTrans atid = (current, s')) : Inv s' ∧ ∀ t, current = some t → s'.currentTrans = some t := by
  unfold TransServer.sdiskTrans at trans
  split at trans
  · cases trans
    exact ⟨inv.checkTid, fun t here => here⟩
  · cases trans
    exact ⟨inv, nofun⟩

theorem Inv.sdiskCommit : Inv (s.sdiskCommit atid e) := by
  unfold TransServer.sdiskCommit
  split
  · rename_i trans
    exact (inv.sdiskTrans trans).1
  rename_i t s' trans
  have kept := (inv.sdiskTrans trans).1
  split
  · exact kept
  split
  · split
    · exact kept
    · exact @Inv.sublist s' s'.handles (some (.remoteRelabel t)) kept (sublist_append_right _ _).subperm
  · exact kept.commitLog

theorem Inv.sdiskReleaseLocks : Inv (s.sdiskReleaseLocks atid) := by
  unfold TransServer.sdiskReleaseLocks
  split
  · rename_i trans
    exact (inv.sdiskTrans trans).1
  · rename_i t s' trans
    obtain ⟨kept, current⟩ := inv.sdiskTrans trans
    exact kept.dropCurrent (current t rfl)

theorem Inv.sdiskAbort : Inv (s.sdiskAbort atid) := by
  unfold TransServer.sdiskAbort
  split
  · rename_i trans
    exact (inv.sdiskTrans trans).1
  · rename_i t s' trans
    obtain ⟨kept, current⟩ := inv.sdiskTrans trans
    exact kept.udiskAbort.dropCurrent (current t rfl)

theorem Inv.waits_for (current : s.currentTrans = some t)
    (unlocked : (s.find t).any (fun tt => tt.locktype ≠ .none) = false) :
    Inv { s.change t (fun tt => { tt with locktype := .wait }) with waiting := t :: s.waiting } := by
  obtain ⟨inside, free⟩ := inv.current t current
  obtain ⟨tt, found⟩ := find_isSome inside
  obtain ⟨member, here⟩ := (find_eq_some inv.once).mp found
  have idle : t ∉ s.waiting := by
    intro queued
    obtain ⟨-, tt', member', here', waits⟩ := inv.waits t queued
    rw [(find_eq_some inv.once).mpr ⟨member', here'⟩, Option.any_some, waits] at unlocked
    cases unlocked
  have kept : Inv (s.change t fun tt => { tt with locktype := .wait }) :=
    inv.change (minor_lock .wait) fun queued => absurd queued idle
  refine ⟨kept.once, kept.below, kept.writing, kept.readers, kept.ownedOnce, kept.ownedActive, kept.current,
    List.nodup_cons.mpr ⟨idle, inv.queued⟩, ?_⟩
  intro w queued
  rcases List.mem_cons.mp queued with rfl | old
  · refine ⟨free, _, mem_map_of_mem member, ?_⟩
    rw [if_pos here]
    exact ⟨here, rfl⟩
  · exact kept.waits w old

theorem Inv.sdiskLock {alen : Int} {atype : LockType} (taken : s.sdiskLock atid alen atype = some s') : Inv s' := by
  unfold TransServer.sdiskLock at taken
  split at taken
  · cases taken
    exact inv
  split at taken
  · rename_i trans
    cases taken
    exact (inv.sdiskTrans trans).1
  rename_i t s₁ trans
  obtain ⟨kept, current⟩ := inv.sdiskTrans trans
  split at taken
  · cases taken
    exact kept
  split at taken
  · cases taken
    exact kept
  split at taken
  · cases taken
  · rename_i unlocked
    cases taken
    exact kept.waits_for (current t rfl) (Bool.eq_false_iff.mpr unlocked)

theorem Inv.lockGranted {atype : LockType} (queued : t ∈ s.waiting) : Inv (s.lockGranted t atype) := by
  obtain ⟨free, tt, member, here, -⟩ := inv.waits t queued
  have idle : t ∉ s.waiting.erase t := inv.queued.not_mem_erase
  have fewer : Inv { s with waiting := s.waiting.erase t } :=
    ⟨inv.once, inv.below, inv.writing, inv.readers, inv.ownedOnce, inv.ownedActive, inv.current, inv.queued.erase t,
      fun w inside => inv.waits w (mem_of_mem_erase inside)⟩
  have kept := @Inv.change _ t _ fewer (minor_lock atype) fun again => absurd again idle
  unfold TransServer.lockGranted
  dsimp only
  split
  · rename_i other
    refine kept.udiskEnd ?_ free other idle
    rw [addrs_change (minor_lock atype)]
    exact List.mem_map.mpr ⟨tt, member, here⟩
  · exact kept

end

theorem onHandle_eq_some {f : UbikTrans → TransServer} (taken : s.onHandle t f = some s') : t ∈ s.handles ∧ ∃ tt, s' = f tt := by
  unfold onHandle at taken
  split at taken
  · rename_i inside
    obtain ⟨tt, -, rfl⟩ := Option.map_eq_some_iff.mp taken
    exact ⟨inside, tt, rfl⟩
  · cases taken

theorem Inv.step {act : TransAct} (inv : Inv s) (taken : s.step act = some s') : Inv s' := by
  unfold TransServer.step at taken
  split at taken
  · cases taken
    exact inv.checkTid
  · obtain ⟨holder, held, rfl⟩ := Option.map_eq_some_iff.mp taken
    exact inv.resume held
  split at taken
  · cases taken
  rename_i unheld
  have unheld : s.holder = none := by simpa using unheld
  split at taken
  · cases taken
    exact inv.beginTrans unheld
  · obtain ⟨inside, tt, rfl⟩ := onHandle_eq_some taken
    exact inv.abortTrans unheld inside
  · obtain ⟨inside, tt, rfl⟩ := onHandle_eq_some taken
    exact inv.endTrans unheld inside
  · obtain ⟨-, -, rfl⟩ := onHandle_eq_some taken
    exact inv.udiskAbort
  · cases taken
    exact inv.sdiskBegin
  · cases taken
    exact inv.sdiskCommit
  · cases taken
    exact inv.sdiskReleaseLocks
  · cases taken
    exact inv.sdiskAbort
  · cases taken
    exact (inv.sdiskTrans rfl).1
  · exact inv.sdiskLock taken
  · split at taken
    · rename_i granted
      cases taken
      exact inv.lockGranted granted.1
    · cases taken
  · cases taken
    have kept : Inv s.urecoveryAbortAll := inv.urecoveryAbortAll
    exact @Inv.sublist _ s.urecoveryAbortAll.handles (some .transfer) kept (sublist_append_right _ _).subperm
  · cases taken
  · cases taken

/-- In every state the flag tells of the one write transaction, the counter counts the read transactions, and the remote
transaction is active. -/
theorem books_kept (reached : books.Reach s) : BooksKept s := by
  have inv : Inv s := reached.invariant (fun s start => by
    have fresh : s = {} := start
    rw [fresh]
    exact inv_start) fun _ _ _ inv _ taken => inv.step taken
  exact inv.booksKept

/-- A reader begins; another server's transaction waits for a lock, is given up, and gets the lock. -/
def lateLock : List TransAct :=
  [.beginTrans .read ⟨true, false, ⟨5, 2⟩, 0⟩, .sdiskBegin ⟨7, 4⟩ 0, .sdiskLock ⟨7, 4⟩ 1 .write, .beacon ⟨7, 6⟩,
    .sdiskBegin ⟨7, 6⟩ 0, .lockGranted 2 .write]

def afterLateLock : TransServer := (books.run {} lateLock).get (by decide)

theorem books_kept_afterLateLock : BooksKept afterLateLock := by
  have ran : books.run {} lateLock = some afterLateLock := (Option.some_get _).symm
  exact books_kept (Machine.Reach.run (.start rfl) ran)

example : afterLateLock.dbase = ⟨[{ addr := 1, type := .read, tid := ⟨5, 2⟩ }], false, 1⟩ := by decide

end TransServer

end OpenAFS.Ubik
