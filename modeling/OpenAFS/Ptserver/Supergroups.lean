import OpenAFS.Ptserver.Lists

namespace OpenAFS.Ptserver

open Function (update_self update_of_ne)
open Lib List

def sgSize : Nat := 2

structure PrEntryG extends PrEntry where
  removeTime : UInt32 := 0
  countsg : Int := 0
  nextsg : Nat := 0
  supergroup : List Id := List.replicate sgSize 0

inductive SgBlock where
  | entry (e : PrEntryG)
  | cont (c : ContEntry)

structure SgDb where
  header : PrHeader := {}
  block : Nat → SgBlock := fun _ => .entry {}

inductive SgSlot where
  | nextsg (b : Nat)
  | next (c : Nat)

namespace SgDb

variable (db : SgDb)

def entry (b : Nat) : PrEntryG :=
  match db.block b with
  | .entry e => e
  | .cont c => { flags := c.flags, id := c.id, next := c.next }

def cont (b : Nat) : ContEntry :=
  match db.block b with
  | .cont c => c
  | .entry e => { flags := e.flags, id := e.id, next := e.next }

def putEntry (b : Nat) (e : PrEntryG) : SgDb := { db with block := Function.update db.block b (.entry e) }

def putCont (b : Nat) (c : ContEntry) : SgDb := { db with block := Function.update db.block b (.cont c) }

def freeBlock (pos : Nat) : SgDb :=
  { db with header.freePtr := pos }.putEntry pos { next := db.header.freePtr, flags := prFree }

def fuel : Nat := db.header.eofPtr + 1

def findFrom (aid : Id) : Nat → Nat → Except PrError Nat
  | 0, _ => .error .loops
  | fuel + 1, b =>
    if b = 0 then .ok 0
    else if (db.entry b).id = aid then .ok b
    else findFrom aid fuel (db.entry b).nextID

def findByID (aid : Id) : Except PrError Nat :=
  if aid = badId ∨ aid = 0 then .ok 0 else db.findFrom aid db.fuel (db.header.idHash (idHash aid))

/-- The loop of `RemoveFromSGEntry` over the continuation blocks. What is in front of a block stays in `hentry` only by
    intent: the call that should copy it there copies the other way, so that `hentry` is still the block of zeros. -/
def removeFromSG (aid bid : Id) (temp : Nat) (tentryg : PrEntryG) : Nat → Nat → Nat → Except PrError SgDb
  | 0, _, _ => .error .loops
  | fuel + 1, hloc, nptr =>
    if nptr = 0 then .error .noEnt
    else do
      let centry := db.cont nptr
      ensure (centry.id = bid ∧ centry.flags &&& prCont ≠ 0) .dbBad
      match clearIn aid centry.entries with
      | .found entries =>
        let less := { tentryg with countsg := int32 (tentryg.countsg - 1) }
        if ∀ x ∈ entries, x = badId ∨ x = 0 then
          if hloc = 0 then .ok ((db.freeBlock nptr).putEntry temp { less with nextsg := centry.next })
          else
            let hentry : ContEntry := {}
            .ok (((db.putCont hloc { hentry with next := centry.next }).freeBlock nptr).putEntry temp less)
        else .ok ((db.putCont nptr { centry with entries := entries }).putEntry temp less)
      | .ended => .error .noEnt
      | .passed => removeFromSG aid bid temp tentryg fuel nptr centry.next

def removeFromSGEntry (now : UInt32) (aid bid : Id) : Except PrError SgDb := do
  ensure (aid ≠ bid) .inconsistent
  let temp ← db.findByID bid
  ensure (temp ≠ 0) .noEnt
  let tentryg := { db.entry temp with removeTime := now }
  match clearIn aid tentryg.supergroup with
  | .found slots =>
    .ok (db.putEntry temp { tentryg with supergroup := slots, countsg := int32 (tentryg.countsg - 1) })
  | .ended => .error .noEnt
  | .passed => db.removeFromSG aid bid temp tentryg db.fuel 0 tentryg.nextsg

def load : SgSlot → Nat
  | .nextsg b => (db.entry b).nextsg
  | .next c => (db.cont c).next

def sgSlots (loc : Nat) (conts : List Nat) : List (List Id) :=
  (db.entry loc).supergroup :: conts.map fun c => (db.cont c).entries

def supergroups (loc : Nat) (conts : List Nat) : List Id := Slots.all badId 0 (db.sgSlots loc conts)

def Continues (bid : Id) (c : Nat) : Prop :=
  ∃ x, db.block c = .cont x ∧ x.id = bid ∧ x.flags &&& prCont ≠ 0

end SgDb

/-- The group `bid` at `loc` has its supergroups in its entry and in the blocks `conts`. -/
structure SgList (db : SgDb) (bid : Id) (loc : Nat) (conts : List Nat) : Prop where
  main : ∃ e, db.block loc = .entry e ∧ e.id = bid
  linked : Linked db.load SgSlot.next (.nextsg loc) conts
  continued : ∀ c ∈ conts, db.Continues bid c
  packed : Slots.Packed 0 (db.sgSlots loc conts)
  once : (db.supergroups loc conts).Nodup
  other : bid ∉ db.supergroups loc conts
  count : (db.entry loc).countsg = (db.supergroups loc conts).length
  fits : (db.entry loc).countsg < 2 ^ 31

def TakesOut (db : SgDb) (aid bid : Id) (loc : Nat) (conts : List Nat) (r : Except PrError SgDb) : Prop :=
  ∃ db' conts', r = .ok db' ∧ SgList db' bid loc conts' ∧ (db.supergroups loc conts).Perm (aid :: db'.supergroups loc conts') ∧
    (db'.entry loc).countsg = (db.entry loc).countsg - 1

/-- The id is the last one in a continuation block that has another in front of it. -/
def LastOfLater (db : SgDb) (aid : Id) (conts : List Nat) : Prop := ∃ c ∈ conts.tail, listed (db.cont c).entries = [aid]

namespace SgDb

variable {db : SgDb} {b c : Nat} {e : PrEntryG} {x : ContEntry}

theorem entry_putEntry : (db.putEntry b e).entry b = e := by
  unfold putEntry entry
  dsimp only
  rw [update_self]

theorem cont_congr {db' : SgDb} (same : db'.block c = db.block c) : db'.cont c = db.cont c := by
  unfold cont
  rw [same]

theorem load_next_congr {db' : SgDb} (same : db'.block c = db.block c) : db'.load (.next c) = db.load (.next c) := by
  unfold SgDb.load
  dsimp only
  rw [cont_congr same]

theorem entries_congr {db' : SgDb} {conts : List Nat} (same : ∀ c ∈ conts, db'.block c = db.block c) :
    (conts.map fun c => (db'.cont c).entries) = conts.map fun c => (db.cont c).entries := by
  apply map_congr_left
  intro c inside
  rw [cont_congr (same c inside)]

theorem Continues.congr {db' : SgDb} {bid : Id} (here : db.Continues bid c) (same : db'.block c = db.block c) :
    db'.Continues bid c := by
  unfold Continues
  rw [same]
  exact here

theorem Continues.cont {bid : Id} (here : db.Continues bid c) : (db.cont c).id = bid ∧ (db.cont c).flags &&& prCont ≠ 0 := by
  obtain ⟨x, form, id, flags⟩ := here
  unfold SgDb.cont
  rw [form]
  exact ⟨id, flags⟩

end SgDb

theorem int32_less {n : Int} (positive : 0 < n) (fits : n < 2 ^ 31) : int32 (n - 1) = n - 1 := by
  unfold int32
  rw [Int.bmod_eq_of_le] <;> omega

theorem unused_of_shown {l : List Id} (ended : Slots.Ended 0 l) (none : listed l = []) : ∀ x ∈ l, x = badId ∨ x = 0 := by
  obtain ⟨used, n, rfl, inside⟩ := ended
  have early : Slots.shown badId 0 used = [] := by
    unfold listed at none
    rw [Slots.shown_append _ inside, Slots.shown_stop, append_nil] at none
    exact none
  intro x member
  rcases List.mem_append.mp member with here | last
  · clear none member
    induction used with
    | nil => cases here
    | cons y rest ih =>
      rw [Slots.shown] at early
      split at early
      · rename_i dead
        rcases List.mem_cons.mp here with rfl | later
        · exact .inl dead
        · exact ih (fun zero => inside (mem_cons_of_mem _ zero)) early later
      split at early
      · rename_i stop
        exact absurd (stop ▸ mem_cons_self) inside
      · cases early
  · exact .inr (List.mem_replicate.mp last).2

theorem emptied_iff {aid : Id} {l l' : List Id} (ended : Slots.Ended 0 l) (found : clearIn aid l = .found l')
    (alive : aid ≠ badId) (more : aid ≠ 0) : (∀ x ∈ l', x = badId ∨ x = 0) ↔ listed l = [aid] := by
  obtain ⟨xs, zs, rfl, rfl, inside⟩ := clearIn_found found
  have perm : (listed (xs ++ aid :: zs)).Perm (aid :: listed (xs ++ badId :: zs)) :=
    Slots.shown_revive inside alive more
  constructor
  · intro empty
    have nothing : listed (xs ++ badId :: zs) = [] := Slots.shown_empty empty
    rw [nothing] at perm
    exact List.perm_singleton.mp perm
  intro alone
  rw [alone] at perm
  apply unused_of_shown (ended.set inside (by decide))
  exact (List.cons_eq_cons.mp (List.singleton_perm.mp perm)).2.symm

theorem listed_alone {before after : List (List Id)} {l m : List Id} {aid : Id}
    (once : (Slots.all badId 0 (before ++ l :: after)).Nodup) (here : aid ∈ listed l) (there : m ∈ before ++ after) :
    aid ∉ listed m := by
  rw [Slots.all_middle, nodup_append, nodup_append] at once
  obtain ⟨-, ⟨-, -, behind⟩, front⟩ := once
  intro again
  rcases List.mem_append.mp there with early | late
  · exact front aid (List.mem_flatMap.mpr ⟨m, early, again⟩) aid (mem_append_left _ here) rfl
  · exact behind aid here aid (List.mem_flatMap.mpr ⟨m, late, again⟩) rfl

theorem listed_of_found {aid : Id} {l l' : List Id} (found : clearIn aid l = .found l') (alive : aid ≠ badId)
    (more : aid ≠ 0) : aid ∈ listed l := by
  obtain ⟨xs, zs, rfl, rfl, inside⟩ := clearIn_found found
  exact (Slots.shown_revive inside alive more).mem_iff.mpr mem_cons_self

namespace SgDb

def shrink (db : SgDb) (temp hloc c : Nat) (entries : List Id) (less : PrEntryG) : SgDb :=
  if ∀ x ∈ entries, x = badId ∨ x = 0 then
    if hloc = 0 then (db.freeBlock c).putEntry temp { less with nextsg := (db.cont c).next }
    else ((db.putCont hloc { next := (db.cont c).next }).freeBlock c).putEntry temp less
  else (db.putCont c { db.cont c with entries := entries }).putEntry temp less

variable {db : SgDb} {aid bid : Id} {loc : Nat} {tentryg : PrEntryG}

theorem removeFromSG_finds {fuel hloc : Nat} {a : SgSlot} {cells : List Nat}
    (linked : Linked db.load SgSlot.next a cells) (enough : cells.length < fuel)
    (continued : ∀ c ∈ cells, db.Continues bid c)
    (packed : Slots.Packed 0 (cells.map fun c => (db.cont c).entries))
    (inside : ∃ c ∈ cells, aid ∈ listed (db.cont c).entries) :
    ∃ before c after entries, cells = before ++ c :: after ∧ clearIn aid (db.cont c).entries = .found entries ∧
      db.removeFromSG aid bid loc tentryg fuel hloc (db.load a) = .ok (db.shrink loc (before.getLastD hloc) c entries
          { tentryg with countsg := int32 (tentryg.countsg - 1) }) := by
  induction cells generalizing fuel hloc a with
  | nil =>
    obtain ⟨c, none, -⟩ := inside
    cases none
  | cons c cells ih =>
    rw [length_cons] at enough
    obtain ⟨fuel, rfl⟩ : ∃ m, fuel = m + 1 := ⟨fuel - 1, by omega⟩
    rw [removeFromSG, linked.1, if_neg linked.2.1]
    simp only [bind, Except.bind]
    rw [ensure, if_pos (continued c mem_cons_self).cont]
    cases scan : clearIn aid (db.cont c).entries with
    | found entries =>
      refine ⟨[], c, cells, entries, rfl, scan, ?_⟩
      unfold shrink
      dsimp only
      rw [getLastD_nil]
      split
      · split <;> rfl
      · rfl
    | ended =>
      obtain ⟨stop, out⟩ := clearIn_ended scan
      have none : cells.map (fun c => (db.cont c).entries) = [] := @Slots.Packed.last _ 0 [] _ _ packed stop
      obtain ⟨d, member, listed⟩ := inside
      rw [List.map_eq_nil_iff.mp none, mem_singleton] at member
      rw [member] at listed
      exact absurd listed out
    | passed =>
      have later : ∃ d ∈ cells, aid ∈ listed (db.cont d).entries := by
        obtain ⟨d, member, listed⟩ := inside
        rcases List.mem_cons.mp member with rfl | later
        · exact absurd (Slots.mem_shown listed).1 (clearIn_passed scan).2
        · exact ⟨d, later, listed⟩
      have enough' : cells.length < fuel := by omega
      obtain ⟨before, d, after, entries, split, found, result⟩ := ih linked.2.2 enough'
        (fun d later => continued d (mem_cons_of_mem _ later)) (@Slots.Packed.erase _ 0 [] _ _ packed) later
      refine ⟨c :: before, d, after, entries, by rw [split]; rfl, found, ?_⟩
      rw [getLastD_cons]
      exact result

end SgDb

namespace SgList

variable {db db' : SgDb} {aid bid : Id} {loc : Nat} {conts conts' : List Nat}

section

variable (list : SgList db bid loc conts)
include list

theorem away {c : Nat} (inside : c ∈ conts) : c ≠ loc := by
  rintro rfl
  obtain ⟨e, form, -⟩ := list.main
  obtain ⟨x, form', -⟩ := list.continued c inside
  rw [form] at form'
  cases form'

theorem named : (db.entry loc).id = bid := by
  obtain ⟨e, form, id⟩ := list.main
  unfold SgDb.entry
  rw [form]
  exact id

theorem less (main : (db'.block loc) = .entry (db'.entry loc))
    (id : (db'.entry loc).id = (db.entry loc).id) (linked : Linked db'.load SgSlot.next (.nextsg loc) conts')
    (continued : ∀ c ∈ conts', db'.Continues bid c)
    (slots : Slots.Packed 0 (db'.sgSlots loc conts') ∧ (db.supergroups loc conts).Perm (aid :: db'.supergroups loc conts'))
    (count : (db'.entry loc).countsg = int32 ((db.entry loc).countsg - 1)) :
    SgList db' bid loc conts' ∧ (db.supergroups loc conts).Perm (aid :: db'.supergroups loc conts') ∧
      (db'.entry loc).countsg = (db.entry loc).countsg - 1 := by
  obtain ⟨packed, perm⟩ := slots
  have length := perm.length_eq
  rw [length_cons] at length
  have known := list.count
  have fits := list.fits
  rw [int32_less (by omega) fits] at count
  refine ⟨⟨?_, linked, continued, packed, ?_, ?_, ?_, ?_⟩, perm, count⟩
  · exact ⟨_, main, id.trans list.named⟩
  · exact (List.nodup_cons.mp (perm.nodup_iff.mp list.once)).2
  · exact fun again => list.other (perm.mem_iff.mpr (mem_cons_of_mem _ again))
  · omega
  · omega

theorem clear {slots : List Id} (now : UInt32)
    (found : clearIn aid (db.entry loc).supergroup = .found slots) (alive : aid ≠ badId) (more : aid ≠ 0) :
    TakesOut db aid bid loc conts (.ok (db.putEntry loc { db.entry loc with
      removeTime := now, supergroup := slots, countsg := int32 ((db.entry loc).countsg - 1) })) := by
  generalize new : { db.entry loc with
    removeTime := now, supergroup := slots, countsg := int32 ((db.entry loc).countsg - 1) } = e
  have kept {c : Nat} (inside : c ∈ conts) : (db.putEntry loc e).block c = db.block c :=
    update_of_ne (list.away inside) ..
  refine ⟨_, conts, rfl, list.less ?_ ?_ ?_ ?_ ?_ ?_⟩
  · rw [SgDb.entry_putEntry]
    exact update_self ..
  · rw [SgDb.entry_putEntry, ← new]
  · apply list.linked.congr
    · unfold SgDb.load
      dsimp only
      rw [SgDb.entry_putEntry, ← new]
    · exact fun c inside => SgDb.load_next_congr (kept inside)
  · exact fun c inside => (list.continued c inside).congr (kept inside)
  · refine @bury_blocks _ _ [] _ _ _ _ list.packed rfl found ?_ alive more
    left
    unfold SgDb.sgSlots
    have head : e.supergroup = slots := by rw [← new]
    rw [SgDb.entry_putEntry, head, SgDb.entries_congr fun c inside => kept inside]
    rfl
  · rw [SgDb.entry_putEntry, ← new]

end

variable {before after : List Nat} {c : Nat} {entries : List Id}

theorem sgSlots_split (split : conts = before ++ c :: after) :
    db.sgSlots loc conts = ((db.entry loc).supergroup :: before.map fun d => (db.cont d).entries) ++
      (db.cont c).entries :: after.map fun d => (db.cont d).entries := by
  unfold SgDb.sgSlots
  rw [split, map_append, map_cons, cons_append]

theorem clearLater (list : SgList db bid loc conts) (now : UInt32) (split : conts = before ++ c :: after)
    (found : clearIn aid (db.cont c).entries = .found entries) (alive : aid ≠ badId) (more : aid ≠ 0) :
    TakesOut db aid bid loc conts (.ok ((db.putCont c { db.cont c with entries := entries }).putEntry loc
      { db.entry loc with removeTime := now, countsg := int32 ((db.entry loc).countsg - 1) })) := by
  generalize new : { db.entry loc with removeTime := now, countsg := int32 ((db.entry loc).countsg - 1) } = e
  have inside : c ∈ conts := by simp [split]
  have away := list.away inside
  have once := list.linked.nodup
  rw [split, nodup_append, nodup_cons] at once
  generalize result : (db.putCont c { db.cont c with entries := entries }).putEntry loc e = db'
  have main : db'.block loc = .entry e := by
    rw [← result]
    exact update_self ..
  have entry : db'.entry loc = e := by
    unfold SgDb.entry
    rw [main]
  have here : db'.block c = .cont { db.cont c with entries := entries } := by
    rw [← result]
    exact (update_of_ne away ..).trans (update_self ..)
  have cont : db'.cont c = { db.cont c with entries := entries } := by
    unfold SgDb.cont
    rw [here]
    rfl
  have kept {d : Nat} (member : d ∈ conts) (other : d ≠ c) : db'.block d = db.block d := by
    rw [← result]
    exact (update_of_ne (list.away member) ..).trans (update_of_ne other ..)
  refine ⟨db', conts, rfl, list.less ?_ ?_ ?_ ?_ ?_ ?_⟩
  · rw [entry, main]
  · rw [entry, ← new]
  · apply list.linked.congr
    · unfold SgDb.load
      dsimp only
      rw [entry, ← new]
    intro d member
    by_cases other : d = c
    · unfold SgDb.load
      dsimp only
      rw [other, cont]
    · exact SgDb.load_next_congr (kept member other)
  · intro d member
    by_cases other : d = c
    · rw [other]
      exact ⟨_, here, (list.continued c inside).cont⟩
    · exact (list.continued d member).congr (kept member other)
  · refine bury_blocks list.packed (sgSlots_split split) found ?_ alive more
    left
    have front : (before.map fun d => (db'.cont d).entries) = before.map fun d => (db.cont d).entries :=
      SgDb.entries_congr fun d member => kept (by simp [split, member]) (once.2.2 d member c mem_cons_self)
    have back : (after.map fun d => (db'.cont d).entries) = after.map fun d => (db.cont d).entries :=
      SgDb.entries_congr fun d member => kept (by simp [split, member]) fun same => once.2.1.1 (same ▸ member)
    rw [sgSlots_split split, front, back, cont, entry, ← new]
  · rw [entry, ← new]

theorem clearFirst (list : SgList db bid loc conts) (now : UInt32) (split : conts = c :: after)
    (found : clearIn aid (db.cont c).entries = .found entries) (empty : ∀ x ∈ entries, x = badId ∨ x = 0)
    (alive : aid ≠ badId) (more : aid ≠ 0) :
    TakesOut db aid bid loc conts (.ok ((db.freeBlock c).putEntry loc { db.entry loc with
      removeTime := now, countsg := int32 ((db.entry loc).countsg - 1), nextsg := (db.cont c).next })) := by
  generalize new : { db.entry loc with
    removeTime := now, countsg := int32 ((db.entry loc).countsg - 1), nextsg := (db.cont c).next } = e
  subst split
  generalize result : (db.freeBlock c).putEntry loc e = db'
  have main : db'.block loc = .entry e := by
    rw [← result]
    exact update_self ..
  have entry : db'.entry loc = e := by
    unfold SgDb.entry
    rw [main]
  have kept {d : Nat} (member : d ∈ after) : db'.block d = db.block d := by
    have other : d ≠ c := fun same => (List.nodup_cons.mp list.linked.nodup).1 (same ▸ member)
    rw [← result]
    exact (update_of_ne (list.away (mem_cons_of_mem _ member)) ..).trans (update_of_ne other ..)
  refine ⟨db', after, rfl, list.less ?_ ?_ ?_ ?_ ?_ ?_⟩
  · rw [entry, main]
  · rw [entry, ← new]
  · have rest : Linked db.load SgSlot.next (.next c) after := list.linked.2.2
    have next (d : Nat) (member : d ∈ after) : db'.load (.next d) = db.load (.next d) := SgDb.load_next_congr (kept member)
    have head : db'.load (.nextsg loc) = db.load (.next c) := by
      unfold SgDb.load
      dsimp only
      rw [entry, ← new]
    cases after with
    | nil => exact head.trans rest
    | cons d after =>
      refine ⟨head.trans rest.1, rest.2.1, rest.2.2.congr (next d mem_cons_self) ?_⟩
      exact fun d member => next d (mem_cons_of_mem _ member)
  · exact fun d member => (list.continued d (mem_cons_of_mem _ member)).congr (kept member)
  · refine bury_blocks list.packed (@sgSlots_split db loc _ [] _ _ rfl) found (.inr ⟨?_, empty⟩) alive more
    unfold SgDb.sgSlots
    rw [entry, ← new, map_nil, cons_append, nil_append, SgDb.entries_congr fun d member => kept member]
  · rw [entry, ← new]

theorem clear_blanks (list : SgList db bid loc conts) {q : Nat} {front : List Nat} {less : PrEntryG} (some : bid ≠ 0)
    (split : conts = front ++ q :: c :: after) (next : less.nextsg = (db.entry loc).nextsg) :
    ¬ TakesOut db aid bid loc conts (.ok (((db.putCont q { next := (db.cont c).next }).freeBlock c).putEntry loc less)) := by
  have once := list.linked.nodup
  subst split
  generalize result : ((db.putCont q { next := (db.cont c).next }).freeBlock c).putEntry loc less = db'
  have awayQ : q ≠ loc := list.away (by simp)
  have apart : q ≠ c := by
    rintro rfl
    rw [nodup_append, nodup_cons] at once
    exact once.2.1.1 mem_cons_self
  have cont : db'.cont q = { next := (db.cont c).next } := by
    unfold SgDb.cont
    rw [← result]
    have same : (((db.putCont q { next := (db.cont c).next }).freeBlock c).putEntry loc less).block q =
        .cont { next := (db.cont c).next } :=
      (update_of_ne awayQ ..).trans ((update_of_ne apart ..).trans (update_self ..))
    rw [same]
    rfl
  have kept {d : Nat} (away : d ≠ loc) (notC : d ≠ c) (notQ : d ≠ q) : db'.block d = db.block d := by
    rw [← result]
    exact (update_of_ne away ..).trans ((update_of_ne notC ..).trans (update_of_ne notQ ..))
  have linked : Linked db'.load SgSlot.next (.nextsg loc) ((front ++ [q]) ++ after) := by
    have before : Linked db.load SgSlot.next (.nextsg loc) ((front ++ [q]) ++ c :: after) := by
      rw [append_assoc]
      exact list.linked
    refine before.unlink ?_ ?_ ?_ ?_ ?_
    · intro d d' same
      cases same
      rfl
    · intro d _ same
      cases same
    · rw [slotAfter_concat]
      unfold SgDb.load
      dsimp only
      rw [cont]
    · intro _
      unfold SgDb.load
      dsimp only
      rw [← result, SgDb.entry_putEntry, next]
    intro d member other
    rw [slotAfter_concat] at other
    have notQ : d ≠ q := fun same => other (by rw [same])
    have inside : d ∈ front ++ q :: c :: after := by
      simp only [mem_append, mem_cons, not_mem_nil, or_false] at member ⊢
      tauto
    have notC : d ≠ c := by
      rintro rfl
      simp only [nodup_append, nodup_cons, mem_append, mem_cons, not_mem_nil, or_false] at once member
      rcases member with (early | same) | late
      · exact once.2.2 d early d (.inr (.inl rfl)) rfl
      · exact notQ same
      · exact once.2.1.2.1 late
    exact SgDb.load_next_congr (kept (list.away inside) notC notQ)
  rintro ⟨_, conts', same, list', -⟩
  cases same
  have inside : q ∈ conts' := by
    rw [list'.linked.unique linked]
    simp
  have named := (list'.continued q inside).cont.1
  rw [cont] at named
  exact some named.symm

end SgList

section

variable {db : SgDb} {aid bid : Id} {loc : Nat} {conts : List Nat}

theorem not_later_of_inline (list : SgList db bid loc conts) (here : aid ∈ listed (db.entry loc).supergroup) :
    ¬ LastOfLater db aid conts := by
  rintro ⟨c, inside, alone⟩
  have there : (db.cont c).entries ∈ [] ++ conts.map fun d => (db.cont d).entries :=
    List.mem_map.mpr ⟨c, mem_of_mem_tail inside, rfl⟩
  refine @listed_alone [] _ _ _ _ list.once here there ?_
  rw [alone]
  exact mem_singleton_self aid

theorem later_iff (list : SgList db bid loc conts) {before after : List Nat} {c : Nat}
    (split : conts = before ++ c :: after) (here : aid ∈ listed (db.cont c).entries) :
    LastOfLater db aid conts ↔ before ≠ [] ∧ listed (db.cont c).entries = [aid] := by
  have distinct := list.linked.nodup
  constructor
  · rintro ⟨d, later, alone⟩
    have same : d = c := by
      by_contra other
      have inside : d ∈ before ++ after := by
        have member := mem_of_mem_tail later
        rw [split, mem_append, mem_cons] at member
        rw [mem_append]
        tauto
      have once := list.once
      unfold SgDb.supergroups at once
      rw [SgList.sgSlots_split split] at once
      have there : (db.cont d).entries ∈ ((db.entry loc).supergroup :: before.map fun e => (db.cont e).entries) ++
          after.map fun e => (db.cont e).entries := by
        rw [cons_append, ← map_append]
        exact mem_cons_of_mem _ (List.mem_map.mpr ⟨d, inside, rfl⟩)
      refine listed_alone once here there ?_
      rw [alone]
      exact mem_singleton_self aid
    rw [same] at later alone
    refine ⟨?_, alone⟩
    rintro rfl
    rw [split, nil_append] at later distinct
    exact (List.nodup_cons.mp distinct).1 later
  · rintro ⟨some, alone⟩
    obtain ⟨first, rest, rfl⟩ := exists_cons_of_ne_nil some
    exact ⟨c, by simp [split], alone⟩

theorem removeFromSGEntry_cases (now : UInt32) (found : db.findByID bid = .ok loc) (some : loc ≠ 0) (list : SgList db bid loc conts)
    (inFile : ∀ c ∈ conts, c < db.header.eofPtr) (member : aid ∈ db.supergroups loc conts) :
    LastOfLater db aid conts ∧ ¬ TakesOut db aid bid loc conts (db.removeFromSGEntry now aid bid) ∨
      ¬ LastOfLater db aid conts ∧ TakesOut db aid bid loc conts (db.removeFromSGEntry now aid bid) := by
  have plain : aid ≠ badId ∧ aid ≠ 0 := by
    obtain ⟨l, -, here⟩ := List.mem_flatMap.mp member
    exact (Slots.mem_shown here).2
  have group : bid ≠ 0 := by
    rintro rfl
    cases found
    exact some rfl
  have different : aid ≠ bid := fun same => list.other (same ▸ member)
  have enough : conts.length < db.fuel := by
    have below : conts ⊆ List.range db.header.eofPtr := fun c inside => List.mem_range.mpr (inFile c inside)
    have few := (list.linked.nodup.subperm below).length_le
    rw [length_range] at few
    exact Nat.lt_succ_of_le few
  unfold SgDb.removeFromSGEntry
  simp only [bind, Except.bind, found]
  rw [ensure, if_pos different, ensure, if_pos some]
  cases scan : clearIn aid (db.entry loc).supergroup with
  | found slots =>
    right
    refine ⟨not_later_of_inline list (listed_of_found scan plain.1 plain.2), ?_⟩
    exact list.clear now scan plain.1 plain.2
  | ended =>
    -- a list that ends in the entry has no continuation block
    obtain ⟨stop, out⟩ := clearIn_ended scan
    have none : conts.map (fun c => (db.cont c).entries) = [] := @Slots.Packed.last _ 0 [] _ _ list.packed stop
    unfold SgDb.supergroups SgDb.sgSlots at member
    rw [none] at member
    obtain ⟨l, inside, here⟩ := List.mem_flatMap.mp member
    rw [List.mem_singleton.mp inside] at here
    exact absurd here out
  | passed =>
    have inside : ∃ c ∈ conts, aid ∈ listed (db.cont c).entries := by
      obtain ⟨l, inside, here⟩ := List.mem_flatMap.mp member
      rcases List.mem_cons.mp inside with rfl | later
      · exact absurd (Slots.mem_shown here).1 (clearIn_passed scan).2
      · obtain ⟨c, behind, rfl⟩ := List.mem_map.mp later
        exact ⟨c, behind, here⟩
    obtain ⟨before, c, after, entries, split, hit, result⟩ :=
      @SgDb.removeFromSG_finds db aid bid loc { db.entry loc with removeTime := now } db.fuel 0 (.nextsg loc) conts
        list.linked enough list.continued (@Slots.Packed.erase _ 0 [] _ _ list.packed) inside
    have packed := list.packed
    rw [SgList.sgSlots_split split] at packed
    have empties := emptied_iff packed.block hit plain.1 plain.2
    rw [later_iff list split (listed_of_found hit plain.1 plain.2)]
    refine result ▸ ?_
    unfold SgDb.shrink
    dsimp only
    split
    · rename_i empty
      rcases eq_nil_or_concat' before with rfl | ⟨front, q, rfl⟩
      · right
        refine ⟨fun later => later.1 rfl, ?_⟩
        exact list.clearFirst now split hit empty plain.1 plain.2
      left
      refine ⟨⟨by simp, empties.mp empty⟩, ?_⟩
      rw [append_assoc] at split
      have nonzero : q ≠ 0 := list.linked.ne_zero (by simp [split])
      rw [getLastD_concat, if_neg nonzero]
      exact list.clear_blanks group split rfl
    · rename_i rest
      right
      refine ⟨fun later => rest (empties.mpr later.2), ?_⟩
      exact list.clearLater now split hit plain.1 plain.2

/-- `RemoveFromSGEntry` takes an id out of the supergroups of a group and leaves everything else in its list exactly if
    it does not have to free a continuation block other than the first. -/
theorem supergroup_taken_out (now : UInt32) (found : db.findByID bid = .ok loc) (some : loc ≠ 0) (list : SgList db bid loc conts)
    (inFile : ∀ c ∈ conts, c < db.header.eofPtr) (member : aid ∈ db.supergroups loc conts) :
    TakesOut db aid bid loc conts (db.removeFromSGEntry now aid bid) ↔ ¬ LastOfLater db aid conts := by
  rcases removeFromSGEntry_cases now found some list inFile member with ⟨later, fails⟩ | ⟨early, works⟩
  · exact iff_of_false fails (not_not_intro later)
  · exact iff_of_true works early

end

def sampleSg (last : List Id) : SgDb where
  header := { eofPtr := 66176, idHash := fun n => if n = 300 then 65600 else 0 }
  block b :=
    if b = 65600 then .entry { flags := prGrp, id := -300, nextsg := 65792, countsg := 41 + last.length, supergroup := [-301, -302] }
    else if b = 65792 then
      .cont { flags := prCont, id := -300, next := 65984, entries := (List.range coSize).map fun i => -(1000 + (i : Int)) }
    else .cont { flags := prCont, id := -300, entries := last ++ List.replicate (coSize - last.length) 0 }

theorem sampleSg_list {last : List Id} (known : last = [-400] ∨ last = [-400, -401]) :
    SgList (sampleSg last) (-300) 65600 [65792, 65984] := by
  have slots : (sampleSg last).sgSlots 65600 [65792, 65984] = [[-301, -302],
      (List.range coSize).map fun i => -(1000 + (i : Int)), last ++ List.replicate (coSize - last.length) 0] := rfl
  refine ⟨⟨_, rfl, rfl⟩, ⟨rfl, by decide, rfl, by decide, rfl⟩, ?_, ?_, ?_, ?_, ?_, ?_⟩
  · intro c inside
    rcases List.mem_cons.mp inside with rfl | later
    · exact ⟨_, rfl, rfl, by decide⟩
    · cases List.mem_singleton.mp later
      exact ⟨_, rfl, rfl, fun none => absurd (show prCont &&& prCont = 0 from none) (by decide)⟩
  · rw [slots]
    refine ⟨by decide, by decide +kernel, last, _, rfl, ?_⟩
    rcases known with rfl | rfl <;> decide
  · rcases known with rfl | rfl <;> decide +kernel
  · rcases known with rfl | rfl <;> decide +kernel
  · rcases known with rfl | rfl <;> decide +kernel
  · rcases known with rfl | rfl <;> decide +kernel

theorem supergroup_taken_out_second_block : TakesOut (sampleSg [-400, -401]) (-400) (-300) 65600 [65792, 65984]
        ((sampleSg [-400, -401]).removeFromSGEntry 7 (-400) (-300)) ↔
      ¬ LastOfLater (sampleSg [-400, -401]) (-400) [65792, 65984] :=
  supergroup_taken_out 7 (by decide +kernel) (by decide) (sampleSg_list (.inr rfl)) (by decide) (by decide +kernel)

/-- With the last id of the second block the 39 ids of the first are gone. -/
theorem freed_block_blanks_another : ¬ ∀ (db : SgDb) (aid bid : Id) (loc : Nat) (conts : List Nat) (now : UInt32),
    db.findByID bid = .ok loc → loc ≠ 0 → SgList db bid loc conts → (∀ c ∈ conts, c < db.header.eofPtr) →
      aid ∈ db.supergroups loc conts → TakesOut db aid bid loc conts (db.removeFromSGEntry now aid bid) := by
  intro all
  have found : (sampleSg [-400]).findByID (-300) = .ok 65600 := by decide +kernel
  have inFile : ∀ c ∈ [65792, 65984], c < (sampleSg [-400]).header.eofPtr := by decide
  have member : -400 ∈ (sampleSg [-400]).supergroups 65600 [65792, 65984] := by decide +kernel
  have later : LastOfLater (sampleSg [-400]) (-400) [65792, 65984] := ⟨65984, by decide, by decide +kernel⟩
  have list := sampleSg_list (.inl (Eq.refl [-400]))
  have claimed := all (sampleSg [-400]) (-400) (-300) 65600 [65792, 65984] 7 found (by decide) list inFile member
  rcases removeFromSGEntry_cases 7 found (by decide) list inFile member with ⟨-, fails⟩ | ⟨early, -⟩
  · exact fails claimed
  · exact early later

end OpenAFS.Ptserver
