import OpenAFS.Budb.HashMap

namespace OpenAFS.Budb

open Lib List

variable {κ : Type}

/-- An entry that may be hashed in: it lies in a block in use, apart from the others, and its key is new. -/
structure Fits (ty : EntryType κ) (owned : List Nat) (live : List (κ × Nat)) (ea : Nat) (key : κ) : Prop where
  home : Placed ty owned ea
  apart : ∀ p ∈ live, Apart ty ea p.2
  fresh : ∀ p ∈ live, p.1 ≠ key

section

variable [DecidableEq κ]

/-- A sequence of calls from an empty database, with what the callers do between them. After `ht_HashIn` its caller writes
the structure, which then has the key. -/
inductive Run (ty : EntryType κ) : Db → List Nat → List (κ × Nat) → Prop where
  | created : Run ty {} [] []
  | hashIn {db db' owned live words ea e e'} : Run ty db owned live → Fits ty owned live ea (ty.key e) →
      db.htHashIn ty ea e = .ok (db', e') → Rewritten ty db' owned ((ty.key e, ea) :: live) words →
      Run ty { db' with disk := words } owned ((ty.key e, ea) :: live)
  | hashOut {db db' owned live key ea} : Run ty db owned live → (key, ea) ∈ live →
      db.htHashOut ty ea (db.entry ea) = .ok db' → Run ty db' owned (live.filter fun p => p.2 ≠ ea)
  | lookup {db db' owned live key a} : Run ty db owned live → db.htLookupEntry ty key = .ok (db', a) → Run ty db' owned live
  | reset {db owned live} : Run ty db owned live → Run ty db.htReset owned live
  | allocBlock {db db' owned live a} : Run ty db owned live → db.allocBlock = .ok (db', a) → Run ty db' (a :: owned) live
  | freeBlock {db db' owned live a} : Run ty db owned live → a ∈ owned → (∀ p ∈ live, blockBase p.2 ≠ a) →
      db.freeBlock a = .ok db' → Run ty db' (owned.filter fun b => b ≠ a) live
  | write {db owned live words} : Run ty db owned live → Rewritten ty db owned live words →
      Run ty { db with disk := words } owned live

/-- A stage of the growth: between the calls or within one, where every entry is on a chain. -/
inductive Stage (ty : EntryType κ) : Db → List (κ × Nat) → Prop where
  | between {db owned live} : Run ty db owned live → Stage ty db live
  | adjusted {db owned live} : Run ty db owned live → Stage ty db.htMaybeAdjust live
  | allocated {db db' owned live} : Run ty db owned live → db.htMaybeAdjust.mht.length = 0 →
      db.htMaybeAdjust.htAllocTable ty = .ok db' → Stage ty db' live
  | inserted {db db' owned live words ea e e'} : Run ty db owned live → Fits ty owned live ea (ty.key e) →
      db.insert ty ea e = .ok (db', e') → Rewritten ty db' owned ((ty.key e, ea) :: live) words →
      Stage ty { db' with disk := words } ((ty.key e, ea) :: live)
  | removed {db db' owned live key ea done} : Run ty db owned live → (key, ea) ∈ live →
      db.remove ty ea (db.entry ea) = .ok (db', done) → Stage ty db' (live.filter fun p => p.2 ≠ ea)
  | moved {db db' live} : Stage ty db live → db.mht.length ≠ 0 → db.mht.progress < db.mht.oldLength →
      db.moveSome ty = .ok db' → Stage ty db' live

structure Mapped (ty : EntryType κ) (db : Db) (live : List (κ × Nat)) : Prop where
  lookup : ∀ key, ∃ db', db.htLookupEntry ty key = .ok (db', (live.lookup key).getD 0)
  nonzero : ∀ p ∈ live, p.2 ≠ 0
  once : (live.map Prod.fst).Nodup
  chains : ∃ chain : Bool → Nat → List Nat,
    (∀ side i, i < db.mht.lengthOf side → Linked id (db.thread ty) (db.diskBucket side i) (chain side i)) ∧
    (∀ side i, i < db.mht.lengthOf side → (chain side i).Nodup ∧ ∀ ea ∈ chain side i, ∃ p ∈ live, p.2 = ea) ∧
    ∀ p ∈ live, ∃! place : Bool × Nat, place.2 < db.mht.lengthOf place.1 ∧ p.2 ∈ chain place.1 place.2
  passed : ∀ i < db.ht.progress, i < db.mht.oldLength → db.diskBucket true i = 0
  entries : db.ht.entries = live.length
  /-- `ht_MoveEntries` frees the old table when the progress is not less than its length. -/
  empty : db.mht.oldLength ≤ db.mht.progress → ∀ i < db.mht.oldLength, db.diskBucket true i = 0

end

variable {ty : EntryType κ} {keyOf : Nat → κ} {db db' : Db} {v : View} {new old owned : List Nat} {live : List (κ × Nat)}
  {words : Nat → Nat}

structure Held (ty : EntryType κ) (keyOf : Nat → κ) (db : Db) (v : View) (new old owned : List Nat)
    (live : List (κ × Nat)) : Prop where
  layout : Layout ty db v
  chains : Chains ty keyOf db v new old
  entries : db.ht.entries = v.cells.length
  progress : db.ht.progress ≤ db.mht.progress
  listed : Listed keyOf v owned live
  known : ∀ c ∈ v.cells, ty.key (db.entry c) = keyOf c

structure Between (ty : EntryType κ) (keyOf : Nat → κ) (db : Db) (v : View) (new old owned : List Nat)
    (live : List (κ × Nat)) : Prop where
  whole : Whole ty keyOf db v new old
  listed : Listed keyOf v owned live
  known : ∀ c ∈ v.cells, ty.key (db.entry c) = keyOf c

theorem Between.held (between : Between ty keyOf db v new old owned live) : Held ty keyOf db v new old owned live :=
  ⟨between.whole.layout, between.whole.chains, between.whole.entries, between.whole.progress.le, between.listed, between.known⟩

variable {key : κ}

theorem Listed.admit (listed : Listed keyOf v owned live) {ea : Nat} (fits : Fits ty owned live ea key) :
    ∃ keyOf' : Nat → κ, (∀ c ∈ v.cells, keyOf' c = keyOf c) ∧ keyOf' ea = key ∧ Placed ty v.owned ea ∧
      ∀ c ∈ v.cells, Apart ty ea c := by
  have apart : ∀ c ∈ v.cells, Apart ty ea c := fun c cell => fits.apart _ (listed.pair cell)
  refine ⟨Function.update keyOf ea key, fun c cell => Function.update_of_ne ?_ .., Function.update_self .., ?_, apart⟩
  · rintro rfl
    have inside := ty.threadInside
    rcases apart c cell with left | right <;> omega
  · rw [listed.owned]
    exact fits.home

theorem Listed.cons {keyOf' : Nat → κ} {v' : View} (listed : Listed keyOf v owned live) {ea : Nat}
    (fits : Fits ty owned live ea key) (same : ∀ c ∈ v.cells, keyOf' c = keyOf c) (here : keyOf' ea = key)
    (cells : v'.cells = ea :: v.cells) (owned' : v'.owned = v.owned) : Listed keyOf' v' owned ((key, ea) :: live) where
  owned := owned'.trans listed.owned
  cells := by rw [cells, listed.cells, map_cons]
  keys := by
    intro p inside
    rcases List.mem_cons.mp inside with rfl | inside
    · exact here
    · rw [same _ (listed.cell inside)]
      exact listed.keys p inside
  once := by
    rw [map_cons, nodup_cons]
    refine ⟨fun again => ?_, listed.once⟩
    obtain ⟨p, inside, same⟩ := List.mem_map.mp again
    exact fits.fresh p inside same

theorem Listed.filter {v' : View} (listed : Listed keyOf v owned live) {ea : Nat}
    (cells : v'.cells = v.cells.filter fun c => c ≠ ea) (owned' : v'.owned = v.owned) :
    Listed keyOf v' owned (live.filter fun p => p.2 ≠ ea) where
  owned := owned'.trans listed.owned
  cells := by
    rw [cells, listed.cells, filter_map]
    rfl
  keys := fun p inside => listed.keys p (mem_of_mem_filter inside)
  once := listed.once.sublist (List.filter_sublist.map _)

theorem Db.blockAt_eq {head : Nat} {B : List Nat} (chain : Linked id (fun a => db.disk (a + 4)) head B) {n a : Nat}
    (here : B[n]? = some a) : db.blockAt head n = a := by
  induction n generalizing head B with
  | zero =>
    cases B with
    | nil => cases here
    | cons b rest => exact chain.1.trans (Option.some.inj here)
  | succ n ih =>
    cases B with
    | nil => cases here
    | cons b rest =>
      have first : head = b := chain.1
      subst first
      exact ih chain.2.2 here

theorem Layout.diskBucket_eq (lay : Layout ty db v) {side : Bool} {i : Nat} (within : i < db.mht.lengthOf side) :
    db.diskBucket side i = db.load ty v (.head side i) := by
  obtain ⟨a, here, -, place, -⟩ := lay.blockOf within
  unfold Db.diskBucket Db.load
  rw [place, Db.blockAt_eq (lay.table side).chain here, Nat.add_assoc]

section

variable [DecidableEq κ]

theorem lookup_of_mem {a : Nat} (once : (live.map Prod.fst).Nodup) (inside : (key, a) ∈ live) :
    live.lookup key = some a := by
  obtain ⟨before, after, rfl⟩ := append_of_mem inside
  refine List.lookup_eq_some_iff.mpr ⟨before, after, rfl, fun p member => ?_⟩
  rw [map_append, nodup_append] at once
  have other := once.2.2 p.1 (mem_map_of_mem member) key mem_cons_self
  simpa using Ne.symm other

theorem Held.mapped (held : Held ty keyOf db v new old owned live) : Mapped ty db live := by
  have lay := held.layout
  have listed := held.listed
  have onSide (side : Bool) (i : Nat) (within : i < db.mht.lengthOf side) :
      Linked id (db.thread ty) (db.diskBucket side i)
        ((cond side old new).filter fun c => hashOf ty keyOf c % db.mht.lengthOf side = i) := by
    rw [lay.diskBucket_eq within]
    exact (held.chains.table side i within).values
  have passed (i : Nat) (below : i < db.mht.progress) (within : i < db.mht.oldLength) : db.diskBucket true i = 0 := by
    have linked := onSide true i within
    have none : ((cond true old new).filter fun c => hashOf ty keyOf c % db.mht.lengthOf true = i) = [] := by
      rw [filter_eq_nil_iff]
      intro c inside here
      have least := held.chains.passed c inside
      have same := of_decide_eq_true here
      omega
    rw [none] at linked
    exact linked
  have apart := List.nodup_append.mp (held.chains.cells.nodup_iff.mp lay.cells_nodup)
  refine ⟨?_, ?_, listed.once, ⟨_, onSide, ?_, ?_⟩, ?_, ?_, ?_⟩
  · intro key
    obtain ⟨db', a, done, -, -, -, outcome⟩ := lookupEntry_found lay held.chains held.known key
    refine ⟨db', done.trans (congrArg (fun a => Except.ok (db', a)) ?_)⟩
    rcases outcome with ⟨zero, missing⟩ | ⟨cell, same⟩
    · have none : live.lookup key = none := by
        rw [lookup_eq_none_iff]
        intro p inside
        have other := missing p.2 (listed.cell inside)
        rw [listed.keys p inside] at other
        simpa using Ne.symm other
      rw [zero, none]
      rfl
    · have pair := listed.pair cell
      rw [same] at pair
      rw [lookup_of_mem listed.once pair]
      rfl
  · exact fun p inside => lay.cell_ne_zero (listed.cell inside)
  · intro side i within
    refine ⟨(onSide side i within).nodup, fun ea member => ?_⟩
    exact ⟨_, listed.pair (held.chains.onSide (mem_of_mem_filter member)), rfl⟩
  · intro p inside
    have place (side : Bool) (member : p.2 ∈ cond side old new) :
        ∃ place : Bool × Nat, place.2 < db.mht.lengthOf place.1 ∧
          p.2 ∈ (cond place.1 old new).filter fun c => hashOf ty keyOf c % db.mht.lengthOf place.1 = place.2 := by
      refine ⟨(side, hashOf ty keyOf p.2 % db.mht.lengthOf side), Nat.mod_lt _ (Nat.pos_of_ne_zero fun zero => ?_), ?_⟩
      · have empty : cond side old new = [] := by
          cases side
          · exact held.chains.newEmpty zero
          · exact held.chains.oldEmpty zero
        rw [empty] at member
        cases member
      · exact List.mem_filter.mpr ⟨member, decide_eq_true rfl⟩
    obtain ⟨found, inside'⟩ : ∃ place : Bool × Nat, place.2 < db.mht.lengthOf place.1 ∧
        p.2 ∈ (cond place.1 old new).filter fun c => hashOf ty keyOf c % db.mht.lengthOf place.1 = place.2 := by
      rcases List.mem_append.mp (held.chains.cells.mem_iff.mp (listed.cell inside)) with inNew | inOld
      · exact place false inNew
      · exact place true inOld
    refine ⟨found, inside', ?_⟩
    -- the entry is in one table only, and there its hash tells the bucket
    rintro ⟨side, i⟩ ⟨-, member⟩
    obtain ⟨there, bucket⟩ := List.mem_filter.mp member
    obtain ⟨here, bucket'⟩ := List.mem_filter.mp inside'.2
    have sides : side = found.1 := by
      by_contra other
      have both : p.2 ∈ new ∧ p.2 ∈ old := by
        cases side <;> cases side' : found.1 <;> simp_all
      exact apart.2.2 p.2 both.1 p.2 both.2 rfl
    subst sides
    exact Prod.ext rfl ((of_decide_eq_true bucket).symm.trans (of_decide_eq_true bucket'))
  · exact fun i below => passed i (Nat.lt_of_lt_of_le below held.progress)
  · rw [held.entries, listed.cells, length_map]
  · exact fun end_ i within => passed i (Nat.lt_of_lt_of_le within end_) within

end

structure Admitted (ty : EntryType κ) (keyOf : Nat → κ) (v : View) (owned : List Nat) (live : List (κ × Nat)) (ea : Nat)
    (e : Nat → Nat) (db' : Db) (e' : Nat → Nat) (keyOf' : Nat → κ) (v' : View) (new' old' : List Nat) : Prop where
  whole : Whole ty keyOf' db' v' new' old'
  listed : Listed keyOf' v' owned ((ty.key e, ea) :: live)
  keys : ∀ p ∈ live, ty.key (db'.entry p.2) = p.1
  thread : db'.thread ty ea = e' ty.threadOffset
  data : ∀ i ≠ ty.threadOffset, e' i = e i

section

variable {ea : Nat} {e e' : Nat → Nat} {keyOf' : Nat → κ} {v' : View} {new' old' : List Nat}

theorem Between.rekey (between : Between ty keyOf db v new old owned live) (same : ∀ c ∈ v.cells, keyOf' c = keyOf c) :
    Whole ty keyOf' db v new old ∧ ∀ c ∈ v.cells, ty.key (db.entry c) = keyOf' c :=
  ⟨between.whole.rekey same, fun c cell => (between.known c cell).trans (same c cell).symm⟩

theorem Admitted.write (admitted : Admitted ty keyOf v owned live ea e db' e' keyOf' v' new' old')
    (written : Rewritten ty db' owned ((ty.key e, ea) :: live) words) :
    Between ty keyOf' { db' with disk := words } v' new' old' owned ((ty.key e, ea) :: live) :=
  ⟨written.whole admitted.listed admitted.whole, admitted.listed, fun _ cell => written.key admitted.listed cell⟩

theorem Admitted.structure (admitted : Admitted ty keyOf v owned live ea e db' e' keyOf' v' new' old')
    (fits : Fits ty owned live ea (ty.key e)) :
    ∃ words, db'.writeWords ea ty.size e' = .ok { db' with disk := words } ∧
      Rewritten ty db' owned ((ty.key e, ea) :: live) words := by
  have lay := admitted.whole.layout
  have inside := ty.threadInside
  have cell : ea ∈ v'.cells := admitted.listed.cell mem_cons_self
  have bounds := lay.cell_inside (i := 0) cell (by omega)
  have apart (p : κ × Nat) (member : p ∈ live) (i : Nat) (within : i < ty.size) :
      overwrite db'.disk ea ty.size e' (p.2 + i) = db'.disk (p.2 + i) := by
    refine if_neg fun hit => ?_
    rcases fits.apart p member with left | right <;> omega
  refine ⟨_, writeWords_ok db' ty.size e' bounds.1 bounds.2, ?_, ?_, ?_⟩
  · intro p outside
    refine if_neg fun hit => outside ?_
    have there := lay.elsewhere (i := p - ea) cell (by omega)
    rw [Nat.add_sub_cancel' hit.1, admitted.listed.owned] at there
    exact there
  · intro p member
    rcases List.mem_cons.mp member with rfl | member
    · rw [overwrite_inside inside]
      exact admitted.thread.symm
    · exact apart p member _ inside
  · intro p member
    rcases List.mem_cons.mp member with rfl | member
    · refine ty.key_congr _ _ fun i within data => ?_
      rw [overwrite_inside within]
      exact admitted.data i data
    · rw [← admitted.keys p member]
      exact ty.key_congr _ _ fun i within _ => apart p member i within

variable (between : Between ty keyOf db v new old owned live)
include between

theorem Between.insert (fits : Fits ty owned live ea (ty.key e)) :
    ∃ db' e' keyOf' v' new' old', db.insert ty ea e = .ok (db', e') ∧
      Admitted ty keyOf v owned live ea e db' e' keyOf' v' new' old' := by
  obtain ⟨keyOf', same, here, home, apart⟩ := between.listed.admit fits
  obtain ⟨whole, known⟩ := between.rekey same
  obtain ⟨db', e', v', new', old', done, inserted⟩ := whole.insert known home apart here
  have listed := between.listed.cons fits same here inserted.cells inserted.owned
  refine ⟨db', e', keyOf', v', new', old', done, inserted.whole, listed, ?_, inserted.thread, inserted.data⟩
  intro p member
  have cell := between.listed.cell member
  rw [inserted.keys p.2 cell, known p.2 cell]
  exact listed.keys p (mem_cons_of_mem _ member)

theorem Between.hashIn (fits : Fits ty owned live ea (ty.key e)) :
    ∃ db' e' keyOf' v' new' old', db.htHashIn ty ea e = .ok (db', e') ∧
      Admitted ty keyOf v owned live ea e db' e' keyOf' v' new' old' := by
  obtain ⟨keyOf', same, here, home, apart⟩ := between.listed.admit fits
  obtain ⟨whole, known⟩ := between.rekey same
  obtain ⟨db', e', v', new', old', done, whole', cells, owned', keys, thread, data⟩ := whole.hashIn known home apart here
  have listed := between.listed.cons fits same here cells owned'
  refine ⟨db', e', keyOf', v', new', old', done, whole', listed, ?_, thread, data⟩
  intro p member
  rw [keys p.2 (between.listed.cell member)]
  exact listed.keys p (mem_cons_of_mem _ member)

theorem Between.remove (inside : (key, ea) ∈ live) :
    ∃ db' done v' new' old', db.remove ty ea (db.entry ea) = .ok (db', done) ∧
      Between ty keyOf db' v' new' old' owned (live.filter fun p => p.2 ≠ ea) := by
  obtain ⟨db', done, new', old', removed, whole, keys, -⟩ := between.whole.remove between.known (between.listed.cell inside)
  refine ⟨db', done, _, new', old', removed, whole, between.listed.filter rfl rfl, ?_⟩
  intro c member
  have cell := mem_of_mem_filter member
  exact (keys c cell).trans (between.known c cell)

theorem Between.hashOut (inside : (key, ea) ∈ live) :
    ∃ db' v' new' old', db.htHashOut ty ea (db.entry ea) = .ok db' ∧
      Between ty keyOf db' v' new' old' owned (live.filter fun p => p.2 ≠ ea) := by
  obtain ⟨db', v', new', old', done, whole, cells, owned', known⟩ := between.whole.hashOut between.known
    (between.listed.cell inside)
  exact ⟨db', v', new', old', done, whole, between.listed.filter cells owned', known⟩

end

section

variable (between : Between ty keyOf db v new old owned live)
include between

theorem Between.carry {v' : View} {new' old' : List Nat}
    (whole : Whole ty keyOf db' v' new' old') (carried : Carried ty db v db' v') :
    Between ty keyOf db' v' new' old' owned live := by
  refine ⟨whole, ⟨carried.owned.trans between.listed.owned, carried.cells.trans between.listed.cells, between.listed.keys,
    between.listed.once⟩, ?_⟩
  intro c cell
  rw [carried.cells] at cell
  exact (carried.keys c cell).trans (between.known c cell)

theorem Between.reuse {free owned' : List Nat} (same : Same db db')
    (disk : db'.disk = db.disk) (lay : Layout ty db' { v with free, owned := owned' }) :
    Between ty keyOf db' { v with free, owned := owned' } new old owned' live := by
  obtain ⟨⟨-, chains, entries, progress, within⟩, listed, known⟩ := between
  have entry : db'.entry = db.entry := by
    funext c i
    unfold Db.entry
    rw [disk]
  have lengthOf (side : Bool) : db'.mht.lengthOf side = db.mht.lengthOf side := by rw [same.mht]
  have chains' : Chains ty keyOf db' v new old := by
    refine chains.congr lengthOf (by rw [same.mht]) (fun s _ => ?_) fun c _ => by rw [entry]
    unfold Db.load
    rw [disk]
  refine ⟨⟨lay, ⟨chains'.cells, chains'.newTable, chains'.oldTable, chains'.newEmpty, chains'.oldEmpty, chains'.passed,
    chains'.known⟩, ?_, ?_, ?_⟩, ⟨rfl, listed.cells, listed.keys, listed.once⟩, ?_⟩
  · rw [same.ht]
    exact entries
  · rw [same.ht, same.mht]
    exact progress
  · rw [same.mht]
    exact within
  · intro c cell
    rw [entry]
    exact known c cell

theorem Between.freeBlock {a : Nat} (inside : a ∈ owned)
    (unused : ∀ p ∈ live, blockBase p.2 ≠ a) (done : db.freeBlock a = .ok db') :
    ∃ v, Between ty keyOf db' v new old (owned.filter fun b => b ≠ a) live := by
  have lay := between.whole.layout
  have listed := between.listed
  have member : a ∈ v.owned := listed.owned.symm ▸ inside
  have here := lay.block a (mem_append_right _ member)
  -- the header of a free block is written over words of no entry
  have freed : db.freeBlock a = .ok { db with
      freePtr := a
      disk := overwrite db.disk a 8 (emptyBlock 0 db.freePtr) } :=
    except_bind_eq_ok.mpr
      ⟨(), ensure_eq_ok.mpr here.base.symm, writeWords_ok { db with freePtr := a } 8 _ here.behind here.inside⟩
  cases done.symm.trans freed
  have apart (p : κ × Nat) (pair : p ∈ live) (i : Nat) (within : i < ty.size) :
      overwrite db.disk a 8 (emptyBlock 0 db.freePtr) (p.2 + i) = db.disk (p.2 + i) := by
    refine overwrite_elsewhere here (by decide) fun same => unused p pair ?_
    obtain ⟨b, home, low, high⟩ := lay.placed p.2 (listed.cell pair)
    have block := lay.block b (mem_append_right _ home)
    have base := blockBase_add (k := p.2 - b) block.behind block.base (by omega)
    have base' := blockBase_add (k := p.2 + i - b) block.behind block.base (by omega)
    rw [Nat.add_sub_cancel' (by omega)] at base base'
    rw [base, ← base']
    exact same
  have written : Rewritten ty db owned live (overwrite db.disk a 8 (emptyBlock 0 db.freePtr)) := by
    refine ⟨fun p outside => ?_, fun p pair => apart p pair _ ty.threadInside, fun p pair => ?_⟩
    · exact overwrite_elsewhere here (by decide) fun same => outside (same ▸ inside)
    · rw [← listed.keys p pair, ← between.known p.2 (listed.cell pair)]
      exact ty.key_congr _ _ fun i within _ => apart p pair i within
  have between₁ : Between ty keyOf { db with disk := overwrite db.disk a 8 (emptyBlock 0 db.freePtr) } v new old owned live :=
    ⟨written.whole listed between.whole, listed, fun _ cell => written.key listed cell⟩
  have empty : ∀ c ∈ v.cells, blockBase c ≠ a := fun c cell => unused (keyOf c, c) (listed.pair cell)
  have next : overwrite db.disk a 8 (emptyBlock 0 db.freePtr) (a + 4) = db.freePtr := overwrite_inside (by decide)
  have retired := between₁.whole.layout.retire member empty next
  rw [listed.owned] at retired
  exact ⟨_, between₁.reuse ⟨rfl, rfl, Nat.le_refl _⟩ rfl retired⟩

end

theorem created_between : Between ty (fun _ => ty.key fun _ => 0) {} {} [] [] [] [] := by
  refine ⟨⟨⟨?_, ?_, ?_, rfl, ?_, nodup_nil, ⟨Nat.le_refl _, rfl⟩, ?_, List.Pairwise.nil⟩, ⟨List.Perm.refl _, ?_, ?_,
    fun _ => rfl, fun _ => rfl, ?_, ?_⟩, rfl, rfl, fun some => ?_⟩, ⟨rfl, rfl, ?_, nodup_nil⟩, ?_⟩
  · intro side
    cases side <;> rfl
  · intro side
    cases side <;> exact ⟨rfl, (Nat.zero_mul _).symm⟩
  · intro side
    cases side <;> exact Cached.none _ _ _
  · exact fun _ none => nomatch none
  · exact fun _ none => nomatch none
  · exact fun i within => absurd within (Nat.not_lt_zero i)
  · exact fun i within => absurd within (Nat.not_lt_zero i)
  · exact fun _ none => nomatch none
  · exact fun _ none => nomatch none
  · exact absurd rfl some
  · exact fun _ none => nomatch none
  · exact fun _ none => nomatch none

section

variable [DecidableEq κ]

theorem Run.between (run : Run ty db owned live) : ∃ keyOf v new old, Between ty keyOf db v new old owned live := by
  induction run with
  | created => exact ⟨_, {}, [], [], created_between⟩
  | hashIn _ fits done written ih =>
    obtain ⟨keyOf, v, new, old, between⟩ := ih
    obtain ⟨db₁, e₁, keyOf₁, v₁, new₁, old₁, done₁, admitted⟩ := between.hashIn fits
    cases done.symm.trans done₁
    exact ⟨keyOf₁, v₁, new₁, old₁, admitted.write written⟩
  | hashOut _ inside done ih =>
    obtain ⟨keyOf, v, new, old, between⟩ := ih
    obtain ⟨db₁, v₁, new₁, old₁, done₁, between₁⟩ := between.hashOut inside
    cases done.symm.trans done₁
    exact ⟨keyOf, v₁, new₁, old₁, between₁⟩
  | lookup _ done ih =>
    obtain ⟨keyOf, v, new, old, between⟩ := ih
    obtain ⟨db₁, a, done₁, kept, disk, lay, -⟩ := lookupEntry_found between.whole.layout between.whole.chains between.known _
    cases done.symm.trans done₁
    refine ⟨keyOf, v, new, old, between.whole.read kept disk lay, between.listed, fun c cell => ?_⟩
    unfold Db.entry
    rw [disk]
    exact between.known c cell
  | reset _ ih =>
    obtain ⟨keyOf, v, new, old, between⟩ := ih
    exact ⟨keyOf, v, new, old, between.whole.reset, between.listed, between.known⟩
  | allocBlock _ done ih =>
    obtain ⟨keyOf, v, new, old, between⟩ := ih
    obtain ⟨db₁, a, free, done₁, disk, same, lay⟩ := between.whole.layout.allocBlock
    cases done.symm.trans done₁
    rw [between.listed.owned] at lay
    exact ⟨keyOf, _, new, old, between.reuse same disk lay⟩
  | freeBlock _ inside unused done ih =>
    obtain ⟨keyOf, v, new, old, between⟩ := ih
    obtain ⟨v', between'⟩ := between.freeBlock inside unused done
    exact ⟨keyOf, v', new, old, between'⟩
  | write _ written ih =>
    obtain ⟨keyOf, v, new, old, between⟩ := ih
    exact ⟨keyOf, v, new, old, written.whole between.listed between.whole, between.listed,
      fun _ cell => written.key between.listed cell⟩

theorem Stage.held (stage : Stage ty db live) : ∃ keyOf v new old owned, Held ty keyOf db v new old owned live := by
  induction stage with
  | between run =>
    obtain ⟨keyOf, v, new, old, between⟩ := run.between
    exact ⟨keyOf, v, new, old, _, between.held⟩
  | adjusted run =>
    obtain ⟨keyOf, v, new, old, between⟩ := run.between
    obtain ⟨v₁, new₁, old₁, whole₁, carried₁⟩ := between.whole.adjust between.known
    exact ⟨keyOf, v₁, new₁, old₁, _, (between.carry whole₁ carried₁).held⟩
  | allocated run none done =>
    obtain ⟨keyOf, v, new, old, between⟩ := run.between
    obtain ⟨v₁, new₁, old₁, whole₁, carried₁⟩ := between.whole.adjust between.known
    obtain ⟨db₂, v₂, done₂, whole₂, carried₂, -⟩ := whole₁.ensureTable
    rw [if_pos none] at done₂
    cases done.symm.trans done₂
    exact ⟨keyOf, v₂, new₁, old₁, _, ((between.carry whole₁ carried₁).carry whole₂ carried₂).held⟩
  | inserted run fits done written =>
    obtain ⟨keyOf, v, new, old, between⟩ := run.between
    obtain ⟨db₁, e₁, keyOf₁, v₁, new₁, old₁, done₁, admitted⟩ := between.insert fits
    cases done.symm.trans done₁
    exact ⟨keyOf₁, v₁, new₁, old₁, _, (admitted.write written).held⟩
  | removed run inside done =>
    obtain ⟨keyOf, v, new, old, between⟩ := run.between
    obtain ⟨db₁, out, v₁, new₁, old₁, done₁, between₁⟩ := between.remove inside
    cases done.symm.trans done₁
    exact ⟨keyOf, v₁, new₁, old₁, _, between₁.held⟩
  | moved _ some within done ih =>
    obtain ⟨keyOf, v, new, old, owned, held⟩ := ih
    obtain ⟨db₁, new₁, old₁, done₁, advanced⟩ := moveSome_advanced held.layout held.chains some within
    cases done.symm.trans done₁
    refine ⟨keyOf, v, new₁, old₁, owned, advanced.layout, advanced.chains, ?_, ?_, held.listed, fun c cell => ?_⟩
    · rw [advanced.ht]
      exact held.entries
    · rw [advanced.ht]
      exact Nat.le_trans held.progress advanced.further
    · exact (advanced.keys c cell).trans (held.known c cell)

/-- At every stage of the growth the table is the map of the entries hashed in and not hashed out, and after every sequence of
calls another one succeeds. -/
theorem hash_table_is_map (ty : EntryType κ) : (∀ db live, Stage ty db live → Mapped ty db live) ∧
    ∀ db owned live, Run ty db owned live →
      (∀ ea e, Fits ty owned live ea (ty.key e) → ∃ db' e' words, db.htHashIn ty ea e = .ok (db', e') ∧
        db'.writeWords ea ty.size e' = .ok { db' with disk := words } ∧
        Rewritten ty db' owned ((ty.key e, ea) :: live) words) ∧
      ∀ p ∈ live, ∃ db', db.htHashOut ty p.2 (db.entry p.2) = .ok db' := by
  refine ⟨fun db live stage => ?_, fun db owned live run => ?_⟩
  · obtain ⟨keyOf, v, new, old, owned, held⟩ := stage.held
    exact held.mapped
  obtain ⟨keyOf, v, new, old, between⟩ := run.between
  refine ⟨fun ea e fits => ?_, fun p inside => ?_⟩
  · obtain ⟨db', e', keyOf', v', new', old', done, admitted⟩ := between.hashIn fits
    obtain ⟨words, wrote, written⟩ := admitted.structure fits
    exact ⟨db', e', words, done, wrote, written⟩
  · obtain ⟨db', -, -, -, done, -⟩ := between.hashOut (show (p.1, p.2) ∈ live from inside)
    exact ⟨db', done⟩

theorem hash_table_is_map_dump : ∃ db, Run dumpIden db [532] [(7, 552)] ∧ Mapped dumpIden db [(7, 552)] := by
  have run : Run dumpIden { eofPtr := 2580 } [532] [] := Run.allocBlock .created rfl
  have fits : Fits dumpIden [532] [] 552 (dumpIden.key fun _ => 7) := by
    refine ⟨⟨532, mem_cons_self, by decide⟩, ?_, ?_⟩
    · exact fun _ none => nomatch none
    · exact fun _ none => nomatch none
  obtain ⟨db', e', words, done, -, written⟩ := ((hash_table_is_map dumpIden).2 _ _ _ run).1 552 (fun _ => 7) fits
  have longer : Run dumpIden { db' with disk := words } [532] [(7, 552)] := run.hashIn fits done written
  exact ⟨_, longer, (hash_table_is_map dumpIden).1 _ _ (.between longer)⟩

end

end OpenAFS.Budb
