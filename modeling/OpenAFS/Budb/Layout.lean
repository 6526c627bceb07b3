import Mathlib.Data.List.Pairwise
import OpenAFS.Budb.Tables

namespace OpenAFS.Budb

open Function (update update_self update_of_ne)
open Lib List

structure View where
  newB : List Nat := []
  oldB : List Nat := []
  free : List Nat := []
  owned : List Nat := []
  cells : List Nat := []

namespace View

variable (v : View)

def blocks : Bool → List Nat
  | true => v.oldB
  | false => v.newB

def all : List Nat := v.newB ++ v.oldB ++ v.free

theorem blocks_subset {v : View} {old : Bool} {a : Nat} (inside : a ∈ v.blocks old) : a ∈ v.all := by
  cases old
  · exact mem_append_left _ (mem_append_left _ inside)
  · exact mem_append_left _ (mem_append_right _ inside)

theorem free_subset {v : View} {a : Nat} (inside : a ∈ v.free) : a ∈ v.all := mem_append_right _ inside

theorem blocks_nodup {v : View} (once : v.all.Nodup) (old : Bool) : (v.blocks old).Nodup := by
  have both := (List.nodup_append.mp once).1
  cases old
  · exact (List.nodup_append.mp both).1
  · exact (List.nodup_append.mp both).2.1

theorem blocks_apart {v : View} (once : v.all.Nodup) {old : Bool} {a : Nat} (inside : a ∈ v.blocks old) :
    a ∉ v.blocks (!old) := by
  intro again
  have apart := (List.nodup_append.mp (List.nodup_append.mp once).1).2.2
  cases old
  · exact apart a inside a again rfl
  · exact apart a again a inside rfl

end View

inductive Slot where
  | head (old : Bool) (i : Nat)
  | link (ea : Nat)
  deriving DecidableEq

section

variable {κ : Type} (ty : EntryType κ)

def Slot.address (v : View) : Slot → Nat
  | .head old i => (v.blocks old)[i / nHTBuckets]?.getD 0 + 8 + 4 * (i % nHTBuckets)
  | .link ea => ea + ty.threadOffset

def Slot.InUse (db : Db) (v : View) : Slot → Prop
  | .head old i => i < db.mht.lengthOf old
  | .link ea => ea ∈ v.cells

def Db.load (db : Db) (v : View) (s : Slot) : Nat := db.disk (s.address ty v)

def Apart (ea ea' : Nat) : Prop := ea + ty.size ≤ ea' ∨ ea' + ty.size ≤ ea

instance : Std.Symm (Apart ty) := ⟨fun _ _ => Or.symm⟩

def Placed (owned : List Nat) (ea : Nat) : Prop := ∃ a ∈ owned, a ≤ ea ∧ ea + ty.size ≤ a + blockSize

structure Layout (db : Db) (v : View) : Prop where
  sameLength : ∀ old, db.mht.lengthOf old = if old then db.ht.oldLength else db.ht.length
  table : ∀ old, Table db.disk (db.ht.tableOf old) (db.mht.lengthOf old) (v.blocks old)
  cached : ∀ old, Cached db.disk (db.mht.array old) (v.blocks old)
  free : Linked id (fun a => db.disk (a + 4)) db.freePtr v.free
  block : ∀ a ∈ v.all ++ v.owned, IsBlock db.eofPtr a
  nodup : (v.all ++ v.owned).Nodup
  eof : sizeofDbHeader ≤ db.eofPtr ∧ blockBase db.eofPtr = db.eofPtr
  placed : ∀ ea ∈ v.cells, Placed ty v.owned ea
  apart : v.cells.Pairwise (Apart ty)

structure Kept (db db' : Db) : Prop where
  ht : db'.ht = db.ht
  freePtr : db'.freePtr = db.freePtr
  eofPtr : db'.eofPtr = db.eofPtr
  lengthOf : ∀ old, db'.mht.lengthOf old = db.mht.lengthOf old
  progress : db'.mht.progress = db.mht.progress
  loaded : ∀ old bi, db.Loaded old bi → db'.Loaded old bi

variable {ty} {db db' : Db} {v : View}

theorem Kept.refl (db : Db) : Kept db db := ⟨rfl, rfl, rfl, fun _ => rfl, rfl, fun _ _ here => here⟩

theorem Kept.trans {db'' : Db} (first : Kept db db') (second : Kept db' db'') : Kept db db'' where
  ht := second.ht.trans first.ht
  freePtr := second.freePtr.trans first.freePtr
  eofPtr := second.eofPtr.trans first.eofPtr
  lengthOf := fun old => (second.lengthOf old).trans (first.lengthOf old)
  progress := second.progress.trans first.progress
  loaded := fun old bi loaded => second.loaded old bi (first.loaded old bi loaded)

namespace Layout

theorem once (lay : Layout ty db v) : v.all.Nodup := (List.nodup_append.mp lay.nodup).1

variable {a ea i k : Nat} {s : Slot}

variable (lay : Layout ty db v)
include lay

theorem blockOfAll (inside : a ∈ v.all) : IsBlock db.eofPtr a :=
  lay.block a (mem_append_left _ inside)

theorem elsewhere (cell : ea ∈ v.cells) (within : i < ty.size) : blockBase (ea + i) ∈ v.owned := by
  obtain ⟨a, owned, low, high⟩ := lay.placed ea cell
  have block := lay.block a (mem_append_right _ owned)
  have base := blockBase_add (k := ea + i - a) block.behind block.base (by omega)
  rw [Nat.add_sub_cancel' (by omega)] at base
  exact base.symm ▸ owned

theorem notOwned (inside : a ∈ v.all) : a ∉ v.owned := fun owned =>
  (List.nodup_append.mp lay.nodup).2.2 a inside a owned rfl

theorem blockOf {old : Bool} (within : i < db.mht.lengthOf old) :
    ∃ a, (v.blocks old)[i / nHTBuckets]? = some a ∧ a ∈ v.blocks old ∧
      (Slot.head old i).address ty v = a + (8 + 4 * (i % nHTBuckets)) ∧ 8 + 4 * (i % nHTBuckets) < blockSize := by
  have inside : i / nHTBuckets < (v.blocks old).length := by
    rw [Nat.div_lt_iff_lt_mul (by decide), ← (lay.table old).length_eq]
    exact within
  refine ⟨_, getElem?_eq_getElem inside, getElem_mem inside, ?_, ?_⟩
  · change (v.blocks old)[i / nHTBuckets]?.getD 0 + 8 + 4 * (i % nHTBuckets) = _
    rw [getElem?_eq_getElem inside]
    exact Nat.add_assoc _ _ _
  have small := Nat.mod_lt i (show 0 < nHTBuckets by decide)
  unfold nHTBuckets at small ⊢
  unfold blockSize
  omega

theorem base_block (inside : a ∈ v.all) (within : k < blockSize) : blockBase (a + k) = a :=
  blockBase_add (lay.blockOfAll inside).behind (lay.blockOfAll inside).base within

theorem word_inj {a' k' : Nat} (inside : a ∈ v.all) (inside' : a' ∈ v.all) (within : k < blockSize)
    (within' : k' < blockSize) (same : a + k = a' + k') : a = a' ∧ k = k' := by
  have bases := congrArg blockBase same
  rw [lay.base_block inside within, lay.base_block inside' within'] at bases
  exact ⟨bases, by omega⟩

theorem thread_outside (cell : ea ∈ v.cells) (inside : a ∈ v.all)
    (within : k < blockSize) : a + k ≠ ea + ty.threadOffset := by
  intro same
  have bases := congrArg blockBase same
  rw [lay.base_block inside within] at bases
  exact lay.notOwned inside (bases ▸ lay.elsewhere cell ty.threadInside)

theorem cells_apart {ea' : Nat} (cell : ea ∈ v.cells) (cell' : ea' ∈ v.cells) (other : ea ≠ ea') :
    Apart ty ea ea' :=
  lay.apart.forall cell cell' other

theorem address_inj {s' : Slot} (used : s.InUse db v) (used' : s'.InUse db v)
    (same : s.address ty v = s'.address ty v) : s = s' := by
  cases s with
  | head old i =>
    obtain ⟨a, here, inside, place, within⟩ := lay.blockOf used
    cases s' with
    | head old' i' =>
      obtain ⟨a', here', inside', place', within'⟩ := lay.blockOf used'
      rw [place, place'] at same
      obtain ⟨rfl, words⟩ := lay.word_inj (v.blocks_subset inside) (v.blocks_subset inside') within within' same
      have sides : old = old' := by
        by_contra other
        have flipped : old' = !old := by
          revert other
          cases old <;> cases old' <;> simp
        subst flipped
        exact View.blocks_apart lay.once inside inside'
      subst sides
      have indices : i / nHTBuckets = i' / nHTBuckets :=
        (getElem?_inj (by
          rw [← Nat.not_le]
          intro beyond
          rw [getElem?_eq_none beyond] at here
          cases here) (View.blocks_nodup lay.once old)).mp (here.trans here'.symm)
      have whole := Nat.div_add_mod i nHTBuckets
      have whole' := Nat.div_add_mod i' nHTBuckets
      rw [indices] at whole
      have : i = i' := by omega
      rw [this]
    | link ea =>
      rw [place] at same
      exact absurd same (lay.thread_outside used' (v.blocks_subset inside) within)
  | link ea =>
    cases s' with
    | head old' i' =>
      obtain ⟨a', here', inside', place', within'⟩ := lay.blockOf used'
      rw [place'] at same
      exact absurd same.symm (lay.thread_outside used (v.blocks_subset inside') within')
    | link ea' => exact congrArg Slot.link (Nat.add_right_cancel same)

theorem entry_outside (used : s.InUse db v) (cell : ea ∈ v.cells)
    (within : i < ty.size) (data : i ≠ ty.threadOffset) : ea + i ≠ s.address ty v := by
  intro same
  cases s with
  | head old j =>
    obtain ⟨a, -, inside, place, small⟩ := lay.blockOf used
    rw [place] at same
    have bases := congrArg blockBase same
    rw [lay.base_block (v.blocks_subset inside) small] at bases
    exact lay.notOwned (v.blocks_subset inside) (bases ▸ lay.elsewhere cell within)
  | link ea' =>
    change ea + i = ea' + ty.threadOffset at same
    have short := ty.threadInside
    by_cases it : ea = ea'
    · omega
    · rcases lay.cells_apart cell used it with left | right
      · omega
      · omega

theorem next_outside (used : s.InUse db v) (inside : a ∈ v.all) : a + 4 ≠ s.address ty v := by
  intro same
  cases s with
  | head old j =>
    obtain ⟨a', -, inside', place, small⟩ := lay.blockOf used
    rw [place] at same
    have := (lay.word_inj inside (v.blocks_subset inside') (by decide) small same).2
    omega
  | link ea => exact lay.thread_outside used inside (by decide) same

theorem slot_bounds (used : s.InUse db v) :
    sizeofDbHeader ≤ s.address ty v ∧ s.address ty v < db.eofPtr := by
  cases s with
  | head old j =>
    obtain ⟨a, -, inside, place, small⟩ := lay.blockOf used
    have block := lay.blockOfAll (v.blocks_subset inside)
    have behind := block.behind
    have before := block.before
    omega
  | link ea =>
    obtain ⟨a, owned, low, high⟩ := lay.placed ea used
    have block := lay.block a (mem_append_right _ owned)
    have behind := block.behind
    have before := block.before
    have short := ty.threadInside
    change _ ≤ ea + _ ∧ ea + _ < _
    omega

theorem write (kept : Kept db db') {s : Slot} (used : s.InUse db v) {value : Nat}
    (wrote : db'.disk = update db.disk (s.address ty v) value)
    (cached : ∀ old, Cached db'.disk (db'.mht.array old) (v.blocks old)) : Layout ty db' v where
  sameLength := by
    intro old
    rw [kept.lengthOf, kept.ht]
    exact lay.sameLength old
  table := by
    intro old
    rw [kept.lengthOf, kept.ht, wrote]
    refine ⟨(lay.table old).chain.congr_values ?_, (lay.table old).length_eq⟩
    intro a inside
    exact update_of_ne (lay.next_outside used (v.blocks_subset inside)) ..
  cached := cached
  free := by
    rw [kept.freePtr, wrote]
    refine lay.free.congr_values ?_
    intro a inside
    exact update_of_ne (lay.next_outside used (v.free_subset inside)) ..
  block := by
    rw [kept.eofPtr]
    exact lay.block
  nodup := lay.nodup
  eof := by
    rw [kept.eofPtr]
    exact lay.eof
  placed := lay.placed
  apart := lay.apart

end Layout

variable (ty) in
structure Stored (db : Db) (v : View) (s : Slot) (value : Nat) (db' : Db) : Prop where
  kept : Kept db db'
  here : db'.load ty v s = value
  others : ∀ s', s'.InUse db v → s' ≠ s → db'.load ty v s' = db.load ty v s'
  keys : ∀ ea ∈ v.cells, ty.key (db'.entry ea) = ty.key (db.entry ea)

namespace Layout

theorem stored (lay : Layout ty db v) (kept : Kept db db') {s : Slot} (used : s.InUse db v) {value : Nat}
    (wrote : db'.disk = update db.disk (s.address ty v) value) : Stored ty db v s value db' where
  kept := kept
  here := by
    unfold Db.load
    rw [wrote, update_self]
  others := by
    intro s' used' other
    unfold Db.load
    rw [wrote]
    exact update_of_ne (fun same => other (lay.address_inj used' used same)) ..
  keys := by
    intro ea cell
    apply ty.key_congr
    intro i within data
    unfold Db.entry
    rw [wrote]
    exact update_of_ne (lay.entry_outside used cell within data) ..

theorem setThread (lay : Layout ty db v) {ea : Nat} (cell : ea ∈ v.cells) (value : Nat) :
    ∃ db', db.setWord (ea + ty.threadOffset) value = .ok db' ∧ Stored ty db v (.link ea) value db' ∧ Layout ty db' v := by
  have used : (Slot.link ea).InUse db v := cell
  have kept : Kept db { db with disk := update db.disk (ea + ty.threadOffset) value } :=
    ⟨rfl, rfl, rfl, fun _ => rfl, rfl, fun _ _ loaded => loaded⟩
  refine ⟨_, except_bind_eq_ok.mpr ⟨(), ensure_eq_ok.mpr (lay.slot_bounds used), rfl⟩, lay.stored kept used rfl, ?_⟩
  refine lay.write kept used rfl fun old => (lay.cached old).congr ?_
  intro a inside k within
  exact update_of_ne (lay.thread_outside cell (v.blocks_subset inside) within) ..

variable {old : Bool}

theorem bucket_eq (lay : Layout ty db v) {bi bo : Nat} (loaded : db.Loaded old bi) (small : bo < nHTBuckets) :
    db.bucket old bi bo = db.load ty v (.head old (bi * nHTBuckets + bo)) := by
  obtain ⟨f, m, here, found, valid⟩ := loaded
  have place := (lay.cached old).place f bi m here found
  have content := (lay.cached old).content f bi m here found valid
  have index : (bi * nHTBuckets + bo) / nHTBuckets = bi := by
    rw [Nat.add_comm, Nat.add_mul_div_right _ _ (by decide), Nat.div_eq_of_lt small, Nat.zero_add]
  have offset : (bi * nHTBuckets + bo) % nHTBuckets = bo := by
    rw [Nat.add_comm, Nat.add_mul_mod_self_right, Nat.mod_eq_of_lt small]
  have inMemory : db.bucket old bi bo = m.bucket bo := by
    unfold Db.bucket
    rw [here, Option.bind_some, found]
  rw [inMemory, content.2 bo small]
  change _ = db.disk ((v.blocks old)[(bi * nHTBuckets + bo) / nHTBuckets]?.getD 0 + 8 + 4 * ((bi * nHTBuckets + bo) % nHTBuckets))
  rw [index, offset, place, Option.getD_some]

theorem setBucket (lay : Layout ty db v) {bi bo : Nat} (loaded : db.Loaded old bi) (small : bo < nHTBuckets) (value : Nat) :
    ∃ db', db.setBucket old bi bo value = .ok db' ∧ Stored ty db v (.head old (bi * nHTBuckets + bo)) value db' ∧
      Layout ty db' v := by
  obtain ⟨f, m, here, found, valid⟩ := loaded
  have place := (lay.cached old).place f bi m here found
  have content := (lay.cached old).content f bi m here found valid
  have inside := mem_of_getElem? place
  have early : bi < (v.blocks old).length := by
    by_contra beyond
    rw [getElem?_eq_none (Nat.not_lt.mp beyond)] at place
    cases place
  have used : (Slot.head old (bi * nHTBuckets + bo)).InUse db v := by
    change _ < db.mht.lengthOf old
    rw [(lay.table old).length_eq]
    have rows : (bi + 1) * nHTBuckets ≤ (v.blocks old).length * nHTBuckets := Nat.mul_le_mul_right _ early
    rw [Nat.succ_mul] at rows
    omega
  have address : (Slot.head old (bi * nHTBuckets + bo)).address ty v = m.a + (8 + 4 * bo) := by
    change (v.blocks old)[(bi * nHTBuckets + bo) / nHTBuckets]?.getD 0 + 8 + 4 * ((bi * nHTBuckets + bo) % nHTBuckets) = _
    rw [Nat.add_comm (bi * nHTBuckets) bo, Nat.add_mul_div_right _ _ (by decide), Nat.div_eq_of_lt small, Nat.zero_add,
      Nat.add_mul_mod_self_right, Nat.mod_eq_of_lt small, place, Option.getD_some, Nat.add_assoc]
  have narrow : 8 + 4 * bo < blockSize := by
    unfold nHTBuckets at small
    unfold blockSize
    omega
  have bounds := lay.slot_bounds used
  rw [address] at bounds
  unfold Db.setBucket
  rw [here]
  simp only
  rw [found]
  simp only
  have kept : Kept db { db with
      disk := update db.disk (m.a + 8 + 4 * bo) value
      mht := db.mht.setArray { db.mht.array old with
        blocks := some (update f bi (some { m with bucket := update m.bucket bo value })) } old } := by
    refine ⟨rfl, rfl, rfl, fun _ => by simp, by simp, ?_⟩
    rintro old' bi' ⟨g, m', here', found', valid'⟩
    by_cases side : old' = old
    · subst side
      cases here.symm.trans here'
      refine ⟨_, if bi' = bi then { m with bucket := update m.bucket bo value } else m', by simp; rfl, ?_, ?_⟩
      · by_cases it : bi' = bi
        · subst it
          simp
        · rw [update_of_ne it, if_neg it, found']
      · split
        · exact valid
        · exact valid'
    · refine ⟨g, m', ?_, found', valid'⟩
      rw [Db.array_setArray_of_ne _ _ side]
      exact here'
  have wrote : update db.disk (m.a + 8 + 4 * bo) value =
      update db.disk ((Slot.head old (bi * nHTBuckets + bo)).address ty v) value := by
    rw [address, Nat.add_assoc]
  refine ⟨_, except_bind_eq_ok.mpr ⟨_, except_bind_eq_ok.mpr ⟨(), ensure_eq_ok.mpr ?_, rfl⟩, rfl⟩,
    lay.stored kept used wrote, lay.write kept used wrote ?_⟩
  · rw [Nat.add_assoc]
    exact bounds
  -- the words of other blocks are the same
  have elsewhere (a : Nat) (block : a ∈ v.all) (other : a ≠ m.a) (k : Nat) (within : k < blockSize) :
      update db.disk (m.a + 8 + 4 * bo) value (a + k) = db.disk (a + k) := by
    apply update_of_ne
    intro same
    rw [Nat.add_assoc] at same
    exact other (lay.word_inj block (v.blocks_subset inside) within narrow same).1
  intro old'
  by_cases side : old' = old
  · subst side
    simp only [Db.array_setArray]
    refine ⟨fun _ => (lay.cached old').size (by rw [here]; rfl), fun nil => ?_, ?_, ?_⟩
    · rw [nil] at early
      exact absurd early (Nat.not_lt_zero _)
    · intro g i m' same found'
      cases same
      by_cases it : i = bi
      · subst it
        rw [update_self] at found'
        cases found'
        exact place
      · rw [update_of_ne it] at found'
        exact (lay.cached old').place f i m' here found'
    intro g i m' same found' valid'
    cases same
    by_cases it : i = bi
    · subst it
      rw [update_self] at found'
      cases found'
      refine ⟨?_, fun j within => ?_⟩
      · rw [content.1]
        refine (update_of_ne ?_ ..).symm
        omega
      by_cases at_ : j = bo
      · subst at_
        simp
      · change update m.bucket bo value j = update db.disk (m.a + 8 + 4 * bo) value (m.a + 8 + 4 * j)
        rw [update_of_ne at_, content.2 j within, update_of_ne]
        omega
    rw [update_of_ne it] at found'
    have place' := (lay.cached old').place f i m' here found'
    have content' := (lay.cached old').content f i m' here found' valid'
    have other : m'.a ≠ m.a := by
      intro same
      rw [same, ← place] at place'
      refine it ((getElem?_inj ?_ (View.blocks_nodup lay.once old')).mp place')
      by_contra beyond
      rw [place, getElem?_eq_none (Nat.not_lt.mp beyond)] at place'
      cases place'
    have block := v.blocks_subset (mem_of_getElem? place')
    refine ⟨content'.1.trans (elsewhere _ block other 4 (by decide)).symm, fun j within => ?_⟩
    rw [content'.2 j within, Nat.add_assoc m'.a]
    refine (elsewhere _ block other _ ?_).symm
    unfold nHTBuckets at within
    unfold blockSize
    omega
  · rw [Db.array_setArray_of_ne _ _ side]
    refine (lay.cached old').congr fun a member k within => elsewhere a (v.blocks_subset member) ?_ k within
    rintro rfl
    rw [Bool.eq_not_of_ne side] at member
    exact View.blocks_apart lay.once inside member

theorem getTableBlock (lay : Layout ty db v) (hash : Nat) (some : db.mht.lengthOf old ≠ 0)
    (there : old = true → db.mht.progress ≤ hash % db.mht.lengthOf old) :
    ∃ db' bi bo, db.htGetTableBlock hash old = .ok (db', .some (bi, bo)) ∧ Kept db db' ∧ db'.disk = db.disk ∧
      Layout ty db' v ∧ db'.Loaded old bi ∧ bo < nHTBuckets ∧ bi * nHTBuckets + bo = hash % db.mht.lengthOf old := by
  have below : ∀ a ∈ v.blocks old, a < db.eofPtr := by
    intro a inside
    have before := (lay.blockOfAll (v.blocks_subset inside)).before
    unfold blockSize at before
    omega
  obtain ⟨b, bi, bo, done, cached, -, small, index, loaded, others⟩ :=
    Db.htGetTableBlock_found (lay.table old) (lay.cached old) below some there
  have kept : Kept db { db with mht := db.mht.setArray b old } := by
    refine ⟨rfl, rfl, rfl, fun _ => by simp, by simp, ?_⟩
    intro old' bi' before
    by_cases side : old' = old
    · subst side
      exact others bi' before
    · obtain ⟨f, m, here, rest⟩ := before
      exact ⟨f, m, by rw [Db.array_setArray_of_ne _ _ side]; exact here, rest⟩
  refine ⟨_, bi, bo, done, kept, rfl, ?_, loaded, small, index⟩
  refine { lay with sameLength := ?_, table := ?_, cached := ?_ }
  · intro old'
    rw [kept.lengthOf]
    exact lay.sameLength old'
  · intro old'
    rw [kept.lengthOf]
    exact lay.table old'
  intro old'
  by_cases side : old' = old
  · subst side
    simpa using cached
  · rw [Db.array_setArray_of_ne _ _ side]
    exact lay.cached old'

end Layout

end

end OpenAFS.Budb
