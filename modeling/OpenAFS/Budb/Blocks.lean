import OpenAFS.Budb.Layout
import OpenAFS.Lib.Counting

namespace OpenAFS.Budb

open Lib List

theorem IsBlock.mono {eofPtr eofPtr' a : Nat} (block : IsBlock eofPtr a) (more : eofPtr ≤ eofPtr') : IsBlock eofPtr' a :=
  ⟨block.behind, block.base, Nat.le_trans block.before more⟩

structure Same (db db' : Db) : Prop where
  ht : db'.ht = db.ht
  mht : db'.mht = db.mht
  eofPtr : db.eofPtr ≤ db'.eofPtr

theorem Same.trans {db db' db'' : Db} (first : Same db db') (second : Same db' db'') : Same db db'' :=
  ⟨second.ht.trans first.ht, second.mht.trans first.mht, Nat.le_trans first.eofPtr second.eofPtr⟩

variable {κ : Type} {ty : EntryType κ} {db db' : Db} {v : View}

namespace Layout

theorem reuse (lay : Layout ty db v) (same : Same db db') (disk : db'.disk = db.disk) {free owned : List Nat}
    (chain : Linked id (fun a => db'.disk (a + 4)) db'.freePtr free)
    (block : ∀ a ∈ free ++ owned, IsBlock db'.eofPtr a) (nodup : (v.newB ++ v.oldB ++ free ++ owned).Nodup)
    (eof : sizeofDbHeader ≤ db'.eofPtr ∧ blockBase db'.eofPtr = db'.eofPtr) (more : v.owned ⊆ owned) :
    Layout ty db' { v with free, owned } where
  sameLength := by
    rw [same.mht, same.ht]
    exact lay.sameLength
  table := by
    rw [same.mht, same.ht, disk]
    exact fun old => by cases old <;> exact lay.table _
  cached := by
    rw [same.mht, disk]
    exact fun old => by cases old <;> exact lay.cached _
  free := chain
  block := by
    intro a inside
    rcases List.mem_append.mp inside with left | right
    · rcases List.mem_append.mp left with table | free
      · exact (lay.block a (mem_append_left _ (mem_append_left _ table))).mono same.eofPtr
      · exact block a (mem_append_left _ free)
    · exact block a (mem_append_right _ right)
  nodup := nodup
  eof := eof
  placed := by
    intro ea cell
    obtain ⟨a, inside, rest⟩ := lay.placed ea cell
    exact ⟨a, more inside, rest⟩
  apart := lay.apart

theorem allocBlock (lay : Layout ty db v) : ∃ db' a free, db.allocBlock = .ok (db', a) ∧ db'.disk = db.disk ∧ Same db db' ∧
      Layout ty db' { v with free, owned := a :: v.owned } := by
  have nodup := lay.nodup
  have eof := lay.eof
  unfold Db.allocBlock
  by_cases none : db.freePtr = 0
  · rw [if_pos none]
    have empty : v.free = [] := (none ▸ lay.free).eq_nil
    have next : blockBase (db.eofPtr + blockSize) = db.eofPtr + blockSize := blockBase_next eof.1 eof.2
    have same : Same db { db with eofPtr := db.eofPtr + blockSize } := ⟨rfl, rfl, Nat.le_add_right _ _⟩
    refine ⟨_, _, [], rfl, rfl, same, lay.reuse same rfl (none ▸ rfl) ?_ ?_ ⟨by change _ ≤ _ + _; omega, next⟩ ?_⟩
    · intro a inside
      rcases List.mem_cons.mp inside with rfl | owned
      · exact ⟨eof.1, eof.2, Nat.le_refl _⟩
      · exact (lay.block a (mem_append_right _ owned)).mono same.eofPtr
    · rw [append_nil]
      refine (List.perm_middle.nodup_iff).mpr (List.nodup_cons.mpr ⟨?_, ?_⟩)
      · intro inside
        have before := (lay.block db.eofPtr (by
          unfold View.all
          rw [empty, append_nil]
          exact inside)).before
        unfold blockSize at before
        omega
      · unfold View.all at nodup
        rwa [empty, append_nil] at nodup
    · exact fun a inside => mem_cons_of_mem _ inside
  rw [if_neg none]
  cases split : v.free with
  | nil =>
    have chain := lay.free
    rw [split] at chain
    exact absurd chain none
  | cons a rest =>
    have chain := lay.free
    rw [split] at chain
    have head : db.freePtr = a := chain.1
    have inside : a ∈ v.all := v.free_subset (by rw [split]; exact mem_cons_self)
    have below : db.freePtr < db.eofPtr := by
      have before := (lay.blockOfAll inside).before
      unfold blockSize at before
      omega
    have same : Same db { db with freePtr := db.disk (db.freePtr + 4) } := ⟨rfl, rfl, Nat.le_refl _⟩
    refine ⟨_, _, rest, except_bind_eq_ok.mpr ⟨(), ensure_eq_ok.mpr below, rfl⟩, rfl, same, ?_⟩
    refine lay.reuse same rfl (head ▸ chain.2.2) ?_ ?_ eof ?_
    · rw [head]
      intro b member
      rcases List.mem_append.mp member with free | owned
      · exact lay.blockOfAll (v.free_subset (by rw [split]; exact mem_cons_of_mem _ free))
      · rcases List.mem_cons.mp owned with rfl | owned
        · exact lay.blockOfAll inside
        · exact lay.block b (mem_append_right _ owned)
    · rw [head]
      unfold View.all at nodup
      rw [split] at nodup
      refine (List.Perm.nodup_iff ?_).mpr nodup
      simp only [append_assoc, cons_append]
      exact ((perm_middle).append_left _).append_left _
    · exact fun a inside => mem_cons_of_mem _ inside

theorem permOwned (lay : Layout ty db v) {owned : List Nat} (perm : owned.Perm v.owned) : Layout ty db { v with owned } where
  sameLength := lay.sameLength
  table := fun old => by cases old <;> exact lay.table _
  cached := fun old => by cases old <;> exact lay.cached _
  free := lay.free
  block := fun a inside => lay.block a ((perm.append_left v.all).mem_iff.mp inside)
  nodup := (perm.append_left v.all).nodup_iff.mpr lay.nodup
  eof := lay.eof
  placed := by
    intro ea cell
    obtain ⟨a, inside, rest⟩ := lay.placed ea cell
    exact ⟨a, perm.mem_iff.mpr inside, rest⟩
  apart := lay.apart

theorem allocBlocks (lay : Layout ty db v) (n : Nat) :
    ∃ db' addrs free, db.allocBlocks n = .ok (db', addrs) ∧ addrs.length = n ∧ db'.disk = db.disk ∧ Same db db' ∧
      Layout ty db' { v with free, owned := addrs ++ v.owned } := by
  induction n generalizing db v with
  | zero => exact ⟨db, [], v.free, rfl, rfl, rfl, ⟨rfl, rfl, Nat.le_refl _⟩, lay⟩
  | succ n ih =>
    obtain ⟨db₁, a, free₁, taken, disk₁, same₁, lay₁⟩ := lay.allocBlock
    obtain ⟨db₂, rest, free₂, more, count, disk₂, same₂, lay₂⟩ := ih lay₁
    refine ⟨db₂, a :: rest, free₂, ?_, by rw [length_cons, count], disk₂.trans disk₁, same₁.trans same₂, ?_⟩
    · exact except_bind_eq_ok.mpr ⟨_, taken, except_bind_eq_ok.mpr ⟨_, more, rfl⟩⟩
    · exact lay₂.permOwned List.perm_middle.symm

end Layout

def overwrite (disk : Nat → Nat) (pos size : Nat) (words : Nat → Nat) : Nat → Nat :=
  fun p => if pos ≤ p ∧ p < pos + size then words (p - pos) else disk p

theorem overwrite_inside {disk : Nat → Nat} {pos size k : Nat} {words : Nat → Nat} (within : k < size) :
    overwrite disk pos size words (pos + k) = words k := by
  unfold overwrite
  rw [if_pos ⟨Nat.le_add_right _ _, Nat.add_lt_add_left within _⟩, Nat.add_sub_cancel_left]

theorem overwrite_elsewhere {disk : Nat → Nat} {eofPtr a size p : Nat} {words : Nat → Nat} (block : IsBlock eofPtr a)
    (small : size ≤ blockSize) (outside : blockBase p ≠ a) : overwrite disk a size words p = disk p := by
  refine if_neg fun within => outside ?_
  have base := blockBase_add (k := p - a) block.behind block.base (by omega)
  rwa [Nat.add_sub_cancel' within.1] at base

theorem writeWords_ok (db : Db) {pos : Nat} (size : Nat) (words : Nat → Nat) (behind : sizeofDbHeader ≤ pos) (before : pos < db.eofPtr) :
    db.writeWords pos size words = .ok { db with disk := overwrite db.disk pos size words } :=
  except_bind_eq_ok.mpr ⟨(), ensure_eq_ok.mpr ⟨behind, before⟩, rfl⟩

theorem IsBlock.inside {eofPtr a : Nat} (block : IsBlock eofPtr a) : a < eofPtr := by
  have before := block.before
  unfold blockSize at before
  omega

theorem writeBlocks_chain (db : Db) {addrs : List Nat} (block : ∀ a ∈ addrs, IsBlock db.eofPtr a) (once : addrs.Nodup) :
    ∃ db', db.writeBlocks addrs = .ok db' ∧ Same db db' ∧ db'.freePtr = db.freePtr ∧ db'.eofPtr = db.eofPtr ∧
      (∀ p, blockBase p ∉ addrs → db'.disk p = db.disk p) ∧
      Linked id (fun a => db'.disk (a + 4)) (addrs.headD 0) addrs ∧
      ∀ a ∈ addrs, ∀ j < nHTBuckets, db'.disk (a + 8 + 4 * j) = 0 := by
  induction addrs generalizing db with
  | nil => exact ⟨db, rfl, ⟨rfl, rfl, Nat.le_refl _⟩, rfl, rfl, fun _ _ => rfl, rfl, fun a none => by cases none⟩
  | cons a rest ih =>
    rw [nodup_cons] at once
    have here := block a mem_cons_self
    have wrote := writeWords_ok db blockSize (emptyBlock hashTableBlock (rest.headD 0)) here.behind here.inside
    have word (k : Nat) (within : k < blockSize) : blockBase (a + k) = a := blockBase_add here.behind here.base within
    obtain ⟨db', done, same, free, eof, frame, chain, zero⟩ := ih
      { db with disk := overwrite db.disk a blockSize (emptyBlock hashTableBlock (rest.headD 0)) }
      (fun b member => block b (mem_cons_of_mem _ member)) once.2
    refine ⟨db', except_bind_eq_ok.mpr ⟨_, wrote, done⟩, ⟨same.ht, same.mht, same.eofPtr⟩, free, eof, ?_, ?_, ?_⟩
    · intro p outside
      rw [frame p fun member => outside (mem_cons_of_mem _ member)]
      change overwrite db.disk a blockSize _ p = db.disk p
      exact overwrite_elsewhere here (Nat.le_refl _) fun same => outside (same ▸ mem_cons_self)
    · have nonzero : a ≠ 0 := by
        have behind := here.behind
        unfold sizeofDbHeader at behind
        omega
      have next : db'.disk (a + 4) = rest.headD 0 := by
        rw [frame _ (by rw [word 4 (by decide)]; exact once.1)]
        change overwrite db.disk a blockSize (emptyBlock hashTableBlock (rest.headD 0)) (a + 4) = rest.headD 0
        exact overwrite_inside (by decide)
      refine ⟨rfl, nonzero, ?_⟩
      change Linked id _ (db'.disk (a + 4)) rest
      rw [next]
      exact chain
    · intro b member j within
      rcases List.mem_cons.mp member with rfl | later
      · have narrow : 8 + 4 * j < blockSize := by
          unfold nHTBuckets at within
          unfold blockSize
          omega
        rw [Nat.add_assoc, frame _ (by rw [word _ narrow]; exact once.1)]
        change overwrite db.disk b blockSize (emptyBlock hashTableBlock (rest.headD 0)) (b + (8 + 4 * j)) = 0
        rw [overwrite_inside narrow, emptyBlock, if_neg (by omega), if_neg (by omega)]
      · exact zero b later j within

theorem freeBlocks_chain (db : Db) (fuel : Nat) {B free : List Nat} {a : Nat} (chain : Linked id (fun a => db.disk (a + 4)) a B)
    (freeChain : Linked id (fun a => db.disk (a + 4)) db.freePtr free) (block : ∀ b ∈ B, IsBlock db.eofPtr b)
    (others : ∀ b ∈ free, IsBlock db.eofPtr b) (once : (B ++ free).Nodup) (enough : B.length < fuel) :
    ∃ db', db.freeBlocks a fuel = .ok db' ∧ Same db db' ∧ db'.eofPtr = db.eofPtr ∧
      (∀ p, blockBase p ∉ B → db'.disk p = db.disk p) ∧
      Linked id (fun a => db'.disk (a + 4)) db'.freePtr (B.reverse ++ free) := by
  induction B generalizing db a free fuel with
  | nil =>
    obtain ⟨fuel, rfl⟩ := Nat.exists_eq_succ_of_ne_zero (Nat.ne_of_gt enough)
    have zero : a = 0 := chain
    subst zero
    exact ⟨db, rfl, ⟨rfl, rfl, Nat.le_refl _⟩, rfl, fun _ _ => rfl, freeChain⟩
  | cons b rest ih =>
    obtain ⟨fuel, rfl⟩ := Nat.exists_eq_succ_of_ne_zero (Nat.ne_of_gt (Nat.lt_of_le_of_lt (Nat.zero_le _) enough))
    obtain ⟨head, nonzero, later⟩ := chain
    change a = b at head
    subst head
    have here := block a mem_cons_self
    have freed : db.freeBlock a = .ok { db with
        freePtr := a
        disk := overwrite db.disk a 8 (emptyBlock 0 db.freePtr) } :=
      except_bind_eq_ok.mpr
        ⟨(), ensure_eq_ok.mpr here.base.symm, writeWords_ok { db with freePtr := a } 8 _ here.behind here.inside⟩
    -- the words of other blocks are the same
    have elsewhere (c : Nat) (other : IsBlock db.eofPtr c) (apart : c ≠ a) :
        overwrite db.disk a 8 (emptyBlock 0 db.freePtr) (c + 4) = db.disk (c + 4) :=
      overwrite_elsewhere here (by decide) (by rwa [blockBase_add other.behind other.base (by decide)])
    have apart : ∀ c ∈ rest ++ free, c ≠ a := by
      rintro c member rfl
      exact (List.nodup_cons.mp once).1 member
    have named : overwrite db.disk a 8 (emptyBlock 0 db.freePtr) (a + 4) = db.freePtr :=
      overwrite_inside (by decide)
    have longer : Linked id (fun c => overwrite db.disk a 8 (emptyBlock 0 db.freePtr) (c + 4)) a (a :: free) := by
      refine ⟨rfl, nonzero, ?_⟩
      change Linked id _ (overwrite db.disk a 8 (emptyBlock 0 db.freePtr) (a + 4)) free
      rw [named]
      exact freeChain.congr_values fun c member => elsewhere c (others c member) (apart c (mem_append_right _ member))
    obtain ⟨db', done, same, eof, frame, chain'⟩ := ih
      { db with freePtr := a, disk := overwrite db.disk a 8 (emptyBlock 0 db.freePtr) } fuel
      (later.congr_values fun c member =>
        elsewhere c (block c (mem_cons_of_mem _ member)) (apart c (mem_append_left _ member)))
      longer
      (fun c member => block c (mem_cons_of_mem _ member))
      (fun c member => by
        rcases List.mem_cons.mp member with rfl | old
        · exact here
        · exact others c old)
      (List.perm_middle.nodup_iff.mpr once) (by rw [length_cons] at enough; omega)
    refine ⟨db', ?_, ⟨same.ht, same.mht, same.eofPtr⟩, eof, ?_, ?_⟩
    · change (if a = 0 then Except.ok db else _) = _
      rw [if_neg nonzero]
      exact except_bind_eq_ok.mpr ⟨(), ensure_eq_ok.mpr here.inside, except_bind_eq_ok.mpr ⟨_, freed, done⟩⟩
    · intro p outside
      rw [frame p fun member => outside (mem_cons_of_mem _ member)]
      change overwrite db.disk a 8 _ p = db.disk p
      exact overwrite_elsewhere here (by decide) fun same => outside (same ▸ mem_cons_self)
    · rw [reverse_cons, append_assoc]
      exact chain'

namespace Layout

variable (lay : Layout ty db v)
include lay

theorem blocks_lt_eofPtr (old : Bool) : (v.blocks old).length < db.eofPtr := by
  have below : ∀ a ∈ v.blocks old, a < db.eofPtr - 1 := by
    intro a inside
    have before := (lay.blockOfAll (v.blocks_subset inside)).before
    unfold blockSize at before
    omega
  have few := length_le_of_nodup (View.blocks_nodup lay.once old) below
  have behind := lay.eof.1
  unfold sizeofDbHeader at behind
  omega

theorem frame_keys (db' : Db) {written : List Nat} (apart : ∀ a ∈ written, a ∉ v.owned)
    (frame : ∀ p, blockBase p ∉ written → db'.disk p = db.disk p) :
    ∀ ea ∈ v.cells, ty.key (db'.entry ea) = ty.key (db.entry ea) ∧
      db'.disk (ea + ty.threadOffset) = db.disk (ea + ty.threadOffset) := by
  intro ea cell
  have same (i : Nat) (within : i < ty.size) : db'.disk (ea + i) = db.disk (ea + i) :=
    frame _ fun inside => apart _ inside (lay.elsewhere cell within)
  exact ⟨ty.key_congr _ _ fun i within _ => same i within, same _ ty.threadInside⟩

theorem frame_head (db' : Db) {written : List Nat} {old : Bool} (apart : ∀ a ∈ v.blocks old, a ∉ written)
    (frame : ∀ p, blockBase p ∉ written → db'.disk p = db.disk p) {i : Nat} (within : i < db.mht.lengthOf old) :
    db'.load ty v (.head old i) = db.load ty v (.head old i) := by
  obtain ⟨a, -, inside, place, small⟩ := lay.blockOf within
  unfold Db.load
  rw [place]
  refine frame _ ?_
  rw [lay.base_block (v.blocks_subset inside) small]
  exact apart a inside

structure Freed (ty : EntryType κ) (db : Db) (v : View) (db' : Db) : Prop where
  ht : db'.ht = { db.ht with oldTable := 0, oldLength := 0, progress := 0 }
  lengthOf : db'.mht.lengthOf false = db.mht.lengthOf false
  oldLength : db'.mht.oldLength = 0
  progress : db'.mht.progress = 0
  layout : Layout ty db' { v with oldB := [], free := v.oldB.reverse ++ v.free }
  heads : ∀ i < db.mht.lengthOf false, db'.load ty v (.head false i) = db.load ty v (.head false i)
  cells : ∀ ea ∈ v.cells, ty.key (db'.entry ea) = ty.key (db.entry ea) ∧
    db'.disk (ea + ty.threadOffset) = db.disk (ea + ty.threadOffset)

theorem freeTable (some : db.ht.oldLength ≠ 0) : ∃ db', db.htFreeTable = .ok db' ∧ Freed ty db v db' := by
  have once := lay.once
  have split : (v.newB ++ (v.oldB ++ v.free)).Nodup := by rwa [← append_assoc]
  have later := List.nodup_append.mp split
  obtain ⟨db', done, same, eof, frame, chain⟩ := freeBlocks_chain
    { db with mht.oldBlocks := htResetT db.mht.oldBlocks 0 } db.eofPtr (lay.table true).chain lay.free
    (fun a inside => lay.blockOfAll (v.blocks_subset inside)) (fun a inside => lay.blockOfAll (v.free_subset inside)) later.2.1
    (lay.blocks_lt_eofPtr true)
  have ht : db'.ht = db.ht := same.ht
  have mht : db'.mht = { db.mht with oldBlocks := htResetT db.mht.oldBlocks 0 } := same.mht
  have length : db'.mht.length = db.mht.length := by rw [mht]
  have empty : (htResetT db.mht.oldBlocks 0).blocks = none := htResetT_nil (lay.cached true)
  have newApart : ∀ a ∈ v.blocks false, a ∉ v.oldB := fun a inside again =>
    later.2.2 a inside a (mem_append_left _ again) rfl
  refine ⟨_, except_bind_eq_ok.mpr ⟨(), ensure_eq_ok.mpr some, except_bind_eq_ok.mpr ⟨db', done, rfl⟩⟩, ?_⟩
  refine ⟨congrArg (fun ht : HashTable => { ht with oldTable := 0, oldLength := 0, progress := 0 }) ht, length, rfl, rfl, ?_, ?_, ?_⟩
  · refine ⟨?_, ?_, ?_, chain, ?_, ?_, ?_, ?_, lay.apart⟩
    · intro old
      cases old
      · have agree := lay.sameLength false
        change db'.mht.length = db'.ht.length
        rw [length, ht]
        exact agree
      · rfl
    · intro old
      cases old
      · have table := lay.table false
        change Table db'.disk db'.ht.table db'.mht.length v.newB
        rw [length, ht]
        refine ⟨table.chain.congr_values ?_, table.length_eq⟩
        intro a inside
        apply frame
        rw [lay.base_block (@View.blocks_subset v false _ inside) (by decide)]
        exact newApart a inside
      · exact ⟨rfl, (Nat.zero_mul _).symm⟩
    · intro old
      cases old
      · change Cached db'.disk db'.mht.blocks v.newB
        rw [mht]
        refine (lay.cached false).congr ?_
        intro a inside k within
        apply frame
        rw [lay.base_block (@View.blocks_subset v false _ inside) within]
        exact newApart a inside
      change Cached db'.disk db'.mht.oldBlocks []
      rw [mht]
      change Cached db'.disk (htResetT db.mht.oldBlocks 0) []
      generalize htResetT db.mht.oldBlocks 0 = array at empty
      obtain ⟨size, blocks⟩ := array
      cases empty
      exact Cached.none db'.disk size []
    · intro a inside
      rw [show db'.eofPtr = db.eofPtr from eof]
      apply lay.block
      simp only [View.all, mem_append, mem_reverse, not_mem_nil, or_false] at inside ⊢
      tauto
    · refine (List.Perm.nodup_iff ?_).mpr lay.nodup
      unfold View.all
      simp only [append_nil, append_assoc]
      exact ((reverse_perm v.oldB).append_right _).append_left _
    · rw [show db'.eofPtr = db.eofPtr from eof]
      exact lay.eof
    · exact lay.placed
  · intro i within
    exact lay.frame_head _ newApart frame within
  · refine lay.frame_keys _ ?_ frame
    intro a inside
    exact lay.notOwned (@View.blocks_subset v true _ inside)

structure Allocated (ty : EntryType κ) (db : Db) (v : View) (db' : Db) (newB free : List Nat) : Prop where
  ht : ∃ table length, db'.ht = { db.ht with table, length }
  some : db'.mht.lengthOf false ≠ 0
  oldLength : db'.mht.oldLength = db.mht.oldLength
  progress : db'.mht.progress = db.mht.progress
  layout : Layout ty db' { v with newB, free }
  empty : ∀ i < db'.mht.lengthOf false, db'.load ty { v with newB, free } (.head false i) = 0
  heads : ∀ i < db.mht.lengthOf true, db'.load ty { v with newB, free } (.head true i) = db.load ty v (.head true i)
  cells : ∀ ea ∈ v.cells, ty.key (db'.entry ea) = ty.key (db.entry ea) ∧
    db'.disk (ea + ty.threadOffset) = db.disk (ea + ty.threadOffset)

theorem allocTable (none : db.mht.lengthOf false = 0) :
    ∃ db' newB free, db.htAllocTable ty = .ok db' ∧ Allocated ty db v db' newB free := by
  have empty : v.newB = [] := by
    have length := (lay.table false).length_eq
    rw [none] at length
    apply eq_nil_of_length_eq_zero
    exact (Nat.mul_eq_zero.mp length.symm).resolve_right (by decide)
  have noBlocks : db.mht.blocks.blocks = .none := (lay.cached false).free empty
  have header : db.ht.length = 0 := by
    have agree := lay.sameLength false
    rw [none] at agree
    exact agree.symm
  set nb := max ((db.ht.entries * 2 + nHTBuckets - 1) / nHTBuckets) ty.minHBlocks with nb_eq
  have positive : 0 < nb := lt_of_lt_of_le ty.someBlocks (le_max_right _ _)
  obtain ⟨db₁, addrs, free, taken, count, disk₁, same₁, lay₁⟩ := lay.allocBlocks nb
  have whole := lay₁.nodup
  unfold View.all at whole
  rw [empty, nil_append] at whole
  have parts := List.nodup_append.mp whole
  have owned := List.nodup_append.mp parts.2.1
  have block : ∀ a ∈ addrs, IsBlock db₁.eofPtr a := fun a inside =>
    lay₁.block a (mem_append_right _ (mem_append_left _ inside))
  obtain ⟨db₂, written, same₂, freePtr, eof, frame, chain, zero⟩ := writeBlocks_chain db₁ block owned.1
  have frame' (p : Nat) (outside : blockBase p ∉ addrs) : db₂.disk p = db.disk p := (frame p outside).trans (congrFun disk₁ p)
  have oldApart : ∀ a ∈ v.blocks true, a ∉ addrs := fun a inside again =>
    parts.2.2 a (mem_append_left _ inside) a (mem_append_left _ again) rfl
  have freeApart : ∀ a ∈ free, a ∉ addrs := fun a inside again =>
    parts.2.2 a (mem_append_right _ inside) a (mem_append_left _ again) rfl
  have ownedApart : ∀ a ∈ addrs, a ∉ v.owned := fun a inside again => owned.2.2 a inside a again rfl
  have ht : db₂.ht = db.ht := same₂.ht.trans same₁.ht
  have mht : db₂.mht = db.mht := same₂.mht.trans same₁.mht
  refine ⟨_, addrs, free, except_bind_eq_ok.mpr ⟨(), ensure_eq_ok.mpr ⟨header, by rw [noBlocks]; rfl⟩,
    except_bind_eq_ok.mpr ⟨_, taken, except_bind_eq_ok.mpr ⟨db₂, written, rfl⟩⟩⟩, ?_⟩
  have layout : Layout ty { db₂ with
      ht := { db₂.ht with table := addrs.headD 0, length := nb * nHTBuckets }
      mht := { db₂.mht with
        length := nb * nHTBuckets
        blocks :=
          { size := nb
            blocks := some fun i => (addrs[i]?).map fun a => { a, next := addrs.getD (i + 1) 0 : MemoryHTBlock } } } }
      { v with newB := addrs, free } := by
    refine ⟨?_, ?_, ?_, ?_, ?_, ?_, ?_, lay.placed, lay.apart⟩
    · intro old
      cases old
      · rfl
      · change db₂.mht.oldLength = db₂.ht.oldLength
        rw [mht, ht]
        exact lay.sameLength true
    · intro old
      cases old
      · exact ⟨chain, by rw [← count]; rfl⟩
      have table := lay.table true
      change Table db₂.disk db₂.ht.oldTable db₂.mht.oldLength v.oldB
      rw [mht, ht]
      refine ⟨table.chain.congr_values ?_, table.length_eq⟩
      intro a inside
      apply frame'
      rw [lay.base_block (@View.blocks_subset v true _ inside) (by decide)]
      exact oldApart a inside
    · intro old
      cases old
      · refine ⟨fun _ => count.symm, fun nil => ?_, ?_, ?_⟩
        · have none : addrs = [] := nil
          rw [none] at count
          exact absurd count.symm (Nat.ne_of_gt positive)
        · intro f i m same found
          cases same
          obtain ⟨a, here, rfl⟩ := Option.map_eq_some_iff.mp found
          exact here
        · intro f i m same found valid
          cases same
          obtain ⟨a, here, rfl⟩ := Option.map_eq_some_iff.mp found
          cases valid
      · change Cached db₂.disk db₂.mht.oldBlocks v.oldB
        rw [mht]
        refine (lay.cached true).congr ?_
        intro a inside k within
        apply frame'
        rw [lay.base_block (@View.blocks_subset v true _ inside) within]
        exact oldApart a inside
    · change Linked id (fun a => db₂.disk (a + 4)) db₂.freePtr free
      rw [freePtr]
      refine lay₁.free.congr_values ?_
      intro a inside
      have member : a ∈ (View.all { v with free, owned := addrs ++ v.owned }) := mem_append_right _ inside
      apply frame
      rw [lay₁.base_block member (by decide)]
      exact freeApart a inside
    · intro a inside
      change IsBlock db₂.eofPtr a
      rw [eof]
      apply lay₁.block
      simp only [View.all, empty, mem_append, not_mem_nil, false_or] at inside ⊢
      tauto
    · refine (List.Perm.nodup_iff ?_).mpr whole
      unfold View.all
      have first : (addrs ++ (v.oldB ++ free) ++ v.owned).Perm (v.oldB ++ free ++ addrs ++ v.owned) :=
        List.perm_append_comm.append_right _
      simpa only [append_assoc] using first
    · change sizeofDbHeader ≤ db₂.eofPtr ∧ blockBase db₂.eofPtr = db₂.eofPtr
      rw [eof]
      exact lay₁.eof
  refine ⟨⟨addrs.headD 0, nb * nHTBuckets, by rw [ht]⟩, ?_, show db₂.mht.oldLength = _ by rw [mht],
    show db₂.mht.progress = _ by rw [mht], layout, ?_, ?_, ?_⟩
  · exact Nat.mul_ne_zero (Nat.ne_of_gt positive) (by decide)
  · intro i within
    obtain ⟨a, here, inside, place, small⟩ := layout.blockOf (show i < MemoryHashTable.lengthOf _ false from within)
    unfold Db.load
    rw [place, ← Nat.add_assoc]
    exact zero a inside _ (Nat.mod_lt i (by decide))
  · intro i within
    exact lay.frame_head { db₂ with ht := _, mht := _ } oldApart frame' within
  · exact lay.frame_keys { db₂ with ht := _, mht := _ } ownedApart frame'

end Layout

end OpenAFS.Budb
