import OpenAFS.Budb.HashTables
import OpenAFS.Lib.HashTable

namespace OpenAFS.Budb

open Function (update_self update_of_ne)
open Lib

structure IsBlock (eofPtr a : Nat) : Prop where
  behind : sizeofDbHeader ≤ a
  base : blockBase a = a
  before : a + blockSize ≤ eofPtr

theorem blockBase_add {a k : Nat} (behind : sizeofDbHeader ≤ a) (base : blockBase a = a) (within : k < blockSize) :
    blockBase (a + k) = a := by
  have split : (a - sizeofDbHeader) / blockSize * blockSize + sizeofDbHeader = a := base
  have shift : a + k - sizeofDbHeader = (a - sizeofDbHeader) / blockSize * blockSize + k := by omega
  unfold blockBase
  rw [shift, Nat.add_comm _ k, Nat.add_mul_div_right _ _ (by decide), Nat.div_eq_of_lt within, Nat.zero_add, split]

theorem blockBase_next {a : Nat} (behind : sizeofDbHeader ≤ a) (base : blockBase a = a) :
    blockBase (a + blockSize) = a + blockSize := by
  have split : (a - sizeofDbHeader) / blockSize * blockSize + sizeofDbHeader = a := base
  unfold blockBase
  rw [show a + blockSize - sizeofDbHeader = a - sizeofDbHeader + blockSize by omega,
    Nat.add_div_right _ (by decide), Nat.succ_mul]
  omega

structure Table (disk : Nat → Nat) (head length : Nat) (B : List Nat) : Prop where
  chain : Linked id (fun a => disk (a + 4)) head B
  length_eq : length = B.length * nHTBuckets

structure Cached (disk : Nat → Nat) (b : BlockArray) (B : List Nat) : Prop where
  size : b.blocks.isSome = true → b.size = B.length
  free : B = [] → b.blocks = none
  place : ∀ f i m, b.blocks = some f → f i = some m → B[i]? = some m.a
  content : ∀ f i m, b.blocks = some f → f i = some m → m.valid = true →
    m.next = disk (m.a + 4) ∧ ∀ j < nHTBuckets, m.bucket j = disk (m.a + 8 + 4 * j)

theorem Cached.none (disk : Nat → Nat) (n : Nat) (B : List Nat) : Cached disk { size := n, blocks := none } B where
  size := fun some => nomatch some
  free := fun _ => rfl
  place := by
    intro f i m some
    cases some
  content := by
    intro f i m some
    cases some

theorem htTableSize_blocks (n : Nat) : htTableSize (n * nHTBuckets) = n := by
  unfold htTableSize nHTBuckets
  omega

theorem Cached.reset {disk disk' : Nat → Nat} {b : BlockArray} {B : List Nat} (cached : Cached disk b B) :
    Cached disk' (htResetT b (B.length * nHTBuckets)) B := by
  unfold htResetT
  split
  next null =>
    obtain ⟨size, blocks⟩ := b
    cases null
    exact Cached.none disk' size B
  next blocks some =>
    rw [htTableSize_blocks, if_neg (by rw [cached.size (by rw [some]; rfl)]; exact fun h => h rfl)]
    refine ⟨fun _ => cached.size (by rw [some]; rfl), fun nil => ?_, ?_, ?_⟩
    · rw [cached.free nil] at some
      cases some
    · intro f i m here found
      cases here
      obtain ⟨m', found', rfl⟩ := Option.map_eq_some_iff.mp found
      exact cached.place blocks i m' some found'
    · intro f i m here found valid
      cases here
      obtain ⟨m', -, rfl⟩ := Option.map_eq_some_iff.mp found
      cases valid

theorem htResetT_nil {disk : Nat → Nat} {b : BlockArray} {B : List Nat} (cached : Cached disk b B) :
    (htResetT b 0).blocks = .none := by
  unfold htResetT
  split
  next null => exact null
  next blocks some =>
    have nonempty : B ≠ [] := by
      intro nil
      rw [cached.free nil] at some
      cases some
    have long : b.size ≠ htTableSize 0 := by
      rw [cached.size (by rw [some]; rfl)]
      exact fun zero => nonempty (List.eq_nil_of_length_eq_zero zero)
    rw [if_pos long]

theorem Cached.congr {disk disk' : Nat → Nat} {b : BlockArray} {B : List Nat} (cached : Cached disk b B)
    (same : ∀ a ∈ B, ∀ k < blockSize, disk' (a + k) = disk (a + k)) : Cached disk' b B where
  size := cached.size
  free := cached.free
  place := cached.place
  content := by
    intro f i m here found valid
    have inside := List.mem_of_getElem? (cached.place f i m here found)
    obtain ⟨next, buckets⟩ := cached.content f i m here found valid
    refine ⟨next.trans (same _ inside 4 (by decide)).symm, fun j within => ?_⟩
    rw [buckets j within, Nat.add_assoc]
    refine (same _ inside _ ?_).symm
    unfold nHTBuckets at within
    unfold blockSize
    omega

namespace Db

def Loaded (db : Db) (old : Bool) (bi : Nat) : Prop :=
  ∃ f m, (db.mht.array old).blocks = some f ∧ f bi = some m ∧ m.valid = true

def core (db : Db) : Db := { db with mht.blocks := {}, mht.oldBlocks := {} }

end Db

section Fetch

variable {disk : Nat → Nat} {B : List Nat} {head : Nat} {size : Nat} {f : Nat → Option MemoryHTBlock}

def Fresh (disk : Nat → Nat) (a : Nat) (m : MemoryHTBlock) : Prop :=
  m.a = a ∧ m.valid = true ∧ m.next = disk (a + 4) ∧ ∀ j < nHTBuckets, m.bucket j = disk (a + 8 + 4 * j)

theorem Cached.insert {a i : Nat} {m : MemoryHTBlock} (cached : Cached disk { size, blocks := some f } B)
    (here : B[i]? = some a) (fresh : Fresh disk a m) :
    Cached disk { size, blocks := some (Function.update f i (some m)) } B where
  size := cached.size
  free := fun nil => nomatch cached.free nil
  place := by
    intro g j m' same found
    cases same
    by_cases it : j = i
    · subst it
      rw [update_self] at found
      cases found
      rw [here, fresh.1]
    · rw [update_of_ne it] at found
      exact cached.place f j m' rfl found
  content := by
    intro g j m' same found valid
    cases same
    by_cases it : j = i
    · subst it
      rw [update_self] at found
      cases found
      rw [fresh.1]
      exact fresh.2.2
    · rw [update_of_ne it] at found
      exact cached.content f j m' rfl found valid

theorem Db.readIn_fresh {db : Db} {i a : Nat} (ta : Nat) (cached : Cached db.disk { size, blocks := some f } B)
    (here : B[i]? = some a) (named : f i = .none → (if i = 0 then head else ta) = a) (nonzero : head ≠ 0)
    (below : a < db.eofPtr) : ∃ m, db.readIn head i ta f = .ok m ∧ Fresh db.disk a m := by
  have read (m : MemoryHTBlock) (place : m.a = a) (content : m.valid = true →
      m.next = db.disk (a + 4) ∧ ∀ j < nHTBuckets, m.bucket j = db.disk (a + 8 + 4 * j)) :
      ∃ m', (if m.valid then Except.ok m
        else do
          db.dbread m.a
          .ok { m with valid := true, next := db.disk (m.a + 4), bucket := fun j => db.disk (m.a + 8 + 4 * j) }) = .ok m' ∧
        Fresh db.disk a m' := by
    by_cases valid : m.valid = true
    · rw [if_pos valid]
      exact ⟨m, rfl, place, valid, content valid⟩
    rw [if_neg valid]
    refine ⟨_, except_bind_eq_ok.mpr ⟨(), ensure_eq_ok.mpr (place ▸ below), rfl⟩, place, rfl, ?_, ?_⟩
    · rw [place]
    · intro j _
      rw [place]
  unfold Db.readIn
  cases found : f i with
  | none =>
    obtain ⟨m', done, fresh⟩ := read { a := if i = 0 then head else ta } (named found) (fun valid => nomatch valid)
    exact ⟨m', except_bind_eq_ok.mpr ⟨(), ensure_eq_ok.mpr fun _ => nonzero, done⟩, fresh⟩
  | some m =>
    have place : m.a = a := by
      have there := cached.place f i m rfl found
      rw [here] at there
      cases there
      rfl
    obtain ⟨m', done, fresh⟩ := read m place fun valid => place ▸ cached.content f i m rfl found valid
    exact ⟨m', except_bind_eq_ok.mpr ⟨m, rfl, done⟩, fresh⟩

theorem Db.fetch_fresh {db : Db} (steps i ta : Nat) (cached : Cached db.disk { size, blocks := some f } B)
    (chain : Linked id (fun a => db.disk (a + 4)) head B) (within : i + steps < B.length)
    (named : f i = .none → i ≠ 0 → B[i]? = some ta) (below : ∀ a ∈ B, a < db.eofPtr) :
    ∃ f', db.fetch head i ta f steps = .ok f' ∧ Cached db.disk { size, blocks := some f' } B ∧
      (∃ m, f' (i + steps) = some m ∧ m.valid = true) ∧
      ∀ j m, f j = some m → m.valid = true → ∃ m', f' j = some m' ∧ m'.valid = true := by
  have nonzero : head ≠ 0 := by
    rintro rfl
    rw [chain.eq_nil] at within
    exact absurd within (Nat.not_lt_zero _)
  induction steps generalizing i ta f with
  | zero =>
    obtain ⟨a, here⟩ : ∃ a, B[i]? = some a := ⟨_, List.getElem?_eq_getElem (by omega)⟩
    obtain ⟨m, done, fresh⟩ := readIn_fresh ta cached here (by
      intro missing
      split
      next zero =>
        subst zero
        have first := chain.first
        rw [here] at first
        exact first.symm
      next later =>
        have there := named missing later
        rw [here] at there
        cases there
        rfl) nonzero (below a (List.mem_of_getElem? here))
    refine ⟨_, except_bind_eq_ok.mpr ⟨m, done, rfl⟩, cached.insert here fresh, ⟨m, update_self .., fresh.2.1⟩, ?_⟩
    intro j m' found valid
    by_cases it : j = i
    · subst it
      exact ⟨m, update_self .., fresh.2.1⟩
    · rw [update_of_ne it]
      exact ⟨m', found, valid⟩
  | succ steps ih =>
    obtain ⟨a, here⟩ : ∃ a, B[i]? = some a := ⟨_, List.getElem?_eq_getElem (by omega)⟩
    obtain ⟨m, done, fresh⟩ := readIn_fresh ta cached here (by
      intro missing
      split
      next zero =>
        subst zero
        have first := chain.first
        rw [here] at first
        exact first.symm
      next later =>
        have there := named missing later
        rw [here] at there
        cases there
        rfl) nonzero (below a (List.mem_of_getElem? here))
    obtain ⟨f', fetched, cached', loaded, kept⟩ := ih (i + 1) m.next (cached.insert here fresh) (by omega) (by
      intro _ _
      have next := chain.following here
      rw [List.getElem?_eq_getElem (by omega)] at next ⊢
      rw [fresh.2.2.1]
      exact congrArg some next)
    refine ⟨f', except_bind_eq_ok.mpr ⟨m, done, fetched⟩, cached', ?_, ?_⟩
    · rw [show i + (steps + 1) = i + 1 + steps by omega]
      exact loaded
    intro j m' found valid
    by_cases it : j = i
    · subst it
      exact kept j m (update_self ..) fresh.2.1
    · exact kept j m' (by rw [update_of_ne it]; exact found) valid

theorem startBlock_le (b : Nat → Option MemoryHTBlock) (bi : Nat) : Db.startBlock b bi ≤ bi := by
  induction bi with
  | zero => exact Nat.le_refl 0
  | succ i ih =>
    unfold Db.startBlock
    split
    · exact Nat.le_succ_of_le ih
    · exact Nat.le_refl _

theorem startBlock_some (b : Nat → Option MemoryHTBlock) (bi : Nat) :
    b (Db.startBlock b bi) = .none → Db.startBlock b bi = 0 := by
  induction bi with
  | zero => exact fun _ => rfl
  | succ i ih =>
    unfold Db.startBlock
    split
    · exact ih
    next here =>
      intro missing
      rw [missing] at here
      exact absurd rfl here

end Fetch

namespace Db

variable {db : Db} (mht : MemoryHashTable) (b : BlockArray) (old : Bool)

@[simp] theorem array_setArray : (mht.setArray b old).array old = b := by
  cases old <;> rfl

@[simp] theorem array_setArray_not :
    (mht.setArray b old).array (!old) = mht.array (!old) := by
  cases old <;> rfl

@[simp] theorem lengthOf_setArray (old' : Bool) :
    (mht.setArray b old).lengthOf old' = mht.lengthOf old' := by
  cases old <;> cases old' <;> rfl

@[simp] theorem progress_setArray :
    (mht.setArray b old).progress = mht.progress := by
  cases old <;> rfl

theorem array_setArray_of_ne {old old' : Bool} (other : old' ≠ old) :
    (mht.setArray b old).array old' = mht.array old' := by
  rw [Bool.eq_not_of_ne other]
  exact array_setArray_not mht b old

theorem htGetTableBlock_found {hash : Nat} {old : Bool} {B : List Nat}
    (table : Table db.disk (db.ht.tableOf old) (db.mht.lengthOf old) B) (cached : Cached db.disk (db.mht.array old) B)
    (below : ∀ a ∈ B, a < db.eofPtr) (some : db.mht.lengthOf old ≠ 0)
    (there : old = true → db.mht.progress ≤ hash % db.mht.lengthOf old) :
    ∃ b bi bo, db.htGetTableBlock hash old = .ok ({ db with mht := db.mht.setArray b old }, .some (bi, bo)) ∧
      Cached db.disk b B ∧ bi < B.length ∧ bo < nHTBuckets ∧ bi * nHTBuckets + bo = hash % db.mht.lengthOf old ∧
      Loaded { db with mht := db.mht.setArray b old } old bi ∧
      ∀ bi', db.Loaded old bi' → Loaded { db with mht := db.mht.setArray b old } old bi' := by
  have positive : 0 < db.mht.lengthOf old := Nat.pos_of_ne_zero some
  have least := Nat.mod_lt hash positive
  unfold htGetTableBlock
  extract_lets length hi bi array size b first
  rw [if_neg some, if_neg fun skip => absurd (there skip.1) (Nat.not_le.mpr skip.2)]
  have within : bi < B.length := by
    have long := table.length_eq
    change hi / nHTBuckets < B.length
    rw [Nat.div_lt_iff_lt_mul (by decide), ← long]
    exact least
  have size_eq : size = B.length := by
    change (if array.blocks.isNone then htTableSize length else array.size) = B.length
    split
    · have long : length = B.length * nHTBuckets := table.length_eq
      rw [long, htTableSize_blocks]
    next here =>
      rw [Option.isNone_iff_eq_none] at here
      exact cached.size (Option.isSome_iff_ne_none.mpr here)
  have cached' : Cached db.disk { size, blocks := .some b } B := by
    cases same : array.blocks with
    | none =>
      have empty : b = fun _ => .none := by
        change array.blocks.getD _ = _
        rw [same]
        rfl
      rw [empty]
      refine ⟨fun _ => size_eq, fun nil => ?_, ?_, ?_⟩
      · rw [nil] at within
        exact absurd within (Nat.not_lt_zero _)
      · intro f i m here found
        cases here
        cases found
      · intro f i m here found
        cases here
        cases found
    | some f =>
      have full : b = f := by
        change array.blocks.getD _ = _
        rw [same]
        rfl
      rw [full]
      refine ⟨fun _ => size_eq, fun nil => absurd (same.symm.trans (cached.free nil)) (by simp), ?_, ?_⟩
      · intro g i m here found
        cases here
        exact cached.place f i m same found
      · intro g i m here found
        cases here
        exact cached.content f i m same found
  have early : first ≤ bi := startBlock_le b bi
  obtain ⟨f', fetched, cached'', loaded, kept⟩ := fetch_fresh (bi - first) first 0 cached'
    table.chain (by omega) (fun missing later => absurd (startBlock_some b bi missing) later) below
  rw [Nat.add_sub_cancel' early] at loaded
  obtain ⟨m, found, valid⟩ := loaded
  refine ⟨{ size, blocks := .some f' }, bi, hi - bi * nHTBuckets, ?_, cached'', within, ?_, ?_, ⟨f', m, by simp, found, valid⟩, ?_⟩
  · refine except_bind_eq_ok.mpr ⟨(), ensure_eq_ok.mpr (size_eq ▸ within), ?_⟩
    exact except_bind_eq_ok.mpr ⟨f', fetched, rfl⟩
  · change hi - hi / nHTBuckets * nHTBuckets < nHTBuckets
    have split := Nat.div_add_mod hi nHTBuckets
    have small := Nat.mod_lt hi (show 0 < nHTBuckets by decide)
    rw [Nat.mul_comm] at split
    omega
  · exact Nat.add_sub_cancel' (Nat.div_mul_le_self hi nHTBuckets)
  · rintro bi' ⟨g, m', here, found', valid'⟩
    have same : b = g := by
      change array.blocks.getD _ = _
      rw [here]
      rfl
    obtain ⟨m'', found'', valid''⟩ := kept bi' m' (same ▸ found') valid'
    exact ⟨f', m'', by simp, found'', valid''⟩

end Db

end OpenAFS.Budb
