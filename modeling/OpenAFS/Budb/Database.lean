import OpenAFS.Lib.Fallible

namespace OpenAFS.Budb

open Lib

/-- `BLOCKSIZE`, `NhtBucketS` (the buckets of a block of a hash table) and the size of `struct dbHeader`. -/
def blockSize : Nat := 2048
def nHTBuckets : Nat := 510
def sizeofDbHeader : Nat := 532

/-- `BlockBase`: the address of the block that an address lies in. -/
def blockBase (a : Nat) : Nat := (a - sizeofDbHeader) / blockSize * blockSize + sizeofDbHeader

/-- The first word of the header of a block of a hash table: its type is `hashTable_BLOCK`. -/
def hashTableBlock : Nat := 0x05000000

def emptyBlock (type next : Nat) : Nat → Nat := fun i => if i = 0 then type else if i = 4 then next else 0

inductive Code where
  | io
  | internalError
  | noEnt
  /-- The -1 of an entry that is not on the list. -/
  | notFound
  | panic
  | endless
  deriving DecidableEq

/-- `struct hashTable` in the header of the database. -/
structure HashTable where
  entries : Nat := 0
  length : Nat := 0
  table : Nat := 0
  progress : Nat := 0
  oldLength : Nat := 0
  oldTable : Nat := 0

structure MemoryHTBlock where
  valid : Bool := false
  a : Nat
  next : Nat := 0
  bucket : Nat → Nat := fun _ => 0

/-- `blocks` and `size`, or `oldBlocks` and `oldSize`. A size is the number of the pointers; the array itself may be a null pointer. -/
structure BlockArray where
  size : Nat := 0
  blocks : Option (Nat → Option MemoryHTBlock) := none

structure MemoryHashTable where
  length : Nat := 0
  oldLength : Nat := 0
  progress : Nat := 0
  blocks : BlockArray := {}
  oldBlocks : BlockArray := {}

/-- The words of the database by their addresses, what the server has of its header, and one of its hash tables. -/
structure Db where
  disk : Nat → Nat := fun _ => 0
  freePtr : Nat := 0
  eofPtr : Nat := sizeofDbHeader
  ht : HashTable := {}
  mht : MemoryHashTable := {}

namespace Db

variable (db : Db)

def dbread (pos : Nat) : Except Code Unit := ensure (pos < db.eofPtr) .io

/-- `dbwrite` of a word behind the header. -/
def setWord (pos value : Nat) : Except Code Db := do
  ensure (sizeofDbHeader ≤ pos ∧ pos < db.eofPtr) .io
  .ok { db with disk := Function.update db.disk pos value }

def writeWords (pos size : Nat) (words : Nat → Nat) : Except Code Db := do
  ensure (sizeofDbHeader ≤ pos ∧ pos < db.eofPtr) .io
  .ok { db with disk := fun p => if pos ≤ p ∧ p < pos + size then words (p - pos) else db.disk p }

/-- `AllocBlock`: the header without the block, or with its first free block taken out. -/
def allocBlock : Except Code (Db × Nat) :=
  if db.freePtr = 0 then .ok ({ db with eofPtr := db.eofPtr + blockSize }, db.eofPtr)
  else do
    db.dbread db.freePtr
    .ok ({ db with freePtr := db.disk (db.freePtr + 4) }, db.freePtr)

def freeBlock (a : Nat) : Except Code Db := do
  ensure (a = blockBase a) .panic
  { db with freePtr := a }.writeWords a 8 (emptyBlock 0 db.freePtr)

end Db

/-- What a hash table knows of its entries: `sizeFunctions`, `threadOffset`, the key that `ht_KeyMatch` compares and
`ht_HashEntry` hashes, and `ht_minHBlocks`. The key is read from the words by their offsets. -/
structure EntryType (κ : Type) where
  size : Nat
  threadOffset : Nat
  key : (Nat → Nat) → κ
  hashFunction : κ → Nat
  minHBlocks : Nat
  threadInside : threadOffset < size
  someBlocks : 0 < minHBlocks
  key_congr : ∀ e e' : Nat → Nat, (∀ i < size, i ≠ threadOffset → e' i = e i) → key e' = key e

def cString (offset : Nat) (e : Nat → Nat) : List UInt8 :=
  ((List.range 8).flatMap fun i =>
    let word := UInt32.ofNat (e (offset + 4 * i))
    [(word >>> 24).toUInt8, (word >>> 16).toUInt8, (word >>> 8).toUInt8, word.toUInt8]).takeWhile (· ≠ 0)

theorem cString_congr {offset : Nat} {e e' : Nat → Nat} (same : ∀ i < 32, e' (offset + i) = e (offset + i)) :
    cString offset e' = cString offset e := by
  unfold cString
  congr 1
  apply List.flatMap_congr
  intro i inside
  rw [same (4 * i) (by rw [List.mem_range] at inside; omega)]

def stringHashFunction (str : List UInt8) : Nat :=
  (str.foldl (fun hash c => c.toUInt32 + hash * 0x10204081) (1000003 : UInt32)).toNat

def idHashFunction (id : Nat) : Nat :=
  let id := UInt32.ofNat id * 81847
  ((id ||| 0xaaaaaaaa) * (id ||| 0x55555555)).toNat

/-- The four hash tables: dumps by their ids and by their names, tapes and volumes by their names. -/
def dumpIden : EntryType Nat where
  size := 636
  threadOffset := 624
  key e := e 0
  hashFunction := idHashFunction
  minHBlocks := 2
  threadInside := by decide
  someBlocks := by decide
  key_congr := fun e e' same => same 0 (by decide) (by decide)

def dumpName : EntryType (List UInt8) where
  size := 636
  threadOffset := 628
  key := cString 304
  hashFunction := stringHashFunction
  minHBlocks := 2
  threadInside := by decide
  someBlocks := by decide
  key_congr := fun e e' same => cString_congr fun i _ => same (304 + i) (by omega) (by omega)

def tapeName : EntryType (List UInt8) where
  size := 92
  threadOffset := 76
  key := cString 0
  hashFunction := stringHashFunction
  minHBlocks := 4
  threadInside := by decide
  someBlocks := by decide
  key_congr := fun e e' same => cString_congr fun i _ => same (0 + i) (by omega) (by omega)

def volName : EntryType (List UInt8) where
  size := 96
  threadOffset := 80
  key := cString 0
  hashFunction := stringHashFunction
  minHBlocks := 60
  threadInside := by decide
  someBlocks := by decide
  key_congr := fun e e' same => cString_congr fun i _ => same (0 + i) (by omega) (by omega)

end OpenAFS.Budb
