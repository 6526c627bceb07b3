import OpenAFS.Budb.Database

namespace OpenAFS.Budb

open Function (update)
open Lib

/-- `ht_TableSize`, in pointers. -/
def htTableSize (length : Nat) : Nat := (length + nHTBuckets - 1) / nHTBuckets

/-- `ht_ResetT`: an array of the wrong size is freed, the blocks of the others have to be read again. -/
def htResetT (b : BlockArray) (length : Nat) : BlockArray :=
  match b.blocks with
  | none => b
  | some blocks =>
    if b.size ≠ htTableSize length then { size := 0, blocks := none }
    else { b with blocks := some fun i => (blocks i).map fun m => { m with valid := false } }

/-- The table of a memory hash table that an argument `old` means. -/
def MemoryHashTable.array (mht : MemoryHashTable) : Bool → BlockArray
  | true => mht.oldBlocks
  | false => mht.blocks

def MemoryHashTable.setArray (mht : MemoryHashTable) (b : BlockArray) : Bool → MemoryHashTable
  | true => { mht with oldBlocks := b }
  | false => { mht with blocks := b }

def MemoryHashTable.lengthOf (mht : MemoryHashTable) : Bool → Nat
  | true => mht.oldLength
  | false => mht.length

def HashTable.tableOf (ht : HashTable) : Bool → Nat
  | true => ht.oldTable
  | false => ht.table

/-- An error of `ht_HashInList` is reported as one of the disk; a panic does not return. -/
def Code.asIo (code : Code) : Code := if code = .internalError then .io else code

namespace Db

variable (db : Db)

def htReset : Db :=
  { db with
    mht :=
      { length := db.ht.length
        oldLength := db.ht.oldLength
        progress := db.ht.progress
        blocks := htResetT db.mht.blocks db.ht.length
        oldBlocks := htResetT db.mht.oldBlocks db.ht.oldLength } }

def allocBlocks (db : Db) : Nat → Except Code (Db × List Nat)
  | 0 => .ok (db, [])
  | n + 1 => do
    let (db, a) ← db.allocBlock
    let (db, rest) ← allocBlocks db n
    .ok (db, a :: rest)

/-- The second loop of `ht_AllocTable`: empty blocks, each with the address of the next. -/
def writeBlocks (db : Db) : List Nat → Except Code Db
  | [] => .ok db
  | a :: rest => do
    let db ← db.writeWords a blockSize (emptyBlock hashTableBlock (rest.headD 0))
    writeBlocks db rest

def freeBlocks (db : Db) (a : Nat) : Nat → Except Code Db
  | 0 => .error .endless
  | fuel + 1 =>
    if a = 0 then .ok db
    else do
      db.dbread a
      let next := db.disk (a + 4)
      let db ← db.freeBlock a
      freeBlocks db next fuel

def htFreeTable : Except Code Db := do
  ensure (db.ht.oldLength ≠ 0) .panic
  let db := { db with mht.oldBlocks := htResetT db.mht.oldBlocks 0 }
  let db ← db.freeBlocks db.ht.oldTable db.eofPtr
  .ok { db with
    ht := { db.ht with oldTable := 0, oldLength := 0, progress := 0 }
    mht := { db.mht with oldLength := 0, progress := 0 } }

/-- `b[i]`, read in if it is not valid. A block that is not in memory yet is at the address of the table, or at the one that
the block in front of it names. -/
def readIn (table i ta : Nat) (b : Nat → Option MemoryHTBlock) : Except Code MemoryHTBlock := do
  let m ← match b i with
    | some m => .ok m
    | none => do
      ensure (i = 0 → table ≠ 0) .panic
      .ok { a := if i = 0 then table else ta : MemoryHTBlock }
  if m.valid then .ok m
  else do
    db.dbread m.a
    .ok { m with valid := true, next := db.disk (m.a + 4), bucket := fun j => db.disk (m.a + 8 + 4 * j) }

/-- `b[i]` and the blocks behind it up to the one that is wanted. -/
def fetch (table : Nat) (i ta : Nat) (b : Nat → Option MemoryHTBlock) :
    Nat → Except Code (Nat → Option MemoryHTBlock)
  | 0 => do
    let m ← db.readIn table i ta b
    .ok (update b i (some m))
  | steps + 1 => do
    let m ← db.readIn table i ta b
    fetch table (i + 1) m.next (update b i (some m)) steps

def startBlock (b : Nat → Option MemoryHTBlock) : Nat → Nat
  | 0 => 0
  | i + 1 => if (b (i + 1)).isNone then startBlock b i else i + 1

/-- `ht_GetTableBlock`: the index of the block of a bucket, and the bucket's place in it. -/
def htGetTableBlock (hash : Nat) (old : Bool) : Except Code (Db × Option (Nat × Nat)) :=
  let length := db.mht.lengthOf old
  if length = 0 then .ok (db, none)
  else
    let hi := hash % length
    if old ∧ hi < db.mht.progress then .ok (db, none)
    else do
      let bi := hi / nHTBuckets
      let array := db.mht.array old
      let size := if array.blocks.isNone then htTableSize length else array.size
      let b := array.blocks.getD fun _ => none
      ensure (bi < size) .panic
      let first := startBlock b bi
      let b ← db.fetch (db.ht.tableOf old) first 0 b (bi - first)
      .ok ({ db with mht := db.mht.setArray { size, blocks := some b } old }, some (bi, hi - bi * nHTBuckets))

/-- A block of the chain of blocks that begins at an address, and the word of a bucket of a table on disk. -/
def blockAt (a : Nat) : Nat → Nat
  | 0 => a
  | n + 1 => blockAt (db.disk (a + 4)) n

def diskBucket (old : Bool) (hi : Nat) : Nat :=
  db.disk (db.blockAt (db.ht.tableOf old) (hi / nHTBuckets) + 8 + 4 * (hi % nHTBuckets))

def bucket (old : Bool) (bi bo : Nat) : Nat :=
  match (db.mht.array old).blocks.bind (· bi) with
  | some m => m.bucket bo
  | none => 0

def setBucket (old : Bool) (bi bo value : Nat) : Except Code Db :=
  match (db.mht.array old).blocks with
  | none => .error .panic
  | some b =>
    match b bi with
    | none => .error .panic
    | some m => do
      let db' ← db.setWord (m.a + 8 + 4 * bo) value
      let b := update b bi (some { m with bucket := update m.bucket bo value })
      .ok { db' with mht := db.mht.setArray { db.mht.array old with blocks := some b } old }

end Db

section Entries

variable {κ : Type} [DecidableEq κ] (ty : EntryType κ)

namespace Db

variable (db : Db)

def entry (ea : Nat) : Nat → Nat := fun i => db.disk (ea + i)

def thread (ea : Nat) : Nat := db.disk (ea + ty.threadOffset)

def htHashEntry (e : Nat → Nat) : Nat := ty.hashFunction (ty.key e)

def htAllocTable : Except Code Db := do
  ensure (db.ht.length = 0 ∧ db.mht.blocks.blocks.isNone) .panic
  let nb := max ((db.ht.entries * 2 + nHTBuckets - 1) / nHTBuckets) ty.minHBlocks
  let (db, addrs) ← db.allocBlocks nb
  let db ← db.writeBlocks addrs
  let b := fun i => (addrs[i]?).map fun a => { a, next := addrs.getD (i + 1) 0 : MemoryHTBlock }
  .ok { db with
    ht := { db.ht with table := addrs.headD 0, length := nb * nHTBuckets }
    mht := { db.mht with length := nb * nHTBuckets, blocks := { size := nb, blocks := some b } } }

def htMaybeAdjust : Db :=
  if db.mht.oldLength ≠ 0 then db
  else if db.mht.length * 2 < db.ht.entries ∧ db.ht.entries < 20450 then
    htReset { db with
      ht := { db.ht with oldLength := db.ht.length, oldTable := db.ht.table, progress := 0, length := 0, table := 0 } }
  else db

/-- The loop of `ht_HashInList`; the quota is left by the last item. -/
def moveList (bi bo : Nat) (db : Db) (ea : Nat) : Nat → Except Code (Db × Nat)
  | 0 => .ok (db, 0)
  | quota + 1 =>
    if ea = 0 then .ok (db, quota + 1)
    else do
      db.dbread ea
      let hash := htHashEntry ty (db.entry ea) % db.mht.length
      let next := db.thread ty ea
      let db ← db.setBucket true bi bo next
      let (db, found) ← db.htGetTableBlock hash false
      match found with
      | none => .error .internalError
      | some (bi', bo') =>
        let db ← db.setWord (ea + ty.threadOffset) (db.bucket false bi' bo')
        let db ← db.setBucket false bi' bo' ea
        moveList bi bo db next quota

def htHashInList (opQuota bi bo : Nat) : Except Code (Db × Nat) := do
  let db ← if db.mht.length = 0 then db.htAllocTable ty else .ok db
  if db.bucket true bi bo = 0 then .ok (db, opQuota)
  else moveList ty bi bo db (db.bucket true bi bo) opQuota

def moveBuckets (bi : Nat) (db : Db) (bo count : Nat) : Nat → Except Code Db
  | 0 => .ok db
  | steps + 1 => do
    let (db, count) ← if db.bucket true bi bo ≠ 0 then (db.htHashInList ty count bi bo).mapError Code.asIo else .ok (db, count)
    let db := if db.bucket true bi bo = 0 then { db with mht.progress := db.mht.progress + 1 } else db
    if count = 0 then .ok db else moveBuckets bi db (bo + 1) count steps

/-- `ht_MoveEntries` up to its test of the progress. -/
def moveSome : Except Code Db := do
  let (db, block) ← db.htGetTableBlock db.mht.progress true
  match block with
  | none => .error .internalError
  | some (bi, bo) => db.moveBuckets ty bi bo 10 (nHTBuckets - bo)

def htMoveEntries : Except Code Db :=
  if db.mht.oldLength = 0 then .ok db
  else do
    let db ← db.moveSome ty
    if db.mht.oldLength ≤ db.mht.progress then db.htFreeTable
    else .ok { db with ht.progress := db.mht.progress }

/-- `ht_HashIn` up to its call of `ht_MoveEntries`; the entry in memory gets its thread too. -/
def insert (ea : Nat) (e : Nat → Nat) : Except Code (Db × (Nat → Nat)) := do
  let db := db.htMaybeAdjust
  let db ← if db.mht.length = 0 then db.htAllocTable ty else .ok db
  let (db, found) ← db.htGetTableBlock (htHashEntry ty e) false
  match found with
  | none => .error .internalError
  | some (bi, bo) =>
    let e := update e ty.threadOffset (db.bucket false bi bo)
    let db ← db.setWord (ea + ty.threadOffset) (e ty.threadOffset)
    let db ← db.setBucket false bi bo ea
    .ok ({ db with ht.entries := db.ht.entries + 1 }, e)

def htHashIn (ea : Nat) (e : Nat → Nat) : Except Code (Db × (Nat → Nat)) := do
  let (db, e) ← db.insert ty ea e
  let db ← db.htMoveEntries ty
  .ok (db, e)

/-- The loop of `RemoveFromList`, from a cell that is not the one to remove; `none` is -1. -/
def removeAfter (ta thread loop_a : Nat) : Nat → Except Code (Option Db)
  | 0 => .error .endless
  | fuel + 1 => do
    db.dbread (loop_a + ty.threadOffset)
    let next_a := db.thread ty loop_a
    if next_a = 0 then .ok none
    else if next_a = ta then do
      let db ← db.setWord (loop_a + ty.threadOffset) thread
      .ok (some db)
    else removeAfter ta thread next_a fuel

/-- `RemoveFromList` from a bucket; `thread` is what the entry's own thread holds. -/
def removeFromList (old : Bool) (bi bo ta thread : Nat) : Except Code (Option Db) :=
  let head := db.bucket old bi bo
  if head = 0 then .ok none
  else if head = ta then do
    let db ← db.setBucket old bi bo thread
    .ok (some db)
  else db.removeAfter ty ta thread head db.eofPtr

/-- `ht_HashOutT`; the flag is `false` for its -1. -/
def htHashOutT (hash ea : Nat) (e : Nat → Nat) (old : Bool) : Except Code (Db × Bool) :=
  if db.mht.lengthOf old = 0 then .ok (db, false)
  else do
    let (db, found) ← db.htGetTableBlock hash old
    match found with
    | none => .ok (db, false)
    | some (bi, bo) =>
      if db.bucket old bi bo = 0 then .ok (db, false)
      else do
        let removed ← db.removeFromList ty old bi bo ea (e ty.threadOffset)
        match removed with
        | none => .ok (db, false)
        | some db => .ok ({ db with ht.entries := db.ht.entries - 1 }, true)

/-- `ht_HashOut` up to its call of `ht_MoveEntries`; the flag says that the entry was in the old table, where the call ends. -/
def remove (ea : Nat) (e : Nat → Nat) : Except Code (Db × Bool) := do
  let hash := htHashEntry ty e
  let (db, done) ← if db.mht.oldLength ≠ 0 then db.htHashOutT ty hash ea e true else .ok (db, false)
  if done then .ok (db, true)
  else do
    ensure (db.mht.length ≠ 0) .internalError
    let (db, found) ← db.htHashOutT ty hash ea e false
    ensure (found = true) .noEnt
    .ok (db, false)

def htHashOut (ea : Nat) (e : Nat → Nat) : Except Code Db := do
  let (db, done) ← db.remove ty ea e
  if done then .ok db
  else do
    let db ← db.htMoveEntries ty
    .ok db.htMaybeAdjust

def htLookupBucket (hash : Nat) (old : Bool) : Db × Nat :=
  if db.mht.lengthOf old = 0 then (db, 0)
  else
    match db.htGetTableBlock hash old with
    | .ok (db, some (bi, bo)) => (db, db.bucket old bi bo)
    | .ok (db, none) => (db, 0)
    | .error _ => (db, 0)

/-- The walk along a bucket in `ht_LookupEntry`; 0 when the key is on none of its entries. -/
def lookupList (key : κ) (a : Nat) : Nat → Except Code Nat
  | 0 => .error .endless
  | fuel + 1 =>
    if a = 0 then .ok 0
    else do
      db.dbread a
      if ty.key (db.entry a) = key then .ok a else lookupList key (db.thread ty a) fuel

/-- `ht_LookupEntry`: the address of the entry, 0 if there is none. -/
def htLookupEntry (key : κ) : Except Code (Db × Nat) := do
  let (db, a) := db.htLookupBucket (ty.hashFunction key) false
  let found ← db.lookupList ty key a db.eofPtr
  if found ≠ 0 then .ok (db, found)
  else
    let (db, a) := db.htLookupBucket (ty.hashFunction key) true
    let found ← db.lookupList ty key a db.eofPtr
    .ok (db, found)

end Db

end Entries

end OpenAFS.Budb
