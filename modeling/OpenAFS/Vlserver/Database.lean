import OpenAFS.Lib.Fallible

namespace OpenAFS.Vlserver

open Function (update)
open Lib

def hashSize : Nat := 8191

def headerSize : Nat := 132120

def entrySize : Nat := 148

def maxNameLen : Nat := 65

def badServerId : UInt8 := 255

def maxServerId : Nat := 254

/-- `VLFREE` and `VLDELETED`. -/
def vlFree : UInt32 := 1
def vlDeleted : UInt32 := 2

def allOpers : UInt32 := 0x1f0

inductive VolType where
  | rw
  | ro
  | back
  deriving DecidableEq, Repr

def VolType.index : VolType → Nat
  | rw => 0
  | ro => 1
  | back => 2

inductive VlError where
  | badIndex
  | idExist
  | nameExist
  | createFail
  | idAlreadyHashed
  | noEnt
  | entDeleted
  | badEntry
  | badName
  | badServer
  | badPartition
  | badServerFlag
  | badVolType
  | badRelLockType
  | noRepServer
  | dupRepServer
  | repsFull
  /-- Not a code: the call follows a chain that never ends. -/
  | loops
  deriving DecidableEq, Repr

/-- An entry in its internal form. A name is its bytes without the zeros behind it. -/
structure NvlEntry where
  volumeId : VolType → UInt32 := fun _ => 0
  flags : UInt32 := 0
  lockAfsId : UInt32 := 0
  lockTimestamp : UInt32 := 0
  cloneId : UInt32 := 0
  nextIdHash : VolType → Nat := fun _ => 0
  nextNameHash : Nat := 0
  name : List UInt8 := []
  serverNumber : Nat → UInt8 := fun _ => 0
  serverPartition : Nat → UInt8 := fun _ => 0
  serverFlags : Nat → UInt8 := fun _ => 0

inductive Thread where
  | id (t : VolType)
  | name
  deriving DecidableEq, Repr

/-- `abs` of a two's complement number: the least one stays as it is. -/
def cAbs (i : Int) : Int := if i = -2 ^ 31 then i else i.natAbs

def idHash (volumeid : UInt32) : Int := (cAbs volumeid.toBitVec.toInt).tmod hashSize

def nameHash (volumename : List UInt8) : Nat :=
  (volumename.foldr (fun c hash => hash * 63 + (c.toUInt32 - 63)) (0 : UInt32)).toNat % hashSize

namespace NvlEntry

def next (e : NvlEntry) : Thread → Nat
  | .id t => e.nextIdHash t
  | .name => e.nextNameHash

def setNext (e : NvlEntry) (k : Thread) (b : Nat) : NvlEntry :=
  match k with
  | .id t => { e with nextIdHash := update e.nextIdHash t b }
  | .name => { e with nextNameHash := b }

/-- The place of an entry's chain in the hash tables of the header, which lie one behind the other: `VolnameHash`,
    then `VolidHash` of each type. -/
def chain (e : NvlEntry) : Thread → Int
  | .id t => hashSize * (t.index + 1) + idHash (e.volumeId t)
  | .name => nameHash e.name

end NvlEntry

structure Vldb where
  freePtr : Nat
  eofPtr : Nat
  hash : Int → Nat
  hostAddress : Nat → UInt32
  block : Nat → NvlEntry

namespace Vldb

variable (db : Vldb)

def put (b : Nat) (e : NvlEntry) : Vldb := { db with block := update db.block b e }

def indexOK (b : Nat) : Prop := headerSize ≤ b ∧ b < db.eofPtr

instance (b : Nat) : Decidable (db.indexOK b) := by unfold indexOK; infer_instance

/-- `AllocBlock`, without the entry, which it clears. -/
def allocBlock : Vldb × Nat :=
  if db.freePtr ≠ 0 then ({ db with freePtr := (db.block db.freePtr).nextIdHash .rw }, db.freePtr)
  else ({ db with eofPtr := db.eofPtr + entrySize }, db.eofPtr)

def freeBlock (b : Nat) : Except VlError Vldb :=
  if db.indexOK b then
    .ok ({ db with freePtr := b }.put b
      { nextIdHash := update (fun _ => 0) .rw db.freePtr, flags := vlFree })
  else .error .badIndex

def fuel : Nat := db.eofPtr + 1

def findFrom (hit : NvlEntry → Bool) (k : Thread) : Nat → Nat → Except VlError Nat
  | 0, _ => .error .loops
  | fuel + 1, b =>
    if b = 0 then .ok 0
    else if hit (db.block b) then .ok b
    else findFrom hit k fuel ((db.block b).next k)

def findOfType (volid : UInt32) (t : VolType) : Except VlError Nat :=
  db.findFrom (fun e => volid = e.volumeId t) (.id t) db.fuel (db.hash (hashSize * (t.index + 1) + idHash volid))

/-- `FindByID`; `none` is a `voltype` of -1. -/
def findByID (volid : UInt32) : Option VolType → Except VlError Nat
  | some t => db.findOfType volid t
  | none => do
    let b ← db.findOfType volid .rw
    if b ≠ 0 then .ok b
    else do
      let b ← db.findOfType volid .ro
      if b ≠ 0 then .ok b else db.findOfType volid .back

end Vldb

def backupExtension : List UInt8 := [46, 98, 97, 99, 107, 117, 112]
def readonlyExtension : List UInt8 := [46, 114, 101, 97, 100, 111, 110, 108, 121]

def zapExtension (volname : List UInt8) : List UInt8 :=
  let len := volname.length
  if 8 ≤ len ∧ volname.drop (len - 7) = backupExtension then volname.take (len - 7)
  else if 10 ≤ len ∧ volname.drop (len - 9) = readonlyExtension then volname.take (len - 9)
  else volname

namespace Vldb

variable (db : Vldb)

def findByName (volname : List UInt8) : Except VlError Nat :=
  let tname := zapExtension volname
  db.findFrom (fun e => tname = e.name) .name db.fuel (db.hash (nameHash tname))

/-- The stores that put a block in front of its chain, in the header and in the entry, which is not yet written. -/
def hashOn (k : Thread) (b : Nat) (e : NvlEntry) : Vldb × NvlEntry :=
  ({ db with hash := update db.hash (e.chain k) b }, e.setNext k (db.hash (e.chain k)))

def hashVolid (t : VolType) (b : Nat) (e : NvlEntry) : Except VlError (Vldb × NvlEntry) := do
  let found ← db.findOfType (e.volumeId t) t
  ensure (found = 0) .idAlreadyHashed
  .ok (db.hashOn (.id t) b e)

def hashVolname (b : Nat) (e : NvlEntry) : Vldb × NvlEntry := db.hashOn .name b e

def prevFrom (k : Thread) (b : Nat) : Nat → Nat → Except VlError Nat
  | 0, _ => .error .loops
  | fuel + 1, prev =>
    let next := (db.block prev).next k
    if next = 0 then .error .noEnt
    else if next = b then .ok prev
    else prevFrom k b fuel next

/-- The part of `UnhashVolid` and `UnhashVolname` that takes a block out of its chain. -/
def unhashOn (k : Thread) (b : Nat) (e : NvlEntry) : Except VlError (Vldb × NvlEntry) :=
  if db.hash (e.chain k) = b then
    .ok ({ db with hash := update db.hash (e.chain k) (e.next k) }, e.setNext k 0)
  else
    (db.prevFrom k b db.fuel (db.hash (e.chain k))).map fun prev =>
      (db.put prev ((db.block prev).setNext k (e.next k)), e.setNext k 0)

def unhashVolid (t : VolType) (b : Nat) (e : NvlEntry) : Except VlError (Vldb × NvlEntry) :=
  if e.volumeId t = 0 then .ok (db, e) else db.unhashOn (.id t) b e

def unhashVolname (b : Nat) (e : NvlEntry) : Except VlError (Vldb × NvlEntry) := db.unhashOn .name b e

def threadVLentry (b : Nat) (e : NvlEntry) : Except VlError Vldb := do
  ensure (db.indexOK b) .badIndex
  let (db, e) ← db.hashVolid .rw b e
  let (db, e) ← if e.volumeId .ro ≠ 0 then db.hashVolid .ro b e else .ok (db, e)
  let (db, e) ← if e.volumeId .back ≠ 0 then db.hashVolid .back b e else .ok (db, e)
  let (db, e) := db.hashVolname b e
  .ok (db.put b e)

def unthreadVLentry (b : Nat) (e : NvlEntry) : Except VlError Vldb := do
  ensure (db.indexOK b) .badIndex
  let (db, e) ← db.unhashVolid .rw b e
  let (db, e) ← db.unhashVolid .ro b e
  let (db, e) ← db.unhashVolid .back b e
  let (db, _) ← db.unhashVolname b e
  .ok db

end Vldb

end OpenAFS.Vlserver
