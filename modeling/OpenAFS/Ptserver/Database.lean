import OpenAFS.Lib.Fallible

namespace OpenAFS.Ptserver

open Lib

abbrev Id := Int

abbrev Name := List UInt8

def int32 (i : Int) : Int := i.bmod (2 ^ 32)

def badId : Id := -2147483648

def sysAdminId : Id := -204
def sysViewerId : Id := -203
def sysBackupId : Id := -205
def anyUserId : Id := -101
def authUserId : Id := -102
def anonymousId : Id := 32766

def hashSize : Nat := 8191

def entrySize : Nat := 192

def headerSize : Nat := 65600

/-- `PRSIZE` and `COSIZE`. -/
def prSize : Nat := 10
def coSize : Nat := 39

def maxNameLen : Nat := 64

/-- `PRFREE`, `PRGRP`, `PRCONT`, `PRFOREIGN`, `PRINST`, `PRACCESS` and `PRQUOTA`. -/
def prFree : UInt32 := 1
def prGrp : UInt32 := 2
def prCont : UInt32 := 4
def prForeign : UInt32 := 16
def prInst : UInt32 := 32
def prAccess : UInt32 := 64
def prQuota : UInt32 := 128

inductive PrError where
  | exist
  | idExist
  | noIds
  | dbFail
  | noEnt
  | perm
  | notGroup
  | notUser
  | badNam
  | badArg
  | noMore
  | dbBad
  | groupEmpty
  | inconsistent
  /-- Not a code: the call follows a chain that never ends. -/
  | loops
  deriving DecidableEq, Repr

structure PrEntry where
  flags : UInt32 := 0
  id : Id := 0
  cellid : Id := 0
  next : Nat := 0
  entries : List Id := List.replicate prSize 0
  nextID : Nat := 0
  nextName : Nat := 0
  owner : Id := 0
  creator : Id := 0
  ngroups : Int := 0
  nusers : Int := 0
  count : Int := 0
  owned : Nat := 0
  nextOwned : Nat := 0
  name : Name := []

structure ContEntry where
  flags : UInt32 := 0
  id : Id := 0
  next : Nat := 0
  entries : List Id := List.replicate coSize 0

/-- A block is in one of the two forms, which begin with the same words. -/
inductive Block where
  | entry (e : PrEntry)
  | cont (c : ContEntry)

/-- `prheader`, with the counters that the calls read. -/
structure PrHeader where
  freePtr : Nat := 0
  eofPtr : Nat := headerSize
  maxGroup : Id := 0
  maxID : Id := 0
  orphan : Nat := 0
  usercount : Int := 0
  groupcount : Int := 0
  foreigncount : Int := 0
  instcount : Int := 0
  nameHash : Nat → Nat := fun _ => 0
  idHash : Nat → Nat := fun _ => 0

structure PrDb where
  header : PrHeader := {}
  block : Nat → Block := fun _ => .entry {}

def PrEntry.isGroup (e : PrEntry) : Prop := e.flags &&& prGrp ≠ 0

instance (e : PrEntry) : Decidable e.isGroup := by unfold PrEntry.isGroup; infer_instance

def PrEntry.isForeign (e : PrEntry) : Prop := 64 ∈ e.name

instance (e : PrEntry) : Decidable e.isForeign := by unfold PrEntry.isForeign; infer_instance

def idHash (x : Id) : Nat := x.natAbs % hashSize

def nameHash (aname : Name) : Nat :=
  (aname.foldr (fun c hash => hash * 31 + (c.toUInt32 - 31)) (0 : UInt32)).toNat % hashSize

inductive Thread where
  | id
  | name
  deriving DecidableEq, Repr

namespace PrEntry

def link (e : PrEntry) : Thread → Nat
  | .id => e.nextID
  | .name => e.nextName

def setLink (e : PrEntry) (b : Nat) : Thread → PrEntry
  | .id => { e with nextID := b }
  | .name => { e with nextName := b }

def bucket (e : PrEntry) : Thread → Nat
  | .id => idHash e.id
  | .name => nameHash e.name

end PrEntry

namespace PrHeader

def hash (h : PrHeader) : Thread → Nat → Nat
  | .id => h.idHash
  | .name => h.nameHash

def setHash (h : PrHeader) (n b : Nat) : Thread → PrHeader
  | .id => { h with idHash := Function.update h.idHash n b }
  | .name => { h with nameHash := Function.update h.nameHash n b }

end PrHeader

namespace PrDb

variable (db : PrDb)

/-- `pr_ReadEntry`. Of a block of the other form only the words that both have are read. -/
def entry (b : Nat) : PrEntry :=
  match db.block b with
  | .entry e => e
  | .cont c => { flags := c.flags, id := c.id, next := c.next }

def cont (b : Nat) : ContEntry :=
  match db.block b with
  | .cont c => c
  | .entry e => { flags := e.flags, id := e.id, next := e.next }

def putEntry (b : Nat) (e : PrEntry) : PrDb := { db with block := Function.update db.block b (.entry e) }

def putCont (b : Nat) (c : ContEntry) : PrDb := { db with block := Function.update db.block b (.cont c) }

def allocBlock : PrDb × Nat :=
  if db.header.freePtr ≠ 0 then
    ({ db with header.freePtr := (db.entry db.header.freePtr).next }, db.header.freePtr)
  else ({ db with header.eofPtr := db.header.eofPtr + entrySize }, db.header.eofPtr)

def freeBlock (pos : Nat) : PrDb :=
  { db with header.freePtr := pos }.putEntry pos { next := db.header.freePtr, flags := prFree }

def fuel : Nat := db.header.eofPtr + 1

def findFrom (hit : PrEntry → Bool) (k : Thread) : Nat → Nat → Except PrError Nat
  | 0, _ => .error .loops
  | fuel + 1, b =>
    if b = 0 then .ok 0
    else if hit (db.entry b) then .ok b
    else findFrom hit k fuel ((db.entry b).link k)

def findByID (aid : Id) : Except PrError Nat :=
  if aid = badId ∨ aid = 0 then .ok 0
  else db.findFrom (fun e => e.id = aid) .id db.fuel (db.header.idHash (idHash aid))

def findByName (aname : Name) : Except PrError Nat :=
  db.findFrom (fun e => e.name.take maxNameLen = aname.take maxNameLen) .name db.fuel
    (db.header.nameHash (nameHash aname))

def allocIDFrom (step : Int) : Nat → Id → Except PrError Id
  | 0, _ => .error .noIds
  | count + 1, aid => do
    let aid := int32 (aid + step)
    let found ← db.findByID aid
    if found = 0 then .ok aid else allocIDFrom step count aid

/-- `AllocID` for the flags that `CreateEntry` lets through. -/
def allocID (flag : UInt32) : Except PrError (PrDb × Id) :=
  if flag &&& prGrp ≠ 0 then do
    let aid ← db.allocIDFrom (-1) 50 db.header.maxGroup
    .ok ({ db with header.maxGroup := aid }, aid)
  else do
    let aid ← db.allocIDFrom 1 50 db.header.maxID
    .ok ({ db with header.maxID := aid }, aid)

/-- The loop of the two functions that take an entry out of a hash chain: the place in front of it, 0 for the header,
    and its own, 0 if it is not there. -/
def trailFrom (hit : PrEntry → Bool) (k : Thread) : Nat → Nat → Nat → Except PrError (Nat × Nat)
  | 0, _, _ => .error .loops
  | fuel + 1, trail, current =>
    if current = 0 then .ok (trail, 0)
    else if hit (db.entry current) then .ok (trail, current)
    else trailFrom hit k fuel current ((db.entry current).link k)

/-- What `RemoveFromIDHash` and `RemoveFromNameHash` share: the place they find, 0 if there is none. -/
def removeFromHash (hit : PrEntry → Bool) (k : Thread) (i : Nat) : Except PrError (PrDb × Nat) := do
  let (trail, current) ← db.trailFrom hit k db.fuel 0 (db.header.hash k i)
  if current = 0 then .ok (db, 0)
  else if trail = 0 then .ok ({ db with header := db.header.setHash i ((db.entry current).link k) k }, current)
  else .ok (db.putEntry trail ((db.entry trail).setLink ((db.entry current).link k) k), current)

def removeFromIDHash (aid : Id) : Except PrError (PrDb × Nat) := do
  ensure (aid ≠ badId ∧ aid ≠ 0) .inconsistent
  db.removeFromHash (fun e => e.id = aid) .id (idHash aid)

def removeFromNameHash (aname : Name) : Except PrError (PrDb × Nat) :=
  db.removeFromHash (fun e => e.name = aname) .name (nameHash aname)

def addToHash (k : Thread) (i loc : Nat) : PrDb :=
  { db with header := db.header.setHash i loc k }.putEntry loc ((db.entry loc).setLink (db.header.hash k i) k)

def addToIDHash (aid : Id) (loc : Nat) : Except PrError PrDb := do
  ensure (aid ≠ badId ∧ aid ≠ 0) .inconsistent
  .ok (db.addToHash .id (idHash aid) loc)

def addToNameHash (aname : Name) (loc : Nat) : PrDb := db.addToHash .name (nameHash aname) loc

def addToOwnerChain (gid oid : Id) : Except PrError PrDb := do
  let loc ← db.findByID oid
  ensure (loc ≠ 0) .noEnt
  let tentry := db.entry loc
  if oid = gid then .ok (db.putEntry loc { tentry with nextOwned := tentry.owned, owned := loc })
  else do
    let gloc ← db.findByID gid
    -- what is written over the header is refused
    ensure (gloc ≠ 0) .dbFail
    .ok ((db.putEntry gloc { db.entry gloc with nextOwned := tentry.owned }).putEntry loc { tentry with owned := gloc })

/-- The loop of `RemoveFromOwnerChain` behind the first group of the chain: `le` is the entry read last, at `lastLoc`. -/
def ownerTrailFrom (gid : Id) : Nat → Nat → PrEntry → Nat → Except PrError PrDb
  | 0, _, _, _ => .error .loops
  | fuel + 1, lastLoc, le, nptr =>
    if nptr = 0 then .ok db
    else if nptr = lastLoc then
      -- a group that is its own successor
      if le.id = gid then .ok (db.putEntry lastLoc { le with nextOwned := 0 })
      else ownerTrailFrom gid fuel nptr le le.nextOwned
    else
      let te := db.entry nptr
      if te.id = gid then
        .ok ((db.putEntry nptr { te with nextOwned := 0 }).putEntry lastLoc { le with nextOwned := te.nextOwned })
      else ownerTrailFrom gid fuel nptr te te.nextOwned

def removeFromOwnerChain (gid oid : Id) : Except PrError PrDb := do
  let loc ← db.findByID oid
  ensure (loc ≠ 0) .noEnt
  let le := db.entry loc
  if le.owned = 0 then .ok db
  else
    let te := db.entry le.owned
    if te.id = gid then
      .ok ((db.putEntry le.owned { te with nextOwned := 0 }).putEntry loc { le with owned := te.nextOwned })
    else db.ownerTrailFrom gid db.fuel le.owned te te.nextOwned

def addToOrphan (gid : Id) : Except PrError PrDb := do
  let loc ← db.findByID gid
  ensure (loc ≠ 0) .noEnt
  .ok ({ db with header.orphan := loc }.putEntry loc { db.entry loc with nextOwned := db.header.orphan, owner := 0 })

/-- The loop of `RemoveFromOrphan`; `bentry` is the entry at `loc`. -/
def orphanTrailFrom (gid : Id) : Nat → Nat → PrEntry → Nat → Except PrError PrDb
  | 0, _, _, _ => .error .loops
  | fuel + 1, loc, bentry, nptr =>
    if nptr = 0 then .ok db
    else
      let tentry := db.entry nptr
      if tentry.id = gid then do
        ensure (loc ≠ 0) .dbFail
        .ok ((db.putEntry loc { bentry with nextOwned := tentry.nextOwned }).putEntry nptr { tentry with nextOwned := 0 })
      else orphanTrailFrom gid fuel nptr tentry tentry.nextOwned

def removeFromOrphan (gid : Id) : Except PrError PrDb := do
  let loc ← db.findByID gid
  ensure (loc ≠ 0) .noEnt
  if db.header.orphan = loc then
    .ok ({ db with header.orphan := (db.entry loc).nextOwned }.putEntry loc { db.entry loc with nextOwned := 0 })
  else db.orphanTrailFrom gid db.fuel 0 {} db.header.orphan

end PrDb

end OpenAFS.Ptserver
