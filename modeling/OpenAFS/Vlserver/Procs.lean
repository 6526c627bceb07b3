import OpenAFS.Lib.Machine
import OpenAFS.Vlserver.Database

namespace OpenAFS.Vlserver

open Function (update)
open Lib

/-- `OMAXNSERVERS` and `NMAXNSERVERS`: the servers of a `vldbentry` and of an `nvldbentry`. -/
def oMaxNServers : Nat := 8
def nMaxNServers : Nat := 13

def maxPartitionId : Int := 255

def maxServerFlag : Int := 0x80

/-- An entry as callers give it; the old and the new form differ in the number of their servers. -/
structure VldbEntry where
  name : List UInt8
  nServers : Int
  serverNumber : Nat → UInt32
  serverPartition : Nat → Int
  serverFlags : Nat → Int
  volumeId : VolType → UInt32
  cloneId : UInt32
  flags : UInt32

def legalChar (c : UInt8) : Bool :=
  c = 46 ∨ 65 ≤ c ∧ c ≤ 90 ∨ 97 ≤ c ∧ c ≤ 122 ∨ 48 ≤ c ∧ c ≤ 57 ∨ c = 45 ∨ c = 95

def invalidVolname (volname : List UInt8) : Bool := maxNameLen ≤ volname.length || !volname.all legalChar

def checkEntry (maxServers : Nat) (v : VldbEntry) : Except VlError Unit := do
  ensure (invalidVolname v.name = false) .badName
  ensure (0 < v.nServers ∧ v.nServers ≤ maxServers) .badServer
  (List.range v.nServers.toNat).forM fun i => do
    ensure (0 ≤ v.serverPartition i ∧ v.serverPartition i ≤ maxPartitionId) .badPartition
    ensure (0 ≤ v.serverFlags i ∧ v.serverFlags i ≤ maxServerFlag) .badServerFlag

/-- `InvalidReleasetype`, of a release type other than 0: bits for the time stamp, the operation and the owner. -/
def invalidReleasetype (releasetype : UInt32) : Bool := releasetype &&& 7 = 0

def releaseEntry (releasetype : UInt32) (e : NvlEntry) : NvlEntry :=
  { e with
    lockTimestamp := if releasetype &&& 1 ≠ 0 then 0 else e.lockTimestamp
    flags := if releasetype &&& 2 ≠ 0 then e.flags &&& ~~~ allOpers else e.flags
    lockAfsId := if releasetype &&& 4 ≠ 0 then 0 else e.lockAfsId }

def volTypeOf (voltype : Int) : Except VlError (Option VolType) :=
  if voltype = -1 then .ok none
  else if voltype = 0 then .ok (some .rw)
  else if voltype = 1 then .ok (some .ro)
  else if voltype = 2 then .ok (some .back)
  else .error .badVolType

namespace Vldb

/-- `IpAddrToRelAddr`: `none` is -1. An address 255.x.y.z in the table stands for a multi-homed server and has no
    extension block. -/
def ipAddrToRelAddr (ipaddr : UInt32) (db : Vldb) : Option (Vldb × Nat) :=
  match (List.range (maxServerId + 1)).find? fun i =>
      db.hostAddress i = ipaddr ∨ db.hostAddress i &&& 0xff000000 = 0xff000000 with
  | some i => if db.hostAddress i = ipaddr then some (db, i) else none
  | none =>
    ((List.range (maxServerId + 1)).find? fun i => db.hostAddress i = 0).map fun i =>
      ({ db with hostAddress := update db.hostAddress i ipaddr }, i)

def putServers (v : VldbEntry) : List Nat → Vldb → NvlEntry → Except VlError (Vldb × NvlEntry)
  | [], db, e => .ok (db, e)
  | i :: rest, db, e =>
    match db.ipAddrToRelAddr (v.serverNumber i) with
    | none => .error .badServer
    | some (db, serverindex) =>
      putServers v rest db { e with
        serverNumber := update e.serverNumber i (.ofNat serverindex)
        serverPartition := update e.serverPartition i (.ofInt (v.serverPartition i))
        serverFlags := update e.serverFlags i (.ofInt (v.serverFlags i)) }

/-- `vldbentry_to_vlentry` and `nvldbentry_to_vlentry`. -/
def vldbentryToVlentry (maxServers : Nat) (v : VldbEntry) (db : Vldb) (e : NvlEntry) : Except VlError (Vldb × NvlEntry) :=
  (db.putServers v (List.range v.nServers.toNat) { e with name := v.name }).map fun (db, e) =>
    let unused (old : Nat → UInt8) (i : Nat) :=
      if v.nServers.toNat ≤ i ∧ i < maxServers then badServerId else old i
    (db, { e with
      serverNumber := unused e.serverNumber
      serverPartition := unused e.serverPartition
      serverFlags := unused e.serverFlags
      volumeId := v.volumeId
      cloneId := v.cloneId
      flags := v.flags })

/-- What `SVL_CreateEntry` and `SVL_CreateEntryN` do. -/
def create (maxServers : Nat) (v : VldbEntry) (db : Vldb) : Except VlError Vldb := do
  checkEntry maxServers v
  if v.volumeId .rw ≠ 0 then
    let found ← db.findByID (v.volumeId .rw) (some .rw)
    ensure (found = 0) .idExist
  let found ← db.findByName v.name
  ensure (found = 0) .nameExist
  let (db, b) := db.allocBlock
  let (db, e) ← db.vldbentryToVlentry maxServers v {}
  db.threadVLentry b e

def createEntry (newentry : VldbEntry) (db : Vldb) : Except VlError Vldb := db.create oMaxNServers newentry

def createEntryN (newentry : VldbEntry) (db : Vldb) : Except VlError Vldb := db.create nMaxNServers newentry

def removeEntry (b : Nat) (e : NvlEntry) (db : Vldb) : Except VlError Vldb := do
  let db ← db.unthreadVLentry b e
  db.freeBlock b

def findEntry (volid : UInt32) (voltype : Int) (db : Vldb) : Except VlError Nat := do
  let t ← volTypeOf voltype
  let b ← db.findByID volid t
  ensure (b ≠ 0) .noEnt
  .ok b

def deleteEntry (volid : UInt32) (voltype : Int) (db : Vldb) : Except VlError Vldb := do
  let b ← db.findEntry volid voltype
  ensure ((db.block b).flags &&& vlDeleted = 0) .entDeleted
  db.removeEntry b (db.block b)

def replaceFound (maxServers : Nat) (v : VldbEntry) (releasetype : UInt32) (b : Nat) (db : Vldb) :
    Except VlError Vldb := do
  let old := db.block b
  ensure (v.volumeId .rw = old.volumeId .rw) .badEntry
  let changes (t : VolType) := old.volumeId t ≠ v.volumeId t
  let (db, e) ← if changes .ro then db.unhashVolid .ro b old else .ok (db, old)
  let (db, e) ← if changes .back then db.unhashVolid .back b e else .ok (db, e)
  let (db, e) ← if v.name ≠ e.name then db.unhashVolname b e else .ok (db, e)
  let (db, e) ← db.vldbentryToVlentry maxServers v e
  let (db, e) ← if changes .ro ∧ e.volumeId .ro ≠ 0 then db.hashVolid .ro b e else .ok (db, e)
  let (db, e) ← if changes .back ∧ e.volumeId .back ≠ 0 then db.hashVolid .back b e else .ok (db, e)
  let (db, e) := if v.name ≠ old.name then db.hashVolname b e else (db, e)
  .ok (db.put b (releaseEntry releasetype e))

/-- What `SVL_ReplaceEntry` and `SVL_ReplaceEntryN` do. -/
def replace (maxServers : Nat) (volid : UInt32) (voltype : Int) (v : VldbEntry) (releasetype : UInt32)
    (db : Vldb) : Except VlError Vldb := do
  checkEntry maxServers v
  let _ ← volTypeOf voltype
  ensure (releasetype = 0 ∨ invalidReleasetype releasetype = false) .badRelLockType
  let b ← db.findEntry volid voltype
  db.replaceFound maxServers v releasetype b

def replaceEntry (volid : UInt32) (voltype : Int) (newentry : VldbEntry) (releasetype : UInt32) (db : Vldb) :
    Except VlError Vldb := db.replace oMaxNServers volid voltype newentry releasetype

def replaceEntryN (volid : UInt32) (voltype : Int) (newentry : VldbEntry) (releasetype : UInt32) (db : Vldb) :
    Except VlError Vldb := db.replace nMaxNServers volid voltype newentry releasetype

end Vldb

/-- What a `VldbUpdateEntry` says about one server. -/
structure Repsite where
  mask : UInt32
  targetServer : UInt32
  targetPart : Int
  newServer : UInt32
  newPart : Int
  newFlags : Int

structure VldbUpdateEntry where
  mask : UInt32
  name : List UInt8
  rwId : UInt32
  flags : UInt32
  readOnlyId : UInt32
  backupId : UInt32
  cloneId : UInt32
  nModifiedRepsites : Int
  repsites : Nat → Repsite

namespace VldbUpdateEntry

def volumeName : UInt32 := 0x0001
def flagsBit : UInt32 := 0x0004
def readOnlyIdBit : UInt32 := 0x0008
def backupIdBit : UInt32 := 0x0010
def repsitesBit : UInt32 := 0x0020
def cloneIdBit : UInt32 := 0x0080
def volNameHash : UInt32 := 0x0100
def rwIdBit : UInt32 := 0x0200

def idBit : VolType → UInt32
  | .rw => rwIdBit
  | .ro => readOnlyIdBit
  | .back => backupIdBit

def newId (u : VldbUpdateEntry) : VolType → UInt32
  | .rw => u.rwId
  | .ro => u.readOnlyId
  | .back => u.backupId

def has (u : VldbUpdateEntry) (bit : UInt32) : Prop := u.mask &&& bit ≠ 0

instance (u : VldbUpdateEntry) (bit : UInt32) : Decidable (u.has bit) := by unfold has; infer_instance

def setFlags (u : VldbUpdateEntry) (e : NvlEntry) : NvlEntry :=
  { e with
    flags := if u.has flagsBit then u.flags else e.flags
    cloneId := if u.has cloneIdBit then u.cloneId else e.cloneId }

end VldbUpdateEntry

/-- `repsite_exists`; `none` for the server is -1. -/
def repsiteExists (e : NvlEntry) (server : Option Nat) (partition : Int) : Option Nat :=
  ((List.range oMaxNServers).takeWhile fun i => e.serverNumber i ≠ badServerId).find? fun i =>
    some (e.serverNumber i).toNat = server ∧ ((e.serverPartition i).toNat : Int) = partition

/-- `repsite_compress`, with the number of places behind the one that is taken out. -/
def repsiteCompress : Nat → Nat → NvlEntry → NvlEntry
  | 0, offset, e => { e with serverNumber := update e.serverNumber offset badServerId }
  | left + 1, offset, e =>
    if e.serverNumber offset = badServerId then
      { e with serverNumber := update e.serverNumber offset badServerId }
    else
      repsiteCompress left (offset + 1) { e with
        serverNumber := update e.serverNumber offset (e.serverNumber (offset + 1))
        serverPartition := update e.serverPartition offset (e.serverPartition (offset + 1))
        serverFlags := update e.serverFlags offset (e.serverFlags (offset + 1)) }

namespace Repsite

def deleteBit : UInt32 := 0x0100
def addBit : UInt32 := 0x0200
def modServBit : UInt32 := 0x0400
def modPartBit : UInt32 := 0x0800
def modFlagBit : UInt32 := 0x1000

variable (r : Repsite)

/-- `IpAddrToRelAddr` where -1 is no error yet. -/
def relAddr (ipaddr : UInt32) (db : Vldb) : Vldb × Option Nat :=
  match db.ipAddrToRelAddr ipaddr with
  | some (db, i) => (db, some i)
  | none => (db, none)

def target (db : Vldb) (e : NvlEntry) : Except VlError (Vldb × Nat) :=
  let (db, server) := relAddr r.targetServer db
  match repsiteExists e server r.targetPart with
  | some j => .ok (db, j)
  | none => .error .noRepServer

def delete (db : Vldb) (e : NvlEntry) : Except VlError (Vldb × NvlEntry) := do
  let (db, j) ← r.target db e
  .ok (db, repsiteCompress (oMaxNServers - 1 - j) j e)

def add (db : Vldb) (e : NvlEntry) : Except VlError (Vldb × NvlEntry) := do
  ensure (0 ≤ r.newPart ∧ r.newPart ≤ maxPartitionId) .badPartition
  let (db, server) := relAddr r.newServer db
  ensure (repsiteExists e server r.newPart = none) .dupRepServer
  match (List.range oMaxNServers).find? fun j => e.serverNumber j = badServerId with
  | none => .error .repsFull
  | some j =>
    match server with
    | none => .error .badServer
    | some serverindex => do
      ensure (0 ≤ r.newFlags ∧ r.newFlags ≤ maxServerFlag) .badServerFlag
      .ok (db, { e with
        serverNumber := update e.serverNumber j (.ofNat serverindex)
        serverPartition := update e.serverPartition j (.ofInt r.newPart)
        serverFlags := update e.serverFlags j (.ofInt r.newFlags) })

def modServ (db : Vldb) (e : NvlEntry) : Except VlError (Vldb × NvlEntry) := do
  let (db, j) ← r.target db e
  let (db, server) := relAddr r.newServer db
  .ok (db, { e with
    serverNumber := update e.serverNumber j ((server.map UInt8.ofNat).getD badServerId) })

def modPart (db : Vldb) (e : NvlEntry) : Except VlError (Vldb × NvlEntry) := do
  ensure (0 ≤ r.newPart ∧ r.newPart ≤ maxPartitionId) .badPartition
  let (db, j) ← r.target db e
  .ok (db, { e with serverPartition := update e.serverPartition j (.ofInt r.newPart) })

def modFlag (db : Vldb) (e : NvlEntry) : Except VlError (Vldb × NvlEntry) := do
  let (db, j) ← r.target db e
  ensure (0 ≤ r.newFlags ∧ r.newFlags ≤ maxServerFlag) .badServerFlag
  .ok (db, { e with serverFlags := update e.serverFlags j (.ofInt r.newFlags) })

def onBit (bit : UInt32) (change : Vldb → NvlEntry → Except VlError (Vldb × NvlEntry)) (db : Vldb) (e : NvlEntry) :
    Except VlError (Vldb × NvlEntry) :=
  if r.mask &&& bit ≠ 0 then change db e else .ok (db, e)

def change (db : Vldb) (e : NvlEntry) : Except VlError (Vldb × NvlEntry) := do
  ensure (0 ≤ r.targetPart ∧ r.targetPart ≤ maxPartitionId) .badPartition
  let (db, e) ← r.onBit deleteBit r.delete db e
  let (db, e) ← r.onBit addBit r.add db e
  let (db, e) ← r.onBit modServBit r.modServ db e
  let (db, e) ← r.onBit modPartBit r.modPart db e
  r.onBit modFlagBit r.modFlag db e

end Repsite

namespace Vldb

def orNoEnt (db : Vldb) (e : NvlEntry) : Except VlError (Vldb × NvlEntry) → Except VlError (Vldb × NvlEntry)
  | .error .noEnt => .ok (db, e)
  | r => r

def updateName (u : VldbUpdateEntry) (b : Nat) (db : Vldb) (e : NvlEntry) : Except VlError (Vldb × NvlEntry) := do
  ensure (invalidVolname u.name = false) .badName
  let (db, e) ← db.unhashVolname b e
  .ok (db.hashVolname b { e with name := u.name })

def updateNameHash (b : Nat) (db : Vldb) (e : NvlEntry) : Except VlError (Vldb × NvlEntry) := do
  let (db, e) ← db.orNoEnt e (db.unhashVolname b e)
  .ok (db.hashVolname b e)

def updateId (t : VolType) (id : UInt32) (b : Nat) (db : Vldb) (e : NvlEntry) : Except VlError (Vldb × NvlEntry) := do
  let (db, e) ← db.orNoEnt e (db.unhashVolid t b e)
  db.hashVolid t b { e with volumeId := update e.volumeId t id }

def updateRepsites (u : VldbUpdateEntry) : List Nat → Vldb → NvlEntry → Except VlError (Vldb × NvlEntry)
  | [], db, e => .ok (db, e)
  | i :: rest, db, e => do
    let (db, e) ← (u.repsites i).change db e
    updateRepsites u rest db e

def getVldbupdateentry (u : VldbUpdateEntry) (b : Nat) (db : Vldb) (e : NvlEntry) :
    Except VlError (Vldb × NvlEntry) := do
  let (db, e) ← if u.has VldbUpdateEntry.volumeName then db.updateName u b e else .ok (db, e)
  let (db, e) ← if u.has VldbUpdateEntry.volNameHash then db.updateNameHash b e else .ok (db, e)
  let e := u.setFlags e
  let (db, e) ← if u.has VldbUpdateEntry.rwIdBit then db.updateId .rw u.rwId b e else .ok (db, e)
  let (db, e) ← if u.has VldbUpdateEntry.readOnlyIdBit then db.updateId .ro u.readOnlyId b e else .ok (db, e)
  let (db, e) ← if u.has VldbUpdateEntry.backupIdBit then db.updateId .back u.backupId b e else .ok (db, e)
  if u.has VldbUpdateEntry.repsitesBit then do
    ensure (0 < u.nModifiedRepsites ∧ u.nModifiedRepsites ≤ oMaxNServers) .badServer
    db.updateRepsites u (List.range u.nModifiedRepsites.toNat) e
  else .ok (db, e)

def updateFound (u : VldbUpdateEntry) (releasetype : UInt32) (b : Nat) (db : Vldb) : Except VlError Vldb := do
  let (db, e) ← db.getVldbupdateentry u b (db.block b)
  .ok (db.put b (releaseEntry releasetype e))

def updateEntry (volid : UInt32) (voltype : Int) (u : VldbUpdateEntry) (releasetype : UInt32) (db : Vldb) :
    Except VlError Vldb := do
  let _ ← volTypeOf voltype
  ensure (releasetype = 0 ∨ invalidReleasetype releasetype = false) .badRelLockType
  let b ← db.findEntry volid voltype
  db.updateFound u releasetype b

def updateEntryByName (volname : List UInt8) (u : VldbUpdateEntry) (releasetype : UInt32) (db : Vldb) :
    Except VlError Vldb := do
  ensure (releasetype = 0 ∨ invalidReleasetype releasetype = false) .badRelLockType
  let b ← db.findByName volname
  ensure (b ≠ 0) .noEnt
  db.updateFound u releasetype b

def getEntryByID (volid : UInt32) (voltype : Int) (db : Vldb) : Except VlError NvlEntry := do
  let b ← db.findEntry volid voltype
  ensure ((db.block b).flags &&& vlDeleted = 0) .entDeleted
  .ok (db.block b)

end Vldb

def nameIsId (aname : List UInt8) : Bool := aname.all fun c => 48 ≤ c && c ≤ 57

def atoi (digits : List UInt8) : UInt32 := digits.foldl (fun n c => n * 10 + (c.toUInt32 - 48)) 0

def Vldb.getEntryByName (volname : List UInt8) (db : Vldb) : Except VlError NvlEntry :=
  if nameIsId volname then db.getEntryByID (atoi volname) (-1)
  else do
    ensure (invalidVolname volname = false) .badName
    let b ← db.findByName volname
    ensure (b ≠ 0) .noEnt
    ensure ((db.block b).flags &&& vlDeleted = 0) .entDeleted
    .ok (db.block b)

inductive VlCall where
  | createEntry (newentry : VldbEntry)
  | createEntryN (newentry : VldbEntry)
  | deleteEntry (volid : UInt32) (voltype : Int)
  | replaceEntry (volid : UInt32) (voltype : Int) (newentry : VldbEntry) (releasetype : UInt32)
  | replaceEntryN (volid : UInt32) (voltype : Int) (newentry : VldbEntry) (releasetype : UInt32)
  | updateEntry (volid : UInt32) (voltype : Int) (updateentry : VldbUpdateEntry) (releasetype : UInt32)
  | updateEntryByName (volname : List UInt8) (updateentry : VldbUpdateEntry) (releasetype : UInt32)

def Vldb.call (db : Vldb) : VlCall → Except VlError Vldb
  | .createEntry newentry => db.createEntry newentry
  | .createEntryN newentry => db.createEntryN newentry
  | .deleteEntry volid voltype => db.deleteEntry volid voltype
  | .replaceEntry volid voltype newentry releasetype => db.replaceEntry volid voltype newentry releasetype
  | .replaceEntryN volid voltype newentry releasetype => db.replaceEntryN volid voltype newentry releasetype
  | .updateEntry volid voltype updateentry releasetype => db.updateEntry volid voltype updateentry releasetype
  | .updateEntryByName volname updateentry releasetype => db.updateEntryByName volname updateentry releasetype

/-- The header that `CheckInit` writes into an empty database. -/
def emptyVldb : Vldb where
  freePtr := 0
  eofPtr := headerSize
  hash _ := 0
  hostAddress _ := 0
  block _ := {}

def vldb : Machine Vldb VlCall where
  start db := db = emptyVldb
  step db call :=
    match db.call call with
    | .ok db' => some db'
    | .error _ => some db

end OpenAFS.Vlserver
