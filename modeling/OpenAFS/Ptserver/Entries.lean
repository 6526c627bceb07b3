import OpenAFS.Lib.Slots
import OpenAFS.Ptserver.Database

namespace OpenAFS.Ptserver

open Lib

/-- `PRP_STATUS_ANY` and so on: what others may do with an entry. -/
def prpStatusAny : UInt32 := 0x800000
def prpStatusMem : UInt32 := 0x400000
def prpOwnedAny : UInt32 := 0x200000
def prpMemberAny : UInt32 := 0x100000
def prpMemberMem : UInt32 := 0x080000
def prpAddAny : UInt32 := 0x040000
def prpAddMem : UInt32 := 0x020000
def prpRemoveMem : UInt32 := 0x010000

/-- How a server was started. The name of a cell has less than `MAXKTCREALMLEN` characters. -/
structure Config where
  noAuth : Bool := false
  restricted : Bool := false
  realmNameLen : Fin 64 := 0
  userDefault : UInt32 := prpStatusAny
  groupDefault : UInt32 := prpStatusAny ||| prpMemberAny

def systemPrefix : Name := [115, 121, 115, 116, 101, 109]
def authUserGroup : Name := systemPrefix ++ [58, 97, 117, 116, 104, 117, 115, 101, 114]

/-- One block of the loops of `IsAMemberOf`: `none` where it goes on to the next block. -/
def memberIn (aid : Id) : List Id → Option Bool
  | [] => none
  | x :: rest => if x = 0 then some false else if x = aid then some true else memberIn aid rest

/-- One block of the loops that go over a list: they pass over `PRBADID` and end at a 0. -/
def listed (entries : List Id) : List Id := Slots.shown badId 0 entries

/-- One block of the loops of `RemoveFromEntry`. -/
inductive Scan where
  | found (entries : List Id)
  | ended
  | passed

def Scan.map (f : List Id → List Id) : Scan → Scan
  | .found entries => .found (f entries)
  | .ended => .ended
  | .passed => .passed

def clearIn (aid : Id) : List Id → Scan
  | [] => .passed
  | x :: rest => if x = aid then .found (badId :: rest) else if x = 0 then .ended else (clearIn aid rest).map (x :: ·)

/-- The first loop of `AddToEntry`, which remembers the last tombstone before the end of the list. -/
def firstSlot (aid : Id) : Nat → Option Nat → List Id → Except PrError (Option Nat)
  | _, slot, [] => .ok slot
  | i, slot, x :: rest =>
    if x = aid then .error .idExist
    else if x = badId then firstSlot aid (i + 1) (some i) rest
    else if x = 0 then .ok (slot.or (some i))
    else firstSlot aid (i + 1) slot rest

/-- The second loop of `AddToEntry` in one block, which remembers the first place it can use. -/
def contSlot (aid : Id) (nptr : Nat) : Nat → Option (Nat × Nat) → List Id → Except PrError (Option (Nat × Nat))
  | _, place, [] => .ok place
  | i, place, x :: rest =>
    if x = aid then .error .idExist
    else if x = badId then contSlot aid nptr (i + 1) (place.or (some (nptr, i))) rest
    else if x = 0 then .ok (place.or (some (nptr, i)))
    else contSlot aid nptr (i + 1) place rest

namespace PrDb

variable (db : PrDb)

def memberFrom (aid : Id) : Nat → Nat → Except PrError Bool
  | 0, _ => .error .loops
  | fuel + 1, loc =>
    if loc = 0 then .ok false
    else match memberIn aid (db.cont loc).entries with
      | some answer => .ok answer
      | none => memberFrom aid fuel (db.cont loc).next

def isAMemberOf (aid gid : Id) : Except PrError Bool :=
  if gid = anyUserId then .ok true
  else if gid = authUserId ∧ aid ≠ anonymousId then .ok true
  else if gid = sysAdminId ∧ aid = sysAdminId then .ok true
  else if gid = 0 ∨ aid = 0 then .ok false
  else do
    let loc ← db.findByID gid
    if loc = 0 ∨ ¬ (db.entry loc).isGroup then .ok false
    else match memberIn aid (db.entry loc).entries with
      | some answer => .ok answer
      | none => db.memberFrom aid db.fuel (db.entry loc).next

def getListFrom : Nat → Nat → Except PrError (List Id)
  | 0, _ => .error .loops
  | fuel + 1, nptr =>
    if nptr = 0 then .ok []
    else do
      let more ← getListFrom fuel (db.cont nptr).next
      .ok (listed (db.cont nptr).entries ++ more)

end PrDb

def addAuthGroup (tentry : PrEntry) : List Id := if tentry.isForeign then [] else [authUserId]

/-- What `GetList` adds for a CPS. -/
def addSpecial (tentry : PrEntry) : List Id :=
  if tentry.id ≠ anonymousId ∧ tentry.id ≠ anyUserId then anyUserId :: addAuthGroup tentry ++ [tentry.id]
  else [anyUserId, tentry.id]

namespace PrDb

variable (db : PrDb)

def getList (tentry : PrEntry) (add : Bool) : Except PrError (List Id) := do
  let more ← db.getListFrom db.fuel tentry.next
  let alist := listed tentry.entries ++ more ++ if add then addSpecial tentry else []
  .ok (alist.mergeSort fun a b => a ≤ b)

def slotFrom (aid : Id) : Nat → Option (Nat × Nat) → Nat → Nat → Except PrError (Option (Nat × Nat) × Nat)
  | 0, _, _, _ => .error .loops
  | fuel + 1, place, last, nptr =>
    if nptr = 0 then .ok (place, last)
    else do
      ensure ((db.cont nptr).flags &&& prCont ≠ 0) .dbFail
      let place ← contSlot aid nptr 0 place (db.cont nptr).entries
      slotFrom aid fuel place nptr (db.cont nptr).next

/-- `AddToEntry`. A place in the entry itself has the block number 0. -/
def addToEntry (entry : PrEntry) (loc : Nat) (aid : Id) : Except PrError PrDb := do
  ensure (entry.id ≠ aid) .inconsistent
  let slot ← firstSlot aid 0 none entry.entries
  let (place, last) ← db.slotFrom aid db.fuel (slot.map fun i => (0, i)) 0 entry.next
  let entry := { entry with count := entry.count + 1 }
  match place with
  | some (cloc, i) =>
    if cloc = 0 then .ok (db.putEntry loc { entry with entries := entry.entries.set i aid })
    else
      let db := db.putEntry loc entry
      .ok (db.putCont cloc { db.cont cloc with entries := (db.cont cloc).entries.set i aid })
  | none =>
    let (db, nptr) := db.allocBlock
    let aentry : ContEntry := { flags := prCont, id := entry.id, entries := aid :: List.replicate (coSize - 1) 0 }
    if last ≠ 0 then
      .ok (((db.putCont last { db.cont last with next := nptr }).putCont nptr aentry).putEntry loc entry)
    else .ok ((db.putCont nptr aentry).putEntry loc { entry with next := nptr })

/-- The loop of `RemoveFromEntry` over the continuation blocks of the entry `tentry` at `temp`. -/
def removeFrom (aid bid : Id) (temp : Nat) (tentry : PrEntry) : Nat → Nat → Nat → Except PrError PrDb
  | 0, _, _ => .error .loops
  | fuel + 1, hloc, nptr =>
    if nptr = 0 then .error .noEnt
    else do
      let centry := db.cont nptr
      ensure (centry.id = bid ∧ centry.flags &&& prCont ≠ 0) .dbBad
      match clearIn aid centry.entries with
      | .found entries =>
        let tentry := { tentry with count := tentry.count - 1 }
        if ∀ x ∈ entries, x = badId ∨ x = 0 then
          if hloc = 0 then .ok ((db.freeBlock nptr).putEntry temp { tentry with next := centry.next })
          else
            .ok (((db.putCont hloc { db.cont hloc with next := centry.next }).freeBlock nptr).putEntry temp tentry)
        else .ok ((db.putCont nptr { centry with entries := entries }).putEntry temp tentry)
      | .ended => .error .noEnt
      | .passed => removeFrom aid bid temp tentry fuel nptr centry.next

def removeFromEntry (aid bid : Id) : Except PrError PrDb := do
  ensure (aid ≠ bid) .inconsistent
  let temp ← db.findByID bid
  ensure (temp ≠ 0) .noEnt
  let tentry := db.entry temp
  match clearIn aid tentry.entries with
  | .found entries => .ok (db.putEntry temp { tentry with entries := entries, count := tentry.count - 1 })
  | .ended => .error .noEnt
  | .passed => db.removeFrom aid bid temp tentry db.fuel 0 tentry.next

end PrDb

def Config.correctUserName (cfg : Config) (name : Name) : Prop :=
  58 ∉ name ∧ 10 ∉ name ∧ name.length + cfg.realmNameLen.val + 1 < maxNameLen

instance (cfg : Config) (name : Name) : Decidable (cfg.correctUserName name) := by
  unfold Config.correctUserName
  infer_instance

def Config.legalName (cfg : Config) (cname : Name) : Prop :=
  if 58 ∈ cname then 10 ∉ cname ∧ 58 ∉ (cname.dropWhile fun c => c ≠ 58).tail else cfg.correctUserName cname

instance (cfg : Config) (cname : Name) : Decidable (cfg.legalName cname) := by
  unfold Config.legalName
  infer_instance

namespace PrDb

variable (db : PrDb) (cfg : Config)

/-- The prefix that `CorrectGroupName` wants; `none` where it takes any name. -/
def groupPrefix (admin : Bool) (oid : Id) : Except PrError (Option Name) :=
  if oid = sysAdminId then .ok (some systemPrefix)
  else do
    let loc ← db.findByID oid
    if loc = 0 then do
      ensure admin .noEnt
      .ok none
    else
      let tentry := db.entry loc
      if tentry.isGroup then do
        ensure (tentry.count ≠ 0 ∨ admin) .groupEmpty
        .ok (some (tentry.name.takeWhile fun c => c ≠ 58))
      else .ok (some tentry.name)

def correctGroupName (aname : Name) (cid oid : Id) : Except PrError Name := do
  ensure (aname.length < maxNameLen) .badNam
  let member ← db.isAMemberOf cid sysAdminId
  let admin := cfg.noAuth || member
  let pre ← db.groupPrefix admin (if oid = 0 then cid else oid)
  match pre with
  | none => do
    ensure (cfg.legalName aname) .badNam
    .ok aname
  | some pre => do
    ensure (pre ≠ systemPrefix ∨ admin) .perm
    if 58 ∉ aname then do
      ensure (admin ∧ cfg.legalName aname) .badNam
      .ok aname
    else do
      let cname := pre ++ aname.dropWhile fun c => c ≠ 58
      ensure (cname.length < maxNameLen ∧ cfg.legalName cname) .badNam
      .ok cname

def allocNextIdFrom (cellid : Int) : Nat → Int → Except PrError (Option Int)
  | 0, _ => .ok none
  | fuel + 1, id => do
    let found ← db.findByID (int32 (id * 65536 + cellid))
    if found = 0 then .ok (some id) else allocNextIdFrom cellid fuel (id + 1)

def allocNextId (cellEntry : PrEntry) : Except PrError (PrEntry × Id) := do
  let cellid := cellEntry.id.emod 65536
  let first := int32 (cellEntry.nusers + 1)
  let id ← db.allocNextIdFrom cellid (max 1 (65536 - first).toNat) first
  match id with
  | none => .ok (cellEntry, 0)
  | some id => .ok ({ cellEntry with nusers := id }, int32 (id * 65536 + cellid))

end PrDb

def inRange (cellEntry : PrEntry) (aid : Id) : Option PrEntry :=
  if aid.emod 65536 ≠ cellEntry.id.emod 65536 then none
  else
    let id := (aid / 65536).emod (2 ^ 32)
    some (if cellEntry.nusers.emod (2 ^ 32) < id then { cellEntry with nusers := int32 id } else cellEntry)

namespace PrDb

variable (db : PrDb) (cfg : Config)

def addNewEntry (newEntry : Nat) (tentry : PrEntry) : Except PrError PrDb := do
  let db ← (db.putEntry newEntry tentry).addToIDHash tentry.id newEntry
  .ok (db.addToNameHash tentry.name newEntry)

def takeCellQuota (centry : PrEntry) : Except PrError PrEntry := do
  let centry := if centry.flags &&& prQuota = 0 then
      { centry with flags := centry.flags ||| prQuota, ngroups := 30 } else centry
  ensure (0 < centry.ngroups ∨ cfg.noAuth) .noMore
  .ok { centry with ngroups := centry.ngroups - 1 }

/-- The id of a new user of a cell, with the group of the cell as it changes. -/
def foreignId (centry : PrEntry) (aid : Id) (idflag : Bool) : Except PrError (PrEntry × Id) :=
  if idflag then
    match inRange centry aid with
    | none => .error .badArg
    | some centry => .ok (centry, aid)
  else do
    let (centry, id) ← db.allocNextId centry
    ensure (id ≠ 0) .noIds
    .ok (centry, id)

def createForeign (newEntry : Nat) (tentry : PrEntry) (aid : Id) (idflag : Bool) : Except PrError (PrDb × Id) := do
  let pos ← db.findByName (authUserGroup ++ tentry.name.dropWhile fun c => c ≠ 64)
  ensure (pos ≠ 0) .badNam
  let cellid := (db.entry pos).id
  let (centry, id) ← db.foreignId (db.entry pos) aid idflag
  let centry ← takeCellQuota cfg centry
  let db ← (db.putEntry pos centry).addNewEntry newEntry { tentry with cellid := cellid, id := id }
  let db := { db with header.foreigncount := db.header.foreigncount + 1 }
  let pos ← db.findByID cellid
  ensure (pos ≠ 0) .badNam
  let db ← db.addToEntry (db.entry pos) pos id
  let pos ← db.findByID id
  ensure (pos ≠ 0) .badNam
  let db ← db.addToEntry (db.entry pos) pos (db.entry pos).cellid
  .ok (db, id)

def chargeCreator (creator : Id) : Except PrError PrDb := do
  let loc ← db.findByID creator
  if loc = 0 then .ok db
  else
    let centry := db.entry loc
    let centry := if centry.flags &&& prQuota = 0 then
      { centry with flags := centry.flags ||| prQuota, ngroups := 20, nusers := 20 } else centry
    let member ← db.isAMemberOf creator sysAdminId
    if creator = sysAdminId ∨ member then .ok (db.putEntry loc centry)
    else if centry.ngroups ≤ 0 then do
      ensure cfg.noAuth .noMore
      .ok (db.putEntry loc centry)
    else .ok (db.putEntry loc { centry with ngroups := centry.ngroups - 1 })

def rememberMax (id : Id) (group : Prop) [Decidable group] : PrDb :=
  if group then
    if id < db.header.maxGroup then { db with header.maxGroup := id } else db
  else if db.header.maxID < id then { db with header.maxID := id } else db

def createGroup (newEntry : Nat) (tentry : PrEntry) (oid : Id) : Except PrError PrDb := do
  let db ← (db.rememberMax tentry.id True).chargeCreator cfg tentry.creator
  let db ← db.addNewEntry newEntry tentry
  let db ← db.addToOwnerChain tentry.id oid
  .ok { db with header.groupcount := db.header.groupcount + 1 }

def createUser (newEntry : Nat) (tentry : PrEntry) : Except PrError PrDb := do
  let db ← (db.rememberMax tentry.id False).addNewEntry newEntry
    { tentry with flags := tentry.flags ||| prQuota, ngroups := 20, nusers := 20 }
  .ok { db with header.usercount := db.header.usercount + 1 }

/-- `CreateEntry`, with the id of the new entry. -/
def createEntry (aname : Name) (aid : Id) (idflag : Bool) (flag : UInt32) (oid creator : Id) :
    Except PrError (PrDb × Id) := do
  let oid := if oid = 0 ∨ oid = anonymousId then creator else oid
  let group := flag &&& prGrp ≠ 0
  if group then do
    let cname ← db.correctGroupName cfg aname creator oid
    ensure (aname = cname) .badNam
  else ensure (cfg.correctUserName aname) .badNam
  let found ← db.findByName aname
  ensure (found = 0) .exist
  let (db, newEntry) := db.allocBlock
  ensure (group ∨ flag = 0) .badArg
  let tentry : PrEntry :=
    { name := aname, creator := creator, flags := if group then prGrp else 0, owner := if group then oid else sysAdminId }
  if 64 ∈ aname ∧ ¬ group then db.createForeign cfg newEntry tentry aid idflag
  else do
    ensure (64 ∈ aname → aname.takeWhile (fun c => c ≠ 64) = authUserGroup) .badNam
    let (db, id) ← if idflag then .ok (db, aid) else db.allocID flag
    let tentry := { tentry with id := id }
    let db ← if group then db.createGroup cfg newEntry tentry oid else db.createUser newEntry tentry
    .ok (db, id)

def removeFromAll (aid : Id) : List Id → PrDb → Except PrError PrDb
  | [], db => .ok db
  | bid :: rest, db => do
    let db ← db.removeFromEntry aid bid
    removeFromAll aid rest db

def deleteFrom (aid : Id) : Nat → Nat → PrDb → Except PrError PrDb
  | 0, _, _ => .error .loops
  | fuel + 1, nptr, db =>
    if nptr = 0 then .ok db
    else do
      let centry := db.cont nptr
      let db ← removeFromAll aid (listed centry.entries) db
      deleteFrom aid fuel centry.next (db.freeBlock nptr)

/-- `DeleteEntry` gives the group that stands for a cell its quota back. -/
def returnCellQuota (cellid : Id) : Except PrError PrDb := do
  let loc ← db.findByID cellid
  if loc = 0 then .ok db
  else
    let centry := db.entry loc
    .ok (db.putEntry loc (if centry.flags &&& prQuota ≠ 0 then { centry with ngroups := centry.ngroups + 1 } else centry))

def returnQuota (creator : Id) : Except PrError PrDb := do
  let loc ← db.findByID creator
  if loc = 0 then .ok db
  else do
    let centry := db.entry loc
    let member ← db.isAMemberOf creator sysAdminId
    let admin := creator = sysAdminId ∨ member
    .ok (db.putEntry loc (if centry.flags &&& prQuota ≠ 0 ∧ ¬ (admin ∧ 20 ≤ centry.ngroups) then
      { centry with ngroups := centry.ngroups + 1 } else centry))

def countDeleted (tentry : PrEntry) : PrDb :=
  if tentry.isGroup then { db with header.groupcount := db.header.groupcount - 1 }
  else if tentry.flags &&& prInst ≠ 0 then { db with header.instcount := db.header.instcount - 1 }
  else if tentry.isForeign then { db with header.foreigncount := db.header.foreigncount - 1 }
  else { db with header.usercount := db.header.usercount - 1 }

def deleteForeign (tentry : PrEntry) : Except PrError PrDb :=
  if tentry.isForeign then
    if tentry.isGroup then do
      ensure (tentry.count = 0) .badArg
      .ok db
    else db.returnCellQuota tentry.cellid
  else .ok db

def disown (gid oid : Id) : Except PrError PrDb :=
  if oid ≠ 0 then db.removeFromOwnerChain gid oid else db.removeFromOrphan gid

def deleteEntry (tentry : PrEntry) (loc : Nat) : Except PrError PrDb := do
  let db ← db.deleteForeign tentry
  let db ← removeFromAll tentry.id (listed tentry.entries) db
  let db ← deleteFrom tentry.id db.fuel tentry.next db
  let db ← if tentry.isGroup then db.disown tentry.id tentry.owner else .ok db
  let (db, found) ← db.removeFromIDHash tentry.id
  let loc := if found ≠ 0 then found else loc
  let (db, found) ← db.removeFromNameHash tentry.name
  let loc := if found ≠ 0 then found else loc
  let db ← if tentry.isGroup then db.returnQuota tentry.creator else .ok db
  .ok ((db.countDeleted tentry).freeBlock loc)

def renumberIn (aid newid : Id) : List Id → PrDb → Except PrError PrDb
  | [], db => .ok db
  | x :: rest, db => do
    let pos ← db.findByID x
    ensure (pos ≠ 0) .dbFail
    let db ← db.removeFromEntry aid x
    let db ← db.addToEntry (db.entry pos) pos newid
    renumberIn aid newid rest db

def renumberFrom (aid newid : Id) : Nat → Nat → PrDb → Except PrError PrDb
  | 0, _, _ => .error .loops
  | fuel + 1, nptr, db =>
    if nptr = 0 then .ok db
    else do
      let centry := db.cont nptr
      let db ← renumberIn aid newid (listed centry.entries) db
      renumberFrom aid newid fuel centry.next db

def changeId (aid newid : Id) (loc : Nat) : Except PrError PrDb := do
  let pos ← db.findByID newid
  ensure (pos = 0) .idExist
  ensure (¬ (aid < 0 ∧ 0 < newid ∨ 0 < aid ∧ newid < 0)) .perm
  let tentry := db.entry loc
  let (db, found) ← db.removeFromIDHash aid
  let loc := if found ≠ 0 then found else loc
  let db ← (db.putEntry loc { tentry with id := newid }).addToIDHash newid loc
  let tentry := db.entry loc
  let db ← renumberIn aid newid (listed tentry.entries) db
  renumberFrom aid newid db.fuel tentry.next db

def changeOwner (oid : Id) (loc : Nat) : Except PrError PrDb := do
  let tentry := db.entry loc
  ensure (tentry.isGroup ∧ ¬ tentry.isForeign) .perm
  let db ← (db.putEntry loc { tentry with owner := oid }).disown tentry.id tentry.owner
  db.addToOwnerChain tentry.id oid

/-- The name that `ChangeEntry` gives a group; `none` asks for the right name of the group after a change of owner. -/
def newGroupName (tentry : PrEntry) (cid : Id) (name : Option Name) : Except PrError Name := do
  ensure (¬ tentry.isForeign) .perm
  let cname ← db.correctGroupName cfg (name.getD tentry.name) cid tentry.owner
  ensure (name.all fun name => name = cname) .badNam
  .ok cname

def newUserName (tentry : PrEntry) (name : Name) : Except PrError Name := do
  let atsign (s : Name) := s.dropWhile fun c => c ≠ 64
  ensure (atsign tentry.name = atsign name) .perm
  ensure (cfg.correctUserName name) .badNam
  .ok name

def rename (name : Name) (loc : Nat) : Except PrError PrDb := do
  let pos ← db.findByName name
  ensure (pos = 0) .exist
  let tentry := db.entry loc
  let (db, found) ← db.removeFromNameHash tentry.name
  let loc := if found ≠ 0 then found else loc
  .ok ((db.putEntry loc { tentry with name := name }).addToNameHash name loc)

def changeName (cid : Id) (name : Option Name) (loc : Nat) : Except PrError PrDb := do
  let tentry := db.entry loc
  if tentry.isGroup then do
    let cname ← db.newGroupName cfg tentry cid name
    if name = none ∧ tentry.name = cname then .ok db else db.rename cname loc
  else do
    let cname ← newUserName cfg tentry (name.getD tentry.name)
    db.rename cname loc

def changeEntry (aid cid : Id) (name : Name) (oid newid : Id) : Except PrError PrDb := do
  let loc ← db.findByID aid
  ensure (loc ≠ 0) .noEnt
  let owner := (db.entry loc).owner
  let admin ← db.isAMemberOf cid sysAdminId
  ensure (cfg.restricted → admin) .perm
  let member ← db.isAMemberOf cid owner
  ensure (owner = cid ∨ admin ∨ member ∨ cfg.noAuth) .perm
  let db ← if newid ≠ 0 ∧ newid ≠ aid then do
      ensure (admin ∨ cfg.noAuth) .perm
      db.changeId aid newid loc
    else .ok db
  let chown : Prop := oid ≠ 0 ∧ oid ≠ owner
  let db ← if chown then db.changeOwner oid loc else .ok db
  if chown ∧ name = [] then db.changeName cfg cid none loc
  else if name ≠ [] ∧ (db.entry loc).name ≠ name then db.changeName cfg cid (some name) loc
  else .ok db

end PrDb

end OpenAFS.Ptserver
