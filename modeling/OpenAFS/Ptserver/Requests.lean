import OpenAFS.Ptserver.Entries

namespace OpenAFS.Ptserver

open Lib

/-- Who sends a request: the id that `WhoIsThis` finds, and the name of a user of another cell. -/
structure Caller where
  id : Id := anonymousId
  foreign : Option Name := none

def Config.createOK (cfg : Config) (cid oid : Id) (flag : UInt32) (admin : Bool) : Bool :=
  if cfg.restricted ∧ ¬ admin then false
  else if flag &&& prForeign ≠ 0 then false
  else if flag &&& prGrp ≠ 0 then !(cid = anonymousId && (oid = 0 || !cfg.noAuth))
  else admin || cfg.noAuth

namespace PrDb

variable (db : PrDb) (cfg : Config)

def accessOK (cid : Id) (tentry : PrEntry) (mem any : UInt32) : Except PrError Bool :=
  if cfg.noAuth then .ok true
  else if cid = sysAdminId then .ok true
  else if cfg.restricted ∧ (mem = prpAddMem ∨ mem = prpRemoveMem) ∧ any = 0 then .ok false
  else
    let flags := if tentry.flags &&& prAccess ≠ 0 then tentry.flags
      else if tentry.isGroup then tentry.flags ||| cfg.groupDefault else tentry.flags ||| cfg.userDefault
    if flags &&& any ≠ 0 then .ok true
    else do
      let owns ← if tentry.owner = 0 then .ok false else db.isAMemberOf cid tentry.owner
      let member ← db.isAMemberOf cid tentry.id
      let viewer ← db.isAMemberOf cid sysViewerId
      let admin ← db.isAMemberOf cid sysAdminId
      .ok (tentry.owner ≠ 0 && (cid = tentry.owner || owns) || 0 < tentry.id && tentry.id = cid ||
        tentry.id < 0 && flags &&& mem ≠ 0 && member ||
        (mem = prpStatusMem || mem = prpMemberMem || any = prpOwnedAny) && viewer || admin)

def newEntry (caller : Caller) (aname : Name) (flag : UInt32) (oid : Id) : Except PrError PrDb := do
  let member ← db.isAMemberOf caller.id sysAdminId
  let (cid, oid, admin) := match caller.foreign with
    | none => (caller.id, oid, member)
    | some cname => (sysAdminId, sysAdminId, !cfg.restricted && aname = cname || member)
  ensure (cfg.createOK cid oid flag admin) .perm
  let (db, _) ← db.createEntry cfg aname 0 false flag oid cid
  .ok db

def iNewEntry (cid : Id) (aname : Name) (aid oid : Id) : Except PrError PrDb := do
  let admin ← db.isAMemberOf cid sysAdminId
  ensure (aid ≠ 0) .perm
  ensure (aid < 0 → admin ∨ cfg.noAuth ∨ aid = db.header.maxGroup - 1) .perm
  let gflag : UInt32 := if aid < 0 then prGrp else 0
  let found ← db.findByID aid
  ensure (found = 0) .idExist
  ensure (cfg.createOK cid oid gflag admin) .perm
  let (db, _) ← db.createEntry cfg aname aid true gflag oid cid
  .ok db

def addToGroup (cid aid gid : Id) : Except PrError PrDb := do
  ensure (gid ≠ anyUserId ∧ gid ≠ authUserId ∧ aid ≠ anonymousId) .perm
  let tempu ← db.findByID aid
  ensure (tempu ≠ 0) .noEnt
  let uentry := db.entry tempu
  ensure (¬ uentry.isGroup) .notUser
  let tempg ← db.findByID gid
  ensure (tempg ≠ 0) .noEnt
  let tentry := db.entry tempg
  ensure tentry.isGroup .notGroup
  let access ← db.accessOK cfg cid tentry prpAddMem prpAddAny
  ensure access .perm
  let db ← db.addToEntry tentry tempg aid
  db.addToEntry uentry tempu gid

def removeFromGroup (cid aid gid : Id) : Except PrError PrDb := do
  let tempu ← db.findByID aid
  ensure (tempu ≠ 0) .noEnt
  let tempg ← db.findByID gid
  ensure (tempg ≠ 0) .noEnt
  ensure (db.entry tempg).isGroup .notGroup
  ensure (¬ (db.entry tempu).isGroup) .notUser
  let access ← db.accessOK cfg cid (db.entry tempg) prpRemoveMem 0
  ensure access .perm
  let db ← db.removeFromEntry aid gid
  db.removeFromEntry gid aid

def reserved (aid : Id) : Prop := aid = sysAdminId ∨ aid = anyUserId ∨ aid = authUserId ∨ aid = anonymousId

instance (aid : Id) : Decidable (reserved aid) := by unfold reserved; infer_instance

def changeRequest (cid aid : Id) (name : Name) (oid newid : Id) : Except PrError PrDb := do
  ensure (¬ reserved aid) .perm
  db.changeEntry cfg aid cid name oid newid

/-- How far a deletion has got when it commits: at the continuation blocks of the entry, or at the groups that it owns, with
    the count of those moved. -/
inductive Phase where
  | conts
  | owned (count : Nat)

/-- `Delete` takes the first continuation block `nptr` off the entry at `loc`. -/
def deleteCont (aid : Id) (loc nptr : Nat) : Except PrError PrDb := do
  let tentry := db.entry loc
  let centry := db.cont nptr
  let db ← removeFromAll aid (listed centry.entries) db
  .ok ((db.freeBlock nptr).putEntry loc
    { tentry with next := centry.next, count := tentry.count - (listed centry.entries).length })

/-- The loop of `Delete` over the groups that an entry owns, up to the end of the transaction: with `none` the loop is
    done. -/
def moveOwned (loc : Nat) : Nat → Nat → PrEntry → Nat → PrDb → Except PrError (PrDb × PrEntry × Option Nat)
  | 0, _, _, _, _ => .error .loops
  | fuel + 1, nptr, tentry, count, db =>
    if nptr = 0 then .ok (db, tentry, none)
    else do
      let nentry := db.entry nptr
      let tentry := { tentry with owned := nentry.nextOwned }
      let (db, count) ← if nentry.id ≠ tentry.id then do
          let db ← db.addToOrphan nentry.id
          .ok (db, count + 1)
        else .ok (db, count)
      if count < 50 then moveOwned loc fuel nentry.nextOwned tentry count db
      else .ok (db.putEntry loc tentry, tentry, some count)

/-- `Delete` from the loop over the owned groups on. -/
def deleteOwned (loc count : Nat) : Except PrError (PrDb × Option Phase) := do
  let tentry := db.entry loc
  let (db, tentry, more) ← moveOwned loc db.fuel tentry.owned tentry count db
  match more with
  | some count => .ok (db, some (.owned count))
  | none => do
    let db ← db.deleteEntry tentry loc
    .ok (db, none)

/-- One transaction of `Delete` behind its checks, with what is left to do. -/
def deleteNext (aid : Id) (loc : Nat) : Phase → Except PrError (PrDb × Option Phase)
  | .conts => do
    let nptr := (db.entry loc).next
    if nptr ≠ 0 then do
      let db ← db.deleteCont aid loc nptr
      .ok (db, some .conts)
    else db.deleteOwned loc 0
  | .owned count => db.deleteOwned loc count

def deleteRequest (cid aid : Id) : Except PrError (PrDb × Option Phase) := do
  ensure (¬ reserved aid) .perm
  let loc ← db.findByID aid
  ensure (loc ≠ 0) .noEnt
  let owner := (db.entry loc).owner
  let admin ← db.isAMemberOf cid sysAdminId
  let member ← db.isAMemberOf cid owner
  ensure (owner = cid ∨ admin ∨ member ∨ cfg.noAuth) .perm
  db.deleteNext aid loc .conts

def deleteFurther (aid : Id) (phase : Phase) : Except PrError (PrDb × Option Phase) := do
  let loc ← db.findByID aid
  ensure (loc ≠ 0) .noEnt
  db.deleteNext aid loc phase

end PrDb

def initialGroups : List (Id × Name) :=
  [(sysAdminId, systemPrefix ++ [58, 97, 100, 109, 105, 110, 105, 115, 116, 114, 97, 116, 111, 114, 115]),
    (sysBackupId, systemPrefix ++ [58, 98, 97, 99, 107, 117, 112]),
    (anyUserId, systemPrefix ++ [58, 97, 110, 121, 117, 115, 101, 114]), (authUserId, authUserGroup),
    (sysViewerId, systemPrefix ++ [58, 112, 116, 115, 118, 105, 101, 119, 101, 114, 115]),
    (anonymousId, [97, 110, 111, 110, 121, 109, 111, 117, 115])]

def initialGroup (cfg : Config) (db : PrDb) (group : Id × Name) : Except PrError PrDb := do
  let (db, _) ← db.createEntry cfg group.2 group.1 true (if group.1 < 0 then prGrp else 0) sysAdminId sysAdminId
  .ok db

/-- `Initdb` on an empty database, which wants a server without authentication. -/
def initdb (cfg : Config) : Except PrError PrDb := do
  ensure cfg.noAuth .dbBad
  let db ← initialGroups.foldlM (initialGroup cfg) {}
  .ok { db with header.maxID := 0 }

structure Server where
  db : PrDb
  deletions : List (Id × PrDb.Phase) := []

inductive Request where
  | newEntry (caller : Caller) (aname : Name) (flag : UInt32) (oid : Id)
  | iNewEntry (cid : Id) (aname : Name) (aid oid : Id)
  | addToGroup (cid aid gid : Id)
  | removeFromGroup (cid aid gid : Id)
  | changeEntry (cid aid : Id) (name : Name) (oid newid : Id)
  | delete (cid aid : Id)
  | further (i : Nat)

namespace Server

variable (s : Server)

def commit (result : Except PrError PrDb) : Server :=
  match result with
  | .ok db => { s with db := db }
  | .error _ => s

def commitDelete (aid : Id) (others : List (Id × PrDb.Phase)) (result : Except PrError (PrDb × Option PrDb.Phase)) : Server :=
  match result with
  | .ok (db, some phase) => { db := db, deletions := (aid, phase) :: others }
  | .ok (db, none) => { db := db, deletions := others }
  | .error _ => { s with deletions := others }

def step (cfg : Config) : Request → Server
  | .newEntry caller aname flag oid => s.commit (s.db.newEntry cfg caller aname flag oid)
  | .iNewEntry cid aname aid oid => s.commit (s.db.iNewEntry cfg cid aname aid oid)
  | .addToGroup cid aid gid => s.commit (s.db.addToGroup cfg cid aid gid)
  | .removeFromGroup cid aid gid => s.commit (s.db.removeFromGroup cfg cid aid gid)
  | .changeEntry cid aid name oid newid => s.commit (s.db.changeRequest cfg cid aid name oid newid)
  | .delete cid aid => s.commitDelete aid s.deletions (s.db.deleteRequest cfg cid aid)
  | .further i =>
    match s.deletions[i]? with
    | some (aid, phase) => s.commitDelete aid (s.deletions.eraseIdx i) (s.db.deleteFurther aid phase)
    | none => s

end Server

/-- The states that a server reaches whose transactions all keep to a condition. Between two of them it may be started
    again with other options, and the deletions that are not done end. -/
inductive Reachable (allowed : Server → Config → Request → Prop) : Server → Prop where
  | start {cfg : Config} {db : PrDb} : initdb cfg = .ok db → Reachable allowed { db := db }
  | step {s : Server} {cfg : Config} {r : Request} :
      Reachable allowed s → allowed s cfg r → Reachable allowed (s.step cfg r)
  | restart {s : Server} : Reachable allowed s → Reachable allowed { s with deletions := [] }

end OpenAFS.Ptserver
