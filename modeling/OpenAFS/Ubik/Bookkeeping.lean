import Mathlib.Data.List.Nodup
import OpenAFS.Lib.Machine
import OpenAFS.Ubik.Contact

namespace OpenAFS.Ubik

open Lib

inductive TransType where
  | read
  | write
  deriving DecidableEq, Repr

/-- `locktype`: 0, `LOCKREAD`, `LOCKWRITE` or `LOCKWAIT`. -/
inductive LockType where
  | none
  | read
  | write
  | wait
  deriving DecidableEq, Repr

structure UbikTrans where
  addr : Nat
  type : TransType
  tid : UbikTid := ⟨0, 0⟩
  /-- `TRDONE` and `TRABORT`. -/
  done : Bool := false
  aborted : Bool := false
  locktype : LockType := .none
  deriving DecidableEq, Repr

/-- The parts of a `struct ubik_dbase` about transactions; `writing` is the flag `DBWRITING`. -/
structure UbikDbase where
  activeTrans : List UbikTrans := []
  writing : Bool := false
  readers : Int := 0
  deriving DecidableEq, Repr

inductive Holder where
  /-- `BeginTrans` in `ContactQuorum(DISK_Begin)`, and in the `DISK_Abort` after it. -/
  | beginContact (trans : Nat)
  | beginAbort (trans : Nat)
  /-- `ubik_AbortTrans` in `ContactQuorum(DISK_Abort)`. -/
  | abortContact (trans : Nat)
  /-- `ubik_EndTrans` in the `DISK_SetVersion` of `udisk_commit`, in `DISK_Commit`, in the wait for the servers that are
      down, and in `DISK_ReleaseLocks`. -/
  | relabel (trans : Nat)
  | commitContact (trans : Nat)
  | commitWait (trans : Nat)
  | releaseContact (trans : Nat)
  /-- `SDISK_Commit` in the `DISK_SetVersion` of `udisk_commit`. -/
  | remoteRelabel (trans : Nat)
  /-- `SDISK_SendFile` and `urecovery_Interact`, while they transfer the database. -/
  | transfer
  deriving DecidableEq, Repr

def Holder.trans : Holder → Option Nat
  | .beginContact t | .beginAbort t | .abortContact t | .relabel t | .commitContact t | .commitWait t
  | .releaseContact t => some t
  | .remoteRelabel _ | .transfer => none

structure TransServer where
  dbase : UbikDbase := {}
  currentTrans : Option Nat := none
  handles : List Nat := []
  holder : Option Holder := none
  /-- The calls of `SDISK_Lock` that wait, by their `ubik_thisTrans`. -/
  waiting : List Nat := []
  brk : Nat := 1
  deriving DecidableEq, Repr

namespace TransServer

def find (s : TransServer) (t : Nat) : Option UbikTrans := s.dbase.activeTrans.find? fun tt => tt.addr = t

def change (t : Nat) (f : UbikTrans → UbikTrans) (s : TransServer) : TransServer :=
  { s with dbase.activeTrans := s.dbase.activeTrans.map fun tt => if tt.addr = t then f tt else tt }

/-- `udisk_begin`: the code, and the transaction for `atrans`; `log` is the code of `udisk_LogOpcode`. -/
def udiskBegin (atype : TransType) (tid : UbikTid) (log : Int) (s : TransServer) : Int × Option Nat × TransServer :=
  if atype = .write ∧ s.dbase.writing then (uSync, none, s)
  else if atype = .write ∧ log ≠ 0 then (log, none, s)
  else
    let tt : UbikTrans := { addr := s.brk, type := atype, tid }
    let dbase := { s.dbase with activeTrans := tt :: s.dbase.activeTrans }
    let dbase := match atype with
      | .read => { dbase with readers := dbase.readers + 1 }
      | .write => { dbase with writing := true }
    (0, some s.brk, { s with dbase, brk := s.brk + 1 })

def udiskAbort (t : Nat) : TransServer → TransServer :=
  change t fun tt => if tt.done then tt else { tt with done := true, aborted := true }

def udiskEnd (t : Nat) (s : TransServer) : TransServer :=
  let s := udiskAbort t s
  let dbase := { s.dbase with activeTrans := s.dbase.activeTrans.eraseP fun tt => tt.addr = t }
  if (s.find t).any fun tt => tt.type = .write ∧ s.dbase.writing then { s with dbase := { dbase with writing := false } }
  else { s with dbase := { dbase with readers := dbase.readers - 1 } }

/-- The last part of `udisk_commit`, from `udisk_LogEnd` on: what fails after that is a panic. -/
def commitLog (t : Nat) (log : Int) (s : TransServer) : Int × TransServer :=
  if log ≠ 0 then (log, s) else (0, s.change t fun tt => { tt with done := true })

def urecoveryAbortAll (s : TransServer) : TransServer :=
  (s.dbase.activeTrans.map UbikTrans.addr).foldl (fun s t => s.udiskAbort t) s

/-- The end of the remote transaction, unless its thread waits for a lock, in which case it is only let go. -/
def dropCurrent (t : Nat) (s : TransServer) : TransServer :=
  let s := if (s.find t).any fun tt => tt.locktype = .wait then s else s.udiskEnd t
  { s with currentTrans := none }

def checkTid (atid : UbikTid) (s : TransServer) : TransServer :=
  match s.currentTrans with
  | none => s
  | some t =>
    if (s.find t).any fun tt => atid.epoch ≠ tt.tid.epoch ∨ tt.tid.counter < atid.counter then s.dropCurrent t else s

/-- What `BeginTrans` meets: `urecovery_AllBetter`, `ubeacon_AmSyncSite`, the new tid and the code of the log. -/
structure Begin where
  allBetter : Bool
  amSyncSite : Bool
  tid : UbikTid
  log : Int
  deriving DecidableEq, Repr

/-- `BeginTrans`. While there is a write transaction a second one waits, which changes nothing. -/
def beginTrans (transMode : TransType) (b : Begin) (s : TransServer) : TransServer :=
  if !b.allBetter then s
  else if transMode = .write ∧ s.dbase.writing then s
  else if transMode = .write ∧ !b.amSyncSite then s
  else
    match s.udiskBegin transMode b.tid b.log with
    | (_, none, s) => s
    | (_, some t, s) =>
      match transMode with
      | .read => { s with handles := t :: s.handles }
      | .write => { s with holder := some (.beginContact t) }

/-- What the end of a transaction meets; `relabel` is `!(urecovery_state & UBIK_RECLABELDB)`, and `setlabel` the code of the
    new label. -/
structure End where
  allBetter : Bool
  amSyncSite : Bool
  relabel : Bool
  setlabel : Int
  log : Int
  deriving DecidableEq, Repr

def abortAndEnd (t : Nat) (s : TransServer) : TransServer := (s.udiskAbort t).udiskEnd t

def abortTrans (t : Nat) (type : TransType) (e : End) (s : TransServer) : TransServer :=
  let s := { s with handles := s.handles.erase t }
  if !e.allBetter then s.abortAndEnd t
  else if type = .read then s.abortAndEnd t
  else if !e.amSyncSite then s.abortAndEnd t
  else { s with holder := some (.abortContact t) }

/-- The rest of `udisk_commit` and of `ubik_EndTrans` after the new label. -/
def commitOrRelease (t : Nat) (log : Int) (s : TransServer) : TransServer :=
  match s.commitLog t log with
  | (0, s) => { s with holder := some (.commitContact t) }
  | (_, s) => { s with holder := some (.releaseContact t) }

/-- `ubik_EndTrans`, after its `ubik_Flush`. -/
def endTrans (t : Nat) (tt : UbikTrans) (e : End) (s : TransServer) : TransServer :=
  let s := { s with handles := s.handles.erase t }
  if !e.allBetter then s.abortAndEnd t
  else if tt.type = .read then (s.change t fun tt => { tt with done := true }).udiskEnd t
  else if !e.amSyncSite then s.abortAndEnd t
  else if tt.done then { s with holder := some (.releaseContact t) }
  else if e.relabel then
    if e.setlabel ≠ 0 then { s with holder := some (.releaseContact t) } else { s with holder := some (.relabel t) }
  else s.commitOrRelease t e.log

/-- What the suspended call does with the answers of the other servers: their code, and that of the log after them. -/
def resume (code log : Int) (s : TransServer) : Holder → TransServer
  | .beginContact t =>
    if code = 0 then { s with handles := t :: s.handles, holder := none }
    else { s.udiskAbort t with holder := some (.beginAbort t) }
  | .beginAbort t => { s.udiskEnd t with holder := none }
  | .abortContact t => { s.abortAndEnd t with holder := none }
  | .relabel t => s.commitOrRelease t log
  | .commitContact t =>
    if code = 0 then { s with holder := some (.commitWait t) } else { s with holder := some (.releaseContact t) }
  | .commitWait t => if code = 0 then { s with holder := some (.releaseContact t) } else s
  | .releaseContact t => { s.udiskEnd t with holder := none }
  | .remoteRelabel t => { (s.commitLog t log).2 with holder := none }
  | .transfer => { s with holder := none }

def sdiskBegin (atid : UbikTid) (log : Int) (s : TransServer) : TransServer :=
  let s := s.checkTid atid
  let s := match s.currentTrans with
    | some t => s.dropCurrent t
    | none => s
  match s.udiskBegin .write atid log with
  | (_, currentTrans, s) => { s with currentTrans }

/-- What the other handlers do before they get to their work: the remote transaction, if it is still the one of the tid. -/
def sdiskTrans (atid : UbikTid) (s : TransServer) : Option Nat × TransServer :=
  if (s.currentTrans.bind s.find).any fun tt => tt.type = .write then
    let s := s.checkTid atid
    (s.currentTrans, s)
  else (none, s)

def sdiskCommit (atid : UbikTid) (e : End) (s : TransServer) : TransServer :=
  match s.sdiskTrans atid with
  | (none, s) => s
  | (some t, s) =>
    if (s.find t).any fun tt => tt.done then s
    else if e.amSyncSite ∧ e.relabel then
      if e.setlabel ≠ 0 then s else { s with holder := some (.remoteRelabel t) }
    else (s.commitLog t e.log).2

def sdiskReleaseLocks (atid : UbikTid) (s : TransServer) : TransServer :=
  match s.sdiskTrans atid with
  | (none, s) => s
  | (some t, s) => s.dropCurrent t

def sdiskAbort (atid : UbikTid) (s : TransServer) : TransServer :=
  match s.sdiskTrans atid with
  | (none, s) => s
  | (some t, s) => (s.udiskAbort t).dropCurrent t

/-- `SDISK_Lock` up to where it waits for the lock. `none` is the `abort()` of `ulock_getLock`. -/
def sdiskLock (atid : UbikTid) (alen : Int) (atype : LockType) (s : TransServer) : Option TransServer :=
  if alen ≠ 1 then some s
  else
    match s.sdiskTrans atid with
    | (none, s) => some s
    | (some t, s) =>
      if atype ≠ .read ∧ atype ≠ .write then some s
      else if (s.find t).any fun tt => tt.done then some s
      else if (s.find t).any fun tt => tt.locktype ≠ .none then none
      else some { s.change t fun tt => { tt with locktype := .wait } with waiting := t :: s.waiting }

def lockGranted (t : Nat) (atype : LockType) (s : TransServer) : TransServer :=
  let s := { s.change t fun tt => { tt with locktype := atype } with waiting := s.waiting.erase t }
  if s.currentTrans ≠ some t then s.udiskEnd t else s

inductive TransAct where
  | beginTrans (transMode : TransType) (b : Begin)
  | abortTrans (t : Nat) (e : End)
  | endTrans (t : Nat) (e : End)
  /-- A `ubik_Flush`, `ubik_Write`, `ubik_Truncate` or `ubik_SetLock` that fails aborts its transaction. -/
  | failed (t : Nat)
  | resume (code log : Int)
  | sdiskBegin (atid : UbikTid) (log : Int)
  | sdiskCommit (atid : UbikTid) (e : End)
  | sdiskReleaseLocks (atid : UbikTid)
  | sdiskAbort (atid : UbikTid)
  /-- `SDISK_Write`, `SDISK_WriteV`, `SDISK_Truncate` and `SDISK_SetVersion`. -/
  | sdiskData (atid : UbikTid)
  | sdiskLock (atid : UbikTid) (alen : Int) (atype : LockType)
  | lockGranted (t : Nat) (atype : LockType)
  /-- The `urecovery_AbortAll` of `SDISK_SendFile` and of `urecovery_Interact`, before they transfer the database. -/
  | abortAll
  /-- `SVOTE_Beacon` votes yes; it does not take the database lock. -/
  | beacon (atid : UbikTid)
  deriving DecidableEq, Repr

def onHandle (t : Nat) (f : UbikTrans → TransServer) (s : TransServer) : Option TransServer :=
  if t ∈ s.handles then (s.find t).map f else none

def step (s : TransServer) : TransAct → Option TransServer
  | .beacon atid => some (s.checkTid atid)
  | .resume code log => s.holder.map (s.resume code log)
  | act =>
    if s.holder.isSome then none
    else
      match act with
      | .beginTrans transMode b => some (s.beginTrans transMode b)
      | .abortTrans t e => onHandle t (fun tt => s.abortTrans t tt.type e) s
      | .endTrans t e => onHandle t (fun tt => s.endTrans t tt e) s
      | .failed t => onHandle t (fun _ => s.udiskAbort t) s
      | .sdiskBegin atid log => some (s.sdiskBegin atid log)
      | .sdiskCommit atid e => some (s.sdiskCommit atid e)
      | .sdiskReleaseLocks atid => some (s.sdiskReleaseLocks atid)
      | .sdiskAbort atid => some (s.sdiskAbort atid)
      | .sdiskData atid => some (s.sdiskTrans atid).2
      | .sdiskLock atid alen atype => s.sdiskLock atid alen atype
      | .lockGranted t atype =>
        if t ∈ s.waiting ∧ (atype = .read ∨ atype = .write) then some (s.lockGranted t atype) else none
      | .abortAll => some { s.urecoveryAbortAll with holder := some .transfer }
      | .beacon _ | .resume _ _ => none

def books : Machine TransServer TransAct := ⟨fun s => s = {}, step⟩

end TransServer

end OpenAFS.Ubik
