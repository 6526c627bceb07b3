import OpenAFS.Lib.Fallible
import OpenAFS.Ubik.Beacon
import OpenAFS.Ubik.Contact

namespace OpenAFS.Ubik

open Lib

def iovecMaxBuf : Nat := 65536
def iovecMaxWrt : Nat := 64

structure Moment where
  now : Int
  site : Site
  haveDB : Bool
  labelled : Bool
  version : UbikVersion
  deriving DecidableEq, Repr

def urecoveryAllBetter (areadAny : Bool) (m : Moment) : Bool :=
  if areadAny then 1 < m.version.epoch
  else if ubeaconAmSyncSite m.now m.site ∧ m.haveDB then true
  else uvoteGetSyncSite m.now m.site.vote ≠ 0 ∧ vcmp m.site.vote.dbVersion m.version = 0

def mayWrite (m : Moment) : Int :=
  if urecoveryAllBetter false m = false then uNoQuorum
  else if ubeaconAmSyncSite m.now m.site = false then uNotSync
  else 0

/-- The other servers of the list as one site meets them: what a call does at the other end, and what has become
    of an entry and of the other end since the last round, given what happened there meanwhile (`ε`). -/
structure Net (ε σ : Type*) where
  rpc : DiskCall → σ → Int × σ
  found : ε → UbikServer × σ → Turn σ

structure WriteTrans (σ : Type*) where
  seekFile : Nonneg := 0
  seekPos : Nat := 0
  iovec : List UbikIovec := []
  iobuf : List UInt8 := []
  ops : List DiskOp := []
  servers : List (UbikServer × σ)
  rounds : List (List UbikServer) := []

/-- What an operation meets: at its flush, at its own checks, at the local disk and on the network. -/
structure Weather (ε : Type*) where
  flushMoment : Moment
  flush : Nat → ε
  moment : Moment
  disk : Int
  contact : Nat → ε

variable {ε σ : Type*} (N : Net ε σ) (quorum : Nat)

def WriteTrans.turns (weather : Nat → ε) (t : WriteTrans σ) : List (Turn σ) :=
  t.servers.map fun s => N.found (weather s.1.addr) s

def WriteTrans.contacted (c : Contact σ) (t : WriteTrans σ) : WriteTrans σ :=
  { t with servers := c.servers, rounds := t.rounds ++ [c.servers.map Prod.fst] }

def WriteTrans.contact (aproc : DiskCall) (stamp : Bool) (weather : Nat → ε) (t : WriteTrans σ) : Except Int (WriteTrans σ) :=
  let c := contactQuorum N.rpc aproc stamp (t.turns N weather)
  if c.code quorum ≠ 0 then .error (c.code quorum) else .ok (t.contacted c)

/-- The part of `BeginTrans` for a write transaction; an error aborts it, here and below. -/
def beginTrans (w : Weather ε) (servers : List (UbikServer × σ)) : Except Int (WriteTrans σ) :=
  if mayWrite w.moment ≠ 0 then .error (mayWrite w.moment)
  else if w.disk ≠ 0 then .error w.disk
  else ({ servers := servers } : WriteTrans σ).contact N quorum .begin false w.contact

def ubikFlush (w : Weather ε) (t : WriteTrans σ) : Except Int (WriteTrans σ) :=
  if t.iovec.isEmpty then .ok t
  else if mayWrite w.flushMoment ≠ 0 then .error (mayWrite w.flushMoment)
  else (t.contact N quorum (.writeV t.iovec t.iobuf) false w.flush).map fun t => { t with iovec := [], iobuf := [] }

def ubikSeek (m : Moment) (fileid position : Nonneg) (t : WriteTrans σ) : Except Int (WriteTrans σ) :=
  if urecoveryAllBetter false m = false then .error uNoQuorum
  else .ok { t with seekFile := fileid, seekPos := position.val }

/-- The end of `ubik_Write`: write to the local disk and collect the write for the other servers. A position
    past the last one an `afs_int32` holds is an error of the disk. -/
def collect (buffer : List UInt8) (t : WriteTrans σ) : Except Int (WriteTrans σ) :=
  if valid : t.seekPos < 2 ^ 31 ∧ buffer.length < 2 ^ 31 then
    .ok { t with
      ops := t.ops ++ [.write t.seekFile ⟨t.seekPos, valid.1⟩ buffer valid.2]
      iovec := t.iovec ++ [⟨t.seekFile, ⟨t.seekPos, valid.1⟩, ⟨buffer.length, valid.2⟩⟩]
      iobuf := t.iobuf ++ buffer
      seekPos := t.seekPos + buffer.length }
  else .error uIOError

/-- `ubik_Write` of at most `IOVEC_MAXBUF` bytes. -/
def ubikWriteOnce (w : Weather ε) (buffer : List UInt8) (t : WriteTrans σ) : Except Int (WriteTrans σ) :=
  let flushed := if iovecMaxWrt ≤ t.iovec.length ∨ iovecMaxBuf < buffer.length + t.iobuf.length
    then ubikFlush N quorum w t else .ok t
  flushed.bind fun t =>
    if mayWrite w.moment ≠ 0 then .error (mayWrite w.moment)
    else if w.disk ≠ 0 then .error w.disk
    else collect buffer t

def piece (buffer : List UInt8) (i : Nat) : List UInt8 := (buffer.drop (i * iovecMaxBuf)).take iovecMaxBuf

/-- `ubik_Write`, a long buffer in pieces. -/
def ubikWrite (w : Nat → Weather ε) (buffer : List UInt8) (t : WriteTrans σ) : Except Int (WriteTrans σ) :=
  (List.range ((buffer.length + iovecMaxBuf - 1) / iovecMaxBuf)).foldlM
    (fun t i => ubikWriteOnce N quorum (w i) (piece buffer i) t) t

def ubikTruncate (w : Weather ε) (length : Nonneg) (t : WriteTrans σ) : Except Int (WriteTrans σ) :=
  (ubikFlush N quorum w t).bind fun t =>
    if mayWrite w.moment ≠ 0 then .error (mayWrite w.moment)
    else if w.disk ≠ 0 then .error w.disk
    else ({ t with ops := t.ops ++ [.truncate t.seekFile length] } : WriteTrans σ).contact N quorum
      (.truncate t.seekFile length) false w.contact

/-- `ubik_SetLock`; only a write lock goes to the other servers. -/
def ubikSetLock (w : Weather ε) (write : Bool) (t : WriteTrans σ) : Except Int (WriteTrans σ) :=
  if write = false then if w.disk ≠ 0 then .error w.disk else .ok t
  else
    (ubikFlush N quorum w t).bind fun t =>
      if mayWrite w.moment ≠ 0 then .error (mayWrite w.moment)
      else if w.disk ≠ 0 then .error w.disk
      else t.contact N quorum .lock false w.contact

/-- What a commit meets besides: the code of `setlabel`, the new version, and the network at `DISK_SetVersion`. -/
structure EndWeather (ε : Type*) extends Weather ε where
  setlabel : Int
  relabelled : UbikVersion
  setVersion : Nat → ε

/-- The local `udisk_commit`: the first one of a sync site relabels the database, everywhere if it can. -/
def udiskCommitLocal (w : EndWeather ε) (t : WriteTrans σ) : Except Int (WriteTrans σ) :=
  let labelled : Except Int (WriteTrans σ) :=
    if ubeaconAmSyncSite w.moment.now w.moment.site ∧ w.moment.labelled = false then
      if w.setlabel ≠ 0 then .error w.setlabel
      else .ok (t.contacted (contactQuorum N.rpc (.setVersion w.moment.version w.relabelled) true
        (t.turns N w.setVersion)))
    else .ok t
  labelled.bind fun t => if w.disk ≠ 0 then .error w.disk else .ok t

/-- `ubik_EndTrans` up to the `DISK_Commit` calls. -/
def beforeCommit (w : EndWeather ε) (t : WriteTrans σ) : Except Int (WriteTrans σ) :=
  (ubikFlush N quorum w.toWeather t).bind fun t =>
    if mayWrite w.moment ≠ 0 then .error (mayWrite w.moment) else udiskCommitLocal N w t

/-- `ubik_EndTrans`, and what it leaves after the `DISK_Commit` calls: the wait that follows ends after
    `10 * BIGTIME` at the latest, and nobody looks at what `DISK_ReleaseLocks` returns. -/
def ubikEndTrans (w : EndWeather ε) (t : WriteTrans σ) : Except Int (WriteTrans σ) :=
  (beforeCommit N quorum w t).bind fun t => t.contact N quorum .commit true w.contact

inductive TransCall (ε : Type*) where
  | seek (m : Moment) (fileid position : Nonneg)
  | write (w : Nat → Weather ε) (buffer : List UInt8)
  | truncate (w : Weather ε) (length : Nonneg)
  | setLock (w : Weather ε) (write : Bool)

def runCall (t : WriteTrans σ) : TransCall ε → Except Int (WriteTrans σ)
  | .seek m fileid position => ubikSeek m fileid position t
  | .write w buffer => ubikWrite N quorum w buffer t
  | .truncate w length => ubikTruncate N quorum w length t
  | .setLock w write => ubikSetLock N quorum w write t

def transaction (first : Weather ε) (calls : List (TransCall ε)) (last : EndWeather ε)
    (servers : List (UbikServer × σ)) : Except Int (WriteTrans σ) := do
  let t ← beginTrans N quorum first servers
  let t ← calls.foldlM (runCall N quorum) t
  ubikEndTrans N quorum last t

variable {N quorum}

/-- The servers as the `DISK_Commit` calls of a transaction find them. -/
def commitTurns (N : Net ε σ) (w : EndWeather ε) (t : WriteTrans σ) : List (Turn σ) := t.turns N w.contact

theorem contact_eq_ok {aproc : DiskCall} {stamp : Bool} {weather : Nat → ε} {t t' : WriteTrans σ} :
    t.contact N quorum aproc stamp weather = .ok t' ↔ (contactQuorum N.rpc aproc stamp (t.turns N weather)).code quorum = 0 ∧
      t' = t.contacted (contactQuorum N.rpc aproc stamp (t.turns N weather)) := by
  unfold WriteTrans.contact
  dsimp only
  split
  · rename_i failed
    simp [failed]
  · rename_i worked
    simp only [Except.ok.injEq, not_not.mp worked, true_and]
    exact eq_comm

theorem endTrans_eq_ok {w : EndWeather ε} {t t' : WriteTrans σ} : ubikEndTrans N quorum w t = .ok t' ↔
      ∃ t₁, beforeCommit N quorum w t = .ok t₁ ∧ t₁.contact N quorum .commit true w.contact = .ok t' :=
  except_bind_eq_ok

/-- When `ubik_EndTrans` returns 0, `DISK_Commit` succeeded on a quorum. -/
def CommitsAtQuorum (N : Net ε σ) (quorum : Nat) (w : EndWeather ε) (t : WriteTrans σ) : Prop :=
  ∀ t', ubikEndTrans N quorum w t = .ok t' →
    ∀ t₁, beforeCommit N quorum w t = .ok t₁ → QuorumReached quorum N.rpc .commit (commitTurns N w t₁)

/-- Where the `DISK_Commit` calls are made, one of them fails or enough servers are called. -/
def CommitFailsOrEnough (N : Net ε σ) (quorum : Nat) (w : EndWeather ε) (t : WriteTrans σ) : Prop :=
  ∀ t₁, beforeCommit N quorum w t = .ok t₁ → FailsOrEnough quorum N.rpc .commit (commitTurns N w t₁)

/-- For all servers, networks and transactions: when a return of 0 means a quorum. -/
theorem quorum_exact (N : Net ε σ) (quorum : Nat) : (∀ aproc stamp (turns : List (Turn σ)),
      ((contactQuorum N.rpc aproc stamp turns).code quorum = 0 → QuorumReached quorum N.rpc aproc turns) ↔
        FailsOrEnough quorum N.rpc aproc turns) ∧
    ∀ w t, CommitsAtQuorum N quorum w t ↔ CommitFailsOrEnough N quorum w t := by
  constructor
  · intro aproc stamp turns
    exact contactQuorum_sound quorum turns
  intro w t
  constructor
  · intro sound t₁ reached
    apply (@contactQuorum_sound σ N.rpc .commit true quorum (commitTurns N w t₁)).mp
    intro zero
    exact sound _ (endTrans_eq_ok.mpr ⟨t₁, reached, contact_eq_ok.mpr ⟨zero, rfl⟩⟩) t₁ reached
  intro enough t' ended t₁ reached
  obtain ⟨t₂, reached₂, contacted⟩ := endTrans_eq_ok.mp ended
  cases reached.symm.trans reached₂
  exact (contactQuorum_sound quorum _).mpr (enough t₁ reached) (contact_eq_ok.mp contacted).1

def codeNet : Net Int Int := ⟨fun _ code => (code, code), fun code s => ⟨s.1, ⟨100, 2⟩, code⟩⟩

def syncMoment : Moment :=
  ⟨100, { ubikHost := 1, amIClone := false, amIMagic := true, nServers := 3, servers := [], amSyncSite := true,
          syncSiteUntil := 150 }, true, true, ⟨100, 2⟩⟩

def codeWeather (code : Int) : Weather Int := ⟨syncMoment, fun _ => code, syncMoment, 0, fun _ => code⟩

def codeEnd (code : Int) : EndWeather Int := { codeWeather code with setlabel := 0, relabelled := ⟨0, 0⟩, setVersion := fun _ => code }

/-- Two servers that are up and current, after a `BeginTrans` that neither of them has answered. -/
def unanswered : Contact Int :=
  contactQuorum codeNet.rpc .begin false
    [⟨{ addr := 2, up := true, currentDB := true }, ⟨100, 2⟩, -1⟩, ⟨{ addr := 3, up := true, currentDB := true }, ⟨100, 2⟩, -1⟩]

def lonely : Except Int (WriteTrans Int) :=
  (beginTrans codeNet 2 (codeWeather 0) unanswered.servers).bind fun t =>
    [TransCall.seek syncMoment 0 0, .write (fun _ => codeWeather 0) [7]].foldlM (runCall codeNet 2) t

/-- After a `BeginTrans` that failed because both other servers did not answer, the next transaction calls nobody
    and commits at the sync site alone. -/
theorem commits_alone : unanswered.code 2 = -1 ∧ ∃ t t', lonely = .ok t ∧ ubikEndTrans codeNet 2 (codeEnd 0) t = .ok t' ∧
      t'.rounds.flatten.all (fun ts => ts.up = false) ∧ ¬ CommitsAtQuorum codeNet 2 (codeEnd 0) t := by
  refine ⟨rfl, _, _, rfl, rfl, rfl, ?_⟩
  intro sound
  have reached : (2 : Nat) ≤ 0 + 1 := sound _ rfl _ rfl
  omega

end OpenAFS.Ubik
