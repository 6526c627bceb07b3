import Mathlib.Data.Multiset.Filter
import OpenAFS.Lib.Machine

namespace OpenAFS.Vol

open Function (update)
open Lib

structure InodeName where
  dev : UInt32
  vid : UInt32
  ino : UInt64
  deriving DecidableEq, Repr

def I_HANDLE_HASH_SIZE : ℕ := 1024

def InodeName.hash (name : InodeName) : ℕ :=
  ((name.dev ^^^ name.vid ^^^ name.ino.toUInt32) &&& (UInt32.ofNat I_HANDLE_HASH_SIZE - 1)).toNat

/-- `ih_reallyClosed` is the flag `IH_REALLY_CLOSED`. -/
structure IHandle where
  name : InodeName
  ih_reallyClosed : Bool
  ih_synced : Bool
  ih_refcnt : ℕ
  ih_fds : List ℕ

inductive FdStatus where
  | avail
  | open
  | inUse
  deriving DecidableEq, Repr

/-- A descriptor is numbered by the open that gave it, so no two have the same number. -/
structure FdHandle where
  fd_status : FdStatus
  fd_fd : Option ℕ
  fd_ih : Option ℕ
  deriving DecidableEq, Repr

def FdHandle.closed : FdHandle := ⟨.avail, none, none⟩

def I_HANDLE_MALLOCSIZE : ℕ := 4096 / 64

def FD_HANDLE_MALLOCSIZE : ℕ := 4096 / 48

inductive OpenResult where
  | ok (fd : ℕ)
  | emfile
  | error
  deriving DecidableEq, Repr

/-- Where `ih_sync_all` is: at a chain, at a handle it holds, with a descriptor of it, or about to leave it. -/
inductive SyncPoint where
  | chain (ihash : ℕ)
  | visit (ihash ihP : ℕ)
  | opened (ihash ihP fdP : ℕ)
  | leave (ihash ihP : ℕ)
  deriving DecidableEq, Repr

/-- A reference or a descriptor that a caller has, or a function where it has dropped the lock. The functions return to a
caller, or to `ih_sync_all`. -/
inductive Task where
  | ref (ihP : ℕ)
  | fd (fdP : ℕ)
  | iopen (sync : Option ℕ) (ihP : ℕ)
  | iopened (sync : Option ℕ) (ihP : ℕ) (fd : OpenResult)
  | retry (sync : Option ℕ) (ihP closeFd : ℕ)
  | swap (sync : Option ℕ) (ihP fdP closeFd : ℕ)
  | reallyclose (next : Option SyncPoint) (fdP : ℕ)
  | close (next : Option SyncPoint) (ihP closeFd : ℕ)
  | release (next : Option SyncPoint) (ihP : ℕ)
  | fdclose (next : Option SyncPoint) (ihP : ℕ) (queue : List ℕ) (last : Bool)
  | sync (point : SyncPoint)
  deriving DecidableEq, Repr

/-- The cache. `opens` counts the opens so far, and `closedAt` is what it was at the last `ih_reallyclose` of a handle. -/
structure HandleCache where
  ih : ℕ → IHandle
  ihNew : ℕ
  ihAvail : List ℕ
  ihashTable : List ℕ
  fd : ℕ → FdHandle
  fdNew : ℕ
  fdAvail : List ℕ
  fdLru : List ℕ
  fdCacheSize : ℤ
  fdInUseCount : ℤ
  tasks : Multiset Task
  opens : ℕ
  closedAt : ℕ → ℕ
  asserted : Bool

namespace HandleCache

def add (t : Task) (s : HandleCache) : HandleCache := { s with tasks := t ::ₘ s.tasks }

def setIh (ihP : ℕ) (h : IHandle) (s : HandleCache) : HandleCache := { s with ih := update s.ih ihP h }

def setFd (fdP : ℕ) (h : FdHandle) (s : HandleCache) : HandleCache := { s with fd := update s.fd fdP h }

def setRefcnt (ihP n : ℕ) (s : HandleCache) : HandleCache := s.setIh ihP { s.ih ihP with ih_refcnt := n }

def openDone (sync : Option ℕ) (ihP fdP : ℕ) (s : HandleCache) : HandleCache :=
  match sync with
  | none => s.add (.fd fdP)
  | some ihash => s.add (.sync (.opened ihash ihP fdP))

def openFailed (sync : Option ℕ) (ihP : ℕ) (s : HandleCache) : HandleCache :=
  match sync with
  | none => s
  | some ihash => s.add (.sync (.leave ihash ihP))

def closeDone (next : Option SyncPoint) (s : HandleCache) : HandleCache :=
  match next with
  | none => s
  | some point => s.add (.sync point)

/-- `iHandleAllocateChunk`: only the reference counts are set. -/
def iHandleAllocateChunk (s : HandleCache) : HandleCache :=
  let chunk := List.range' s.ihNew I_HANDLE_MALLOCSIZE
  { s with
    ih := fun ihP => if ihP ∈ chunk then { s.ih ihP with ih_refcnt := 0 } else s.ih ihP
    ihNew := s.ihNew + I_HANDLE_MALLOCSIZE
    ihAvail := s.ihAvail ++ chunk }

/-- `ih_init`: a handle of the chain, or a new one. -/
def ih_init (name : InodeName) (s : HandleCache) : Option HandleCache :=
  match s.ihashTable.find? fun ihP => (s.ih ihP).name = name with
  | some ihP => some ((s.setRefcnt ihP ((s.ih ihP).ih_refcnt + 1)).add (.ref ihP))
  | none =>
    let s := if s.ihAvail = [] then s.iHandleAllocateChunk else s
    match s.ihAvail with
    | [] => none
    | ihP :: rest =>
      if (s.ih ihP).ih_refcnt ≠ 0 then none
      else
        let s := s.setIh ihP { s.ih ihP with name, ih_reallyClosed := false, ih_refcnt := 1, ih_fds := [] }
        some ({ s with ihAvail := rest, ihashTable := s.ihashTable ++ [ihP] }.add (.ref ihP))

def ih_copy (ihP : ℕ) (s : HandleCache) : Option HandleCache :=
  if (s.ih ihP).ih_refcnt = 0 then none
  else some ((s.setRefcnt ihP ((s.ih ihP).ih_refcnt + 1)).add (.ref ihP))

def fdHandleAllocateChunk (s : HandleCache) : HandleCache :=
  let chunk := List.range' s.fdNew FD_HANDLE_MALLOCSIZE
  { s with
    fd := fun fdP => if fdP ∈ chunk then .closed else s.fd fdP
    fdNew := s.fdNew + FD_HANDLE_MALLOCSIZE
    fdAvail := s.fdAvail ++ chunk }

/-- `ih_open` up to the call of the system: the last descriptor that is not in use, if there is one. -/
def ih_open (sync : Option ℕ) (ihP : ℕ) (s : HandleCache) : Option HandleCache :=
  match (s.ih ihP).ih_fds.reverse.find? fun fdP => (s.fd fdP).fd_status ≠ .inUse with
  | some fdP =>
    if (s.fd fdP).fd_status ≠ .open then none
    else
      let s := s.setFd fdP { s.fd fdP with fd_status := .inUse }
      let s := { s with fdLru := s.fdLru.erase fdP }
      some ((s.setRefcnt ihP ((s.ih ihP).ih_refcnt + 1)).openDone sync ihP fdP)
  | none => some ({ s with fdInUseCount := s.fdInUseCount + 1 }.add (.iopen sync ihP))

def install (ihP fdP fd : ℕ) (s : HandleCache) : HandleCache :=
  let s := s.setFd fdP ⟨.inUse, some fd, some ihP⟩
  s.setIh ihP { s.ih ihP with ih_refcnt := (s.ih ihP).ih_refcnt + 1, ih_fds := (s.ih ihP).ih_fds ++ [fdP] }

/-- The handle of a cached descriptor taken from its lists, with the descriptor. -/
def steal (fdP : ℕ) (rest : List ℕ) (s : HandleCache) : Option (ℕ × HandleCache) :=
  match s.fd fdP with
  | ⟨.open, some closeFd, some old⟩ =>
    let s := { s with fdLru := rest }
    some (closeFd, s.setIh old { s.ih old with ih_fds := (s.ih old).ih_fds.erase fdP })
  | _ => none

/-- `ih_open` after the call of the system. -/
def ih_open_finish (sync : Option ℕ) (ihP : ℕ) (fd : OpenResult) (s : HandleCache) : Option HandleCache :=
  match fd, s.fdLru with
  | .error, _ | .emfile, [] => some ({ s with fdInUseCount := s.fdInUseCount - 1 }.openFailed sync ihP)
  | .emfile, fdP :: rest =>
    (s.steal fdP rest).map fun (closeFd, s) =>
      let s := { s with fdCacheSize := s.fdCacheSize - 1, fdAvail := s.fdAvail ++ [fdP] }
      (s.setFd fdP .closed).add (.retry sync ihP closeFd)
  | .ok fd, lru =>
    match if s.fdCacheSize < s.fdInUseCount then lru else [] with
    | fdP :: rest =>
      (s.steal fdP rest).map fun (closeFd, s) => (s.install ihP fdP fd).add (.swap sync ihP fdP closeFd)
    | [] =>
      let s := if s.fdAvail = [] then s.fdHandleAllocateChunk else s
      match s.fdAvail with
      | [] => none
      | fdP :: rest =>
        if (s.fd fdP).fd_status ≠ .avail then none
        else some (({ s with fdAvail := rest }.install ihP fdP fd).openDone sync ihP fdP)

/-- A reference dropped by a function that calls `ih_release` for the last one. -/
def drop (next : Option SyncPoint) (ihP : ℕ) (s : HandleCache) : HandleCache :=
  if 1 < (s.ih ihP).ih_refcnt then (s.setRefcnt ihP ((s.ih ihP).ih_refcnt - 1)).closeDone next
  else s.add (.release next ihP)

def fd_close (next : Option SyncPoint) (fdP : ℕ) (s : HandleCache) : Option HandleCache :=
  match s.fd fdP with
  | ⟨.inUse, fd, some ihP⟩ =>
    if s.fdInUseCount ≤ 0 then none
    else if (s.ih ihP).ih_reallyClosed ∨ s.fdCacheSize < s.fdInUseCount then some (s.add (.reallyclose next fdP))
    else
      let s := s.setFd fdP ⟨.open, fd, some ihP⟩
      some ({ s with fdLru := s.fdLru ++ [fdP] }.drop next ihP)
  | _ => none

/-- `fd_reallyclose` up to the call of the system. -/
def fd_reallyclose (next : Option SyncPoint) (fdP : ℕ) (s : HandleCache) : Option HandleCache :=
  match s.fd fdP with
  | ⟨.inUse, some closeFd, some ihP⟩ =>
    if s.fdInUseCount ≤ 0 then none
    else
      let fds := (s.ih ihP).ih_fds.erase fdP
      let s := s.setIh ihP { s.ih ihP with
        ih_fds := fds, ih_reallyClosed := (s.ih ihP).ih_reallyClosed && !fds.isEmpty }
      let s := { s with fdAvail := s.fdAvail ++ [fdP] }
      some ((s.setFd fdP .closed).add (.close next ihP closeFd))
  | _ => none

def fd_reallyclose_finish (next : Option SyncPoint) (ihP : ℕ) (s : HandleCache) : HandleCache :=
  { s with fdInUseCount := s.fdInUseCount - 1 }.drop next ihP

/-- `ih_fdclose` up to where it drops the lock: the queue of what it closes. -/
def ih_fdclose (ihP : ℕ) (s : HandleCache) : Option (List ℕ × HandleCache) :=
  let queue := (s.ih ihP).ih_fds.filter fun fdP => (s.fd fdP).fd_status = .open
  let left := (s.ih ihP).ih_fds.filter fun fdP => (s.fd fdP).fd_status ≠ .open
  if (s.ih ihP).ih_refcnt = 0 then none
  else if ∃ fdP ∈ (s.ih ihP).ih_fds, (s.fd fdP).fd_ih ≠ some ihP ∨ (s.fd fdP).fd_status = .avail then none
  else if (s.ih ihP).ih_refcnt = 1 ∧ left ≠ [] then none
  else
    let s := s.setIh ihP { s.ih ihP with ih_fds := left, ih_reallyClosed := !left.isEmpty }
    some (queue, { s with fdLru := s.fdLru.filter fun fdP => fdP ∉ queue })

def retire (ihP : ℕ) (s : HandleCache) : HandleCache :=
  { s.setRefcnt ihP ((s.ih ihP).ih_refcnt - 1) with ihAvail := s.ihAvail ++ [ihP] }

/-- `ih_fdclose` from where it drops the lock, and the end of its caller. -/
def ih_fdclose_finish (next : Option SyncPoint) (ihP : ℕ) (queue : List ℕ) (last : Bool) (s : HandleCache) : Option HandleCache :=
  if s.fdInUseCount < queue.length then none
  else
    let s := { s with
      fd := fun fdP => if fdP ∈ queue then .closed else s.fd fdP
      fdInUseCount := s.fdInUseCount - queue.length
      fdAvail := s.fdAvail ++ queue }
    some ((if last then s.retire ihP else s).closeDone next)

def ih_reallyclose (ihP : ℕ) (s : HandleCache) : Option HandleCache :=
  match s.ih_fdclose ihP with
  | none => none
  | some (queue, s) =>
    let s := { s with closedAt := update s.closedAt ihP s.opens }
    if queue = [] then some s else some (s.add (.fdclose none ihP queue false))

def ih_release (next : Option SyncPoint) (ihP : ℕ) (s : HandleCache) : Option HandleCache :=
  if (s.ih ihP).ih_refcnt = 0 then none
  else if 1 < (s.ih ihP).ih_refcnt then
    some ((s.setRefcnt ihP ((s.ih ihP).ih_refcnt - 1)).closeDone next)
  else
    match { s with ihashTable := s.ihashTable.erase ihP }.ih_fdclose ihP with
    | none => none
    | some (queue, s) =>
      if queue = [] then some ((s.retire ihP).closeDone next) else some (s.add (.fdclose next ihP queue true))

def chain (ihash : ℕ) (s : HandleCache) : List ℕ := s.ihashTable.filter fun ihP => (s.ih ihP).name.hash = ihash

def ih_next (ihP : ℕ) (s : HandleCache) : Option ℕ :=
  let l := s.chain (s.ih ihP).name.hash
  l[l.idxOf ihP + 1]?

def nextChain (ihash : ℕ) : Option SyncPoint :=
  if ihash + 1 < I_HANDLE_HASH_SIZE then some (.chain (ihash + 1)) else none

/-- `ih_sync_all` from one point to the next. It has the lock between some of them, so this lets others in more often. -/
def ih_sync_all (point : SyncPoint) (s : HandleCache) : Option HandleCache :=
  match point with
  | .chain ihash =>
    match s.chain ihash with
    | ihP :: _ => some ((s.setRefcnt ihP ((s.ih ihP).ih_refcnt + 1)).add (.sync (.visit ihash ihP)))
    | [] => some (s.closeDone (nextChain ihash))
  | .visit ihash ihP =>
    if (s.ih ihP).ih_synced then (s.setIh ihP { s.ih ihP with ih_synced := false }).ih_open (some ihash) ihP
    else some (s.add (.sync (.leave ihash ihP)))
  | .opened ihash ihP fdP => s.fd_close (some (.leave ihash ihP)) fdP
  | .leave ihash ihP =>
    match s.ih_next ihP with
    | some ihPnext =>
      some ((s.setRefcnt ihPnext ((s.ih ihPnext).ih_refcnt + 1)).drop (some (.visit ihash ihPnext)) ihP)
    | none => some (s.drop (nextChain ihash) ihP)

end HandleCache

inductive HandleAction where
  | ih_init (name : InodeName)
  | ih_copy (ihP : ℕ)
  | ih_open (ihP : ℕ)
  | fd_close (fdP : ℕ)
  | fd_reallyclose (fdP : ℕ)
  | fd_sync (fdP : ℕ)
  | ih_reallyclose (ihP : ℕ)
  | ih_release (ihP : ℕ)
  | ih_sync_all
  | resume (t : Task) (outcome : OpenResult)
  deriving DecidableEq, Repr

/-- A caller of `ih_open` that has no reference of its own: somebody else's may not go away meanwhile. -/
def Task.borrows : Task → Option ℕ
  | .iopen none ihP | .iopened none ihP _ | .retry none ihP _ => some ihP
  | _ => none

namespace HandleCache

/-- What the system says, with the number of the open for a descriptor. -/
def OS_IOPEN (sync : Option ℕ) (ihP : ℕ) (outcome : OpenResult) (s : HandleCache) : HandleCache :=
  match outcome with
  | .ok _ => { s with opens := s.opens + 1 }.add (.iopened sync ihP (.ok s.opens))
  | failed => s.add (.iopened sync ihP failed)

def resume (t : Task) (outcome : OpenResult) (s : HandleCache) : Option HandleCache :=
  match t with
  | .ref _ | .fd _ => some (s.add t)
  | .iopen sync ihP => some (s.OS_IOPEN sync ihP outcome)
  | .iopened sync ihP fd => s.ih_open_finish sync ihP fd
  | .retry sync ihP _ => some (s.add (.iopen sync ihP))
  | .swap sync ihP fdP _ => some ({ s with fdInUseCount := s.fdInUseCount - 1 }.openDone sync ihP fdP)
  | .reallyclose next fdP => s.fd_reallyclose next fdP
  | .close next ihP _ => some (s.fd_reallyclose_finish next ihP)
  | .release next ihP => s.ih_release next ihP
  | .fdclose next ihP queue last => s.ih_fdclose_finish next ihP queue last
  | .sync point => s.ih_sync_all point

def Enabled (s : HandleCache) : HandleAction → Prop
  | .ih_init _ | .ih_sync_all => True
  | .ih_copy ihP | .ih_open ihP | .ih_reallyclose ihP => .ref ihP ∈ s.tasks
  | .fd_close fdP | .fd_reallyclose fdP | .fd_sync fdP => .fd fdP ∈ s.tasks
  | .ih_release ihP => .ref ihP ∈ s.tasks ∧ (some ihP ∈ s.tasks.map Task.borrows → .ref ihP ∈ s.tasks.erase (.ref ihP))
  | .resume t _ => t ∈ s.tasks

def take (t : Task) (s : HandleCache) : HandleCache := { s with tasks := s.tasks.erase t }

def act (s : HandleCache) : HandleAction → Option HandleCache
  | .ih_init name => s.ih_init name
  | .ih_copy ihP => s.ih_copy ihP
  | .ih_open ihP => s.ih_open none ihP
  | .fd_close fdP => (s.take (.fd fdP)).fd_close none fdP
  | .fd_reallyclose fdP => (s.take (.fd fdP)).fd_reallyclose none fdP
  | .fd_sync fdP =>
    match (s.fd fdP).fd_ih with
    | some ihP => some (s.setIh ihP { s.ih ihP with ih_synced := true })
    | none => some s
  | .ih_reallyclose ihP => s.ih_reallyclose ihP
  | .ih_release ihP => (s.take (.ref ihP)).ih_release none ihP
  | .ih_sync_all => some (s.add (.sync (.chain 0)))
  | .resume t outcome => (s.take t).resume t outcome

instance (s : HandleCache) : (a : HandleAction) → Decidable (s.Enabled a)
  | .ih_init _ | .ih_sync_all => isTrue trivial
  | .ih_copy ihP | .ih_open ihP | .ih_reallyclose ihP => inferInstanceAs (Decidable (.ref ihP ∈ s.tasks))
  | .fd_close fdP | .fd_reallyclose fdP | .fd_sync fdP => inferInstanceAs (Decidable (.fd fdP ∈ s.tasks))
  | .ih_release _ => by unfold Enabled; infer_instance
  | .resume t _ => inferInstanceAs (Decidable (t ∈ s.tasks))

def step (s : HandleCache) (a : HandleAction) : Option HandleCache :=
  if s.Enabled a then some ((s.act a).getD { s with asserted := true }) else none

structure Start (s : HandleCache) : Prop where
  ihNew : s.ihNew = 0
  ihAvail : s.ihAvail = []
  ihashTable : s.ihashTable = []
  fdNew : s.fdNew = 0
  fdAvail : s.fdAvail = []
  fdLru : s.fdLru = []
  fdInUseCount : s.fdInUseCount = 0
  tasks : s.tasks = 0
  opens : s.opens = 0
  closedAt : ∀ ihP, s.closedAt ihP = 0
  asserted : s.asserted = false

end HandleCache

def handleCache : Machine HandleCache HandleAction := ⟨HandleCache.Start, HandleCache.step⟩

end OpenAFS.Vol
