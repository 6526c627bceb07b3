import OpenAFS.Callback.Package
import OpenAFS.Lib.Turns

namespace OpenAFS.Callback

open Lib
open Function (update)

def afsCbMax : Nat := 50

/-- Where an operation has let go of the global lock. The second case is the wait for the lock of a host that is down,
to delete all its callbacks. -/
inductive Point where
  | outside
  | down (host : Nat) (deletefe : Bool)
  deriving DecidableEq

/-- What an operation learns while it waits: whether the call failed or the lock was taken, and of several calls the
places of those that failed, in the order in which they ended. -/
structure Reply where
  code : Bool
  failed : List Nat

abbrev Do := Act Package Reply Point

def modify (f : Package → Package) : Do Unit := Act.change fun s => some (f s)

def Package.setHost (s : Package) (host : Nat) (h : Host) : Package := { s with host := update s.host host h }

def modifyHost (host : Nat) (f : Host → Host) : Do Unit := modify fun s => s.setHost host (f (s.host host))

namespace Package

def timeOuts : List Nat := [4 * 60 * 60, 60 * 60, 30 * 60, 15 * 60, 15 * 60, 10 * 60, 10 * 60, 10 * 60]
def minTimeOut : Nat := 7 * 60

def timeOut (nusers : Nat) : Nat := timeOuts.getD (nusers / 8) minTimeOut

def cbTime (uxtime : Nat) : Nat := uxtime / 128

def timeCeiling (uxtime : Nat) : Nat := (uxtime + 127) / 128 * 128

def tIndex (cbtime : Nat) : Nat := cbtime % 128 + 1

def tNorm (s : Package) (index : Nat) : Nat := if index < tIndex s.tfirst then index + 128 else index

def expireQueue (thead : Nat) : Nat → Nat → Nat → Package → Option (Nat × Package)
  | 0, _, _, _ => none
  | n + 1, cbi, ntimedout, s => do
    let next := s.CB.tnext cbi
    let s ← (s.hDel cbi).cDel cbi true
    if ntimedout + 1 > s.nblks then none
    else if next = s.timeout thead then some (ntimedout + 1, s)
    else expireQueue thead n next (ntimedout + 1) s

def expire : Nat → Nat → Package → Option (Nat × Package)
  | 0, ntimedout, s => some (ntimedout, s)
  | n + 1, ntimedout, s => do
    let thead := tIndex s.tfirst
    let (ntimedout, s) ←
      if s.timeout thead ≠ 0 then do
        let (ntimedout, s) ← expireQueue thead (s.nblks + 1) (s.timeout thead) ntimedout s
        some (ntimedout, { s with timeout := update s.timeout thead 0 })
      else some (ntimedout, s)
    expire n ntimedout { s with tfirst := s.tfirst + 1 }

def cleanupTimedOutCallBacks (s : Package) : Option (Bool × Package) := do
  let (ntimedout, s) ← expire (cbTime s.approxTime + 1 - s.tfirst) 0 s
  some (decide (ntimedout > 0), s)

def deleteHostList (first : Nat) (deletefe : Bool) : Nat → Nat → Package → Option Package
  | 0, _, _ => none
  | n + 1, cbi, s => do
    let next := s.CB.hnext cbi
    let s ← (s.tDel cbi).cDel cbi deletefe
    if next = first then some s else deleteHostList first deletefe n next s

def deleteAllCallBacks (s : Package) (host : Nat) (deletefe : Bool) : Option Package := do
  let first := (s.host host).cblist
  if first = 0 then some s
  else
    let s ← deleteHostList first deletefe (s.nblks + 1) first s
    some { s with host := s.setCblist host 0 }

def enterFE (s : Package) (fe : Nat) (fid : AFSFid) : Package :=
  let hash := feHash fid.volume fid.unique
  { s with
    FE.firstcb := update s.FE.firstcb fe 0
    FE.volid := update s.FE.volid fe fid.volume
    FE.vnode := update s.FE.vnode fe fid.vnode
    FE.unique := update s.FE.unique fe fid.unique
    FE.ncbs := update s.FE.ncbs fe 0
    FE.later := update s.FE.later fe false
    FE.fnext := update s.FE.fnext fe (s.hashTable hash)
    hashTable := update s.hashTable hash fe }

def setStatus (s : Package) (cb : Nat) (status : Status) : Package :=
  { s with CB.status := update s.CB.status cb status }

def deadline (s : Package) (type : Status) (ncbs thead : Nat) : Nat × Nat :=
  match type with
  | .normal =>
    let time := timeCeiling (s.approxTime + timeOut ncbs + serverBias)
    (time, tIndex (cbTime time))
  | .volume =>
    let time := timeCeiling (60 * 120 + s.approxTime + serverBias)
    (time, tIndex (cbTime time))
  | .bulk =>
    let time := timeCeiling (s.approxTime + serverBias + timeOut (22 + ncbs))
    (time, tIndex (cbTime time))
  | .delayed | .unset => (0, thead)

def renew (s : Package) (cb thead : Nat) (type : Status) : Package :=
  let s := if s.CB.status cb ≠ .delayed then s.setStatus cb type else s
  if s.tNorm thead > s.tNorm (s.CB.thead cb) then (s.tDel cb).tAdd cb thead else s

def insert (s : Package) (p : CbSlot) (cb fe host thead : Nat) (type : Status) : Package :=
  let s := s.setCb p cb
  let s := { s with
    FE.ncbs := update s.FE.ncbs fe (s.FE.ncbs fe + 1)
    CB.cnext := update s.CB.cnext cb 0
    CB.fhead := update s.CB.fhead cb fe }
  ((s.setStatus cb type).hAdd cb host).tAdd cb thead

def addCallBack (s : Package) (host : Nat) (fid : AFSFid) (thead : Nat) (type : Status) (newcb newfe : Nat) :
    Option (Nat × Package) := do
  let found ← s.findFE fid
  let (time, thead) := s.deadline type (if found = 0 then 0 else s.FE.ncbs found) thead
  let fe := if found = 0 then newfe else found
  let s := if found = 0 then s.enterFE newfe fid else s
  let p ← s.findCBPtr fe host
  let s :=
    if s.cbAt p = 0 then s.insert p newcb fe host thead type
    else
      let cb := s.cbAt p
      let s := s.renew cb thead type
      let s :=
        if found = 0 then { s with
          FE.firstcb := update s.FE.firstcb fe cb
          FE.ncbs := update s.FE.ncbs fe (s.FE.ncbs fe + 1)
          CB.fhead := update s.CB.fhead cb fe }
        else s
      s.freeCB newcb
  let s := if found = 0 then s else s.freeFE newfe
  some (time - serverBias, s)

def collect (hostindex : Nat) (flag : Bool) : Nat → Nat → List (Nat × Nat) → Package → Option (List (Nat × Nat) × Package)
  | 0, _, _, _ => none
  | n + 1, cb, cba, s =>
    if cb = 0 ∨ maxCbHosts ≤ cba.length then some (cba, s)
    else
      let next := s.CB.cnext cb
      if (s.CB.hhead cb ≠ hostindex ∨ flag) ∧ (s.CB.status cb = .bulk ∨ s.CB.status cb = .normal ∨ s.CB.status cb = .volume) then
        if (s.host (s.CB.hhead cb)).venusDown then
          collect hostindex flag n next cba (s.setStatus cb .delayed)
        else do
          let entry := (s.CB.hhead cb, s.CB.thead cb)
          let s ← ((s.tDel cb).hDel cb).cDel cb true
          collect hostindex flag n next (cba ++ [entry]) s
      else collect hostindex flag n next cba s

def deleteCallBack (s : Package) (host : Nat) (fid : AFSFid) : Option Package := do
  let fe ← s.findFE fid
  if fe = 0 then some s
  else
    let pcb ← s.findCBPtr fe host
    if s.cbAt pcb = 0 then some s
    else ((s.hDel (s.cbAt pcb)).tDel (s.cbAt pcb)).cDelPtr fe pcb true

def freeFileList (fe : Nat) : Nat → Nat → Package → Option Package
  | 0, _, _ => none
  | n + 1, cbi, s =>
    if cbi = 0 then some s
    else
      let next := s.CB.cnext cbi
      let s := ((s.tDel cbi).hDel cbi).freeCB cbi
      freeFileList fe n next { s with FE.ncbs := update s.FE.ncbs fe (s.FE.ncbs fe - 1) }

def deleteFileCallBacks (s : Package) (fid : AFSFid) : Option Package := do
  let fe ← s.findFE fid
  if fe = 0 then some s
  else
    let s ← freeFileList fe (s.nblks + 1) (s.FE.firstcb fe) s
    s.fDel fe

def youngest (s : Package) (tthead thead : Nat) : Nat :=
  if tthead = 0 ∨ s.tNorm tthead < s.tNorm thead then thead else tthead

structure Broken where
  tthead : Nat
  hosts : List Nat

def breakList : Nat → Nat → Broken → Package → Option (Broken × Package)
  | 0, _, _, _ => none
  | n + 1, cb, b, s =>
    if cb = 0 then some (b, s)
    else
      let next := s.CB.cnext cb
      let b := ⟨s.youngest b.tthead (s.CB.thead cb), s.CB.hhead cb :: b.hosts⟩
      breakList n next b (((s.tDel cb).hDel cb).freeCB cb)

def breakChain (volume : Nat) : Nat → FeSlot → Broken → Package → Option (Broken × Package)
  | 0, _, _, _ => none
  | n + 1, feip, b, s =>
    let fe := s.feAt feip
    if fe = 0 then some (b, s)
    else if s.FE.volid fe = volume then do
      let (b, s) ← breakList (s.nblks + 1) (s.FE.firstcb fe) b s
      breakChain volume n feip b ((s.setFe feip (s.FE.fnext fe)).freeFE fe)
    else breakChain volume n (.next fe) b s

def breakTable (volume : Nat) : List Nat → Broken → Package → Option (Broken × Package)
  | [], b, s => some (b, s)
  | hash :: rest, b, s => do
    let (b, s) ← breakChain volume (s.nblks + 1) (.head hash) b s
    breakTable volume rest b s

def delayList : Nat → Nat → Package → Option Package
  | 0, _, _ => none
  | n + 1, cb, s =>
    if cb = 0 then some s
    else
      let s := s.setHost (s.CB.hhead cb) { s.host (s.CB.hhead cb) with hfeLater := true }
      let s := s.setStatus cb .delayed
      delayList n (s.CB.cnext cb) s

def markChain (volume : Nat) : Nat → Nat → Package → Option Package
  | 0, _, _ => none
  | n + 1, fe, s =>
    if fe = 0 then some s
    else do
      let s ← if s.FE.volid fe = volume then do
          let s ← delayList (s.nblks + 1) (s.FE.firstcb fe) s
          some { s with FE.later := update s.FE.later fe true }
        else some s
      markChain volume n (s.FE.fnext fe) s

def markTable (volume : Nat) : List Nat → Package → Option Package
  | [], s => some s
  | hash :: rest, s => do
    let s ← markChain volume (s.nblks + 1) (s.hashTable hash) s
    markTable volume rest s

def breakVolumeCallBacksLater (s : Package) (volume : Nat) : Option Package :=
  markTable volume (List.range fehashSize) s

/-- Takes the marked file entries of one volume off a hash chain and links them, last one first, through the words in
which free entries are linked. The volume is the first one seen. -/
def unchain : Nat → FeSlot → Nat → Nat → Package → Option ((Nat × Nat) × Package)
  | 0, _, _, _, _ => none
  | n + 1, feip, volume, myfe, s =>
    let fe := s.feAt feip
    if fe = 0 then some ((volume, myfe), s)
    else if s.FE.later fe ∧ (volume = 0 ∨ volume = s.FE.volid fe) then
      let volume := s.FE.volid fe
      let s := s.setFe feip (s.FE.fnext fe)
      unchain n feip volume fe { s with
        FE.vnode := update s.FE.vnode fe myfe
        FE.unique := update s.FE.unique fe 0 }
    else unchain n (.next fe) volume myfe s

def unchainTable : List Nat → Nat → Nat → Package → Option ((Nat × Nat) × Package)
  | [], volume, myfe, s => some ((volume, myfe), s)
  | hash :: rest, volume, myfe, s => do
    let ((volume, myfe), s) ← unchain (s.nblks + 1) (.head hash) volume myfe s
    unchainTable rest volume myfe s

def laterList : Nat → Nat → Broken → Package → Option (Broken × Package)
  | 0, _, _, _ => none
  | n + 1, cb, b, s =>
    if cb = 0 then some (b, s)
    else
      let next := s.CB.cnext cb
      if s.CB.status cb = .delayed then do
        let b := ⟨s.youngest b.tthead (s.CB.thead cb), s.CB.hhead cb :: b.hosts⟩
        let s ← ((s.tDel cb).hDel cb).cDel cb false
        laterList n next b s
      else laterList n next b s

def laterEntries : Nat → Nat → Broken → Package → Option (Broken × Package)
  | 0, _, _, _ => none
  | n + 1, fe, b, s =>
    if fe = 0 then some (b, s)
    else do
      let (b, s) ← laterList (s.nblks + 1) (s.FE.firstcb fe) b s
      laterEntries n (s.FE.vnode fe) b (s.freeFE fe)

def unchainLater (s : Package) : Option ((Nat × Broken) × Package) := do
  let ((volume, myfe), s) ← unchainTable (List.range fehashSize) 0 0 s
  let (b, s) ← laterEntries (s.nblks + 1) myfe ⟨0, []⟩ s
  some ((volume, b), s)

def collectDelayed (host : Nat) : Nat → Nat → List AFSFid → Package → Option (List AFSFid × Package)
  | 0, _, _, _ => none
  | n + 1, cbi, fids, s => do
    let first := (s.host host).cblist
    let next := s.CB.hnext cbi
    let (fids, s) ←
      if s.CB.status cbi = .delayed then do
        let fid := s.fid (s.CB.fhead cbi)
        let s ← ((s.hDel cbi).tDel cbi).cDel cbi true
        some (fids ++ [fid], s)
      else some (fids, s)
    if next ≠ 0 ∧ next ≠ first ∧ fids.length < afsCbMax then collectDelayed host n next fids s
    else some (fids, s)

end Package

/-- Frees a host that nobody holds any more. The reply says whether the host is locked or one of its clients is in use. -/
def tossStuff (host : Nat) : Do Unit := do
  let r ← Act.pause .outside
  let s ← Act.read
  Act.when (!r.code ∧ (s.host host).hostDeleted) do
    Act.change fun s => s.deleteAllCallBacks host true
    modifyHost host fun h => { h with resetDone := false }
    modify fun s => { s with hostList := s.hostList.erase host }

def release (host : Nat) : Do Unit := do
  let s ← Act.read
  let h := s.host host
  Act.when (!h.otherHolds ∧ (h.hostDeleted ∨ h.clientDeleted)) (tossStuff host)

def initCallBackState (host : Nat) : Do Unit := do
  let s ← Act.read
  if (s.host host).venusDown then modifyHost host fun h => { h with resetDone := false }
  else do
    modifyHost host fun h => { h with altAddr := false }
    let r ← Act.pause .outside
    modifyHost host fun h => { h with altAddr := true }
    if r.code then modifyHost host fun h => { h with venusDown := true, resetDone := false }
    else modifyHost host fun h => { h with resetDone := true }

def clearLockedHost (host : Nat) (holds : List Nat) : Do Bool := do
  Act.change fun s => s.deleteAllCallBacks host true
  initCallBackState host
  Act.when (host ∉ holds) (release host)
  return false

def clearHostCallbacks (host : Nat) (locked : Bool) (holds : List Nat) : Do Bool :=
  if locked then clearLockedHost host holds
  else do
    let r ← Act.pause .outside
    if r.code then do
      Act.when (host ∉ holds) (release host)
      return true
    else clearLockedHost host holds

abbrev Choice := Option (Nat × Bool)

def releaseChoice : Choice → Do Unit
  | some (host, true) => release host
  | _ => pure ()

/-- Whether a host is chosen in the place of the one chosen so far. In the first pass it must not be held. -/
def Package.prefers (s : Package) (first : Bool) (host : Nat) (held : Bool) (hostp : Option Nat) (lih : Choice) : Bool :=
  (s.host host).cblist ≠ 0 &&
  (match hostp with
    | some h => host ≠ h
    | none => false) &&
  (!first || (!held && !(s.host host).otherHolds)) &&
  (match lih with
    | some (h, _) => (s.host host).activeCall < (s.host h).activeCall
    | none => true) &&
  (match hostp with
    | some h => (s.host host).activeCall > (s.host h).activeCall
    | none => true)

def longestInactive (first : Bool) (hostp : Option Nat) (holds : List Nat) : List Nat → Choice → Do Choice
  | [], lih => pure lih
  | host :: rest, lih => do
    let s ← Act.read
    if s.prefers first host (decide (host ∈ holds)) hostp lih then do
      releaseChoice lih
      longestInactive first hostp holds rest (some (host, decide (host ∉ holds)))
    else do
      Act.when (host ∉ holds) (release host)
      longestInactive first hostp holds rest lih

/-- Clears a host other than the one that needs the space. Returns whether it could not. -/
def clearOther (hp hostp : Nat) (held : Bool) (holds : List Nat) : Do Bool :=
  if hp ≠ hostp then do
    let busy ← clearHostCallbacks hp false holds
    Act.when held (release hp)
    return busy
  else do
    Act.when held (release hp)
    return true

def reclaim (hostp : Nat) (holds : List Nat) : Nat → Bool → Option Nat → Do Bool
  | 0, _, _ => Act.spin
  | n + 1, first, hp1 => do
    let s ← Act.read
    let lih ← longestInactive first hp1 holds s.hostList none
    match lih with
    | some (hp, held) => do
      let busy ← clearOther hp hostp held holds
      if busy then reclaim hostp holds n first (some hp) else pure true
    | none => if first then reclaim hostp holds n false none else pure false

def getSomeSpace (hostp : Nat) (holds : List Nat) (tries : Nat) : Do Unit := do
  let found ← Act.run Package.cleanupTimedOutCallBacks
  Act.when (found = false) do
    let cleared ← reclaim hostp holds tries true none
    Act.when (cleared = false) do
      let _ ← clearHostCallbacks hostp true holds

def allocate (get : Package → Nat × Package) (host : Nat) (holds : List Nat) (tries : Nat) : Nat → Do Nat
  | 0 => Act.spin
  | n + 1 => do
    let block ← Act.run fun s => some (get s)
    if block = 0 then do
      getSomeSpace host holds tries
      allocate get host holds tries n
    else pure block

/-- Adds a callback of a host on a file, with the host locked. The loops are given up after so many turns. -/
def addCallBack1 (host : Nat) (fid : AFSFid) (thead : Nat) (type : Status) (holds : List Nat) (tries : Nat) : Do Nat := do
  let newcb ← allocate Package.getCB host holds tries tries
  let newfe ← allocate Package.getFE host holds tries tries
  Act.run fun s => s.addCallBack host fid thead type newcb newfe

def putBack (fid : AFSFid) (holds : List Nat) (tries : Nat) : List (Nat × Nat) → Do Unit
  | [] => pure ()
  | (hp, idx) :: rest => do
    Act.when (idx ≠ 0) do
      let _ ← Act.pause .outside
      modifyHost hp fun h => { h with venusDown := true }
      let _ ← addCallBack1 hp fid idx .delayed holds tries
    let _ ← Act.pause .outside
    putBack fid holds tries rest

def releaseAll (xhost : Option Nat) : List (Nat × Nat) → Do Unit
  | [] => pure ()
  | (hp, _) :: rest => do
    Act.when (xhost ≠ some hp) (release hp)
    releaseAll xhost rest

def callHosts (cba : List (Nat × Nat)) (fid : AFSFid) (tries : Nat) : Do Unit := do
  let s ← Act.read
  let conns := cba.filter fun c => !(s.host c.1).hostDeleted
  Act.when (conns ≠ []) do
    let r ← Act.pause .outside
    putBack fid (cba.map Prod.fst) tries (r.failed.dedup.filterMap fun i => conns[i]?)

def multiBreakCallBack (cba : List (Nat × Nat)) (fid : AFSFid) (xhost : Option Nat) (tries : Nat) : Do Unit := do
  Act.change fun s => if cba.length ≤ maxCbHosts then some s else none
  let cba := cba.mergeSort fun a b => decide (a.1 ≤ b.1)
  callHosts cba fid tries
  releaseAll xhost cba
  let _ ← Act.pause .outside

def Package.collectFile (s : Package) (xhost : Nat) (fid : AFSFid) (flag : Bool) :
    Option (List (Nat × Nat) × Package) := do
  let fe ← s.findFE fid
  let cb := s.FE.firstcb fe
  if fe = 0 ∨ cb = 0 ∨ (s.FE.ncbs fe = 1 ∧ s.CB.hhead cb = xhost ∧ !flag) then some ([], s)
  else collect xhost flag (s.nblks + 1) cb [] s

def breakCallBack (xhost : Nat) (fid : AFSFid) (flag : Bool) (tries : Nat) : Nat → Do Unit
  | 0 => Act.spin
  | n + 1 => do
    let cba ← Act.run fun s => s.collectFile xhost fid flag
    Act.when (cba ≠ []) do
      multiBreakCallBack cba fid (some xhost) tries
      breakCallBack xhost fid flag tries n

structure VCBParams where
  cba : List (Nat × Nat)
  thead : Nat
  fid : AFSFid

/-- A host is added to those to be called; when there are ten already, they are called first. -/
def callLater (host : Nat) (parms : VCBParams) (tries : Nat) : Do (Bool × VCBParams) := do
  Act.change fun s => if parms.cba.length ≤ maxCbHosts then some s else none
  if parms.cba.length = maxCbHosts then do
    multiBreakCallBack parms.cba parms.fid none tries
    return (true, { parms with cba := [(host, parms.thead)] })
  else return (true, { parms with cba := parms.cba ++ [(host, parms.thead)] })

def deleteOfDown (host : Nat) (deletefe : Bool) : Do Unit := do
  let _ ← Act.pause (.down host deletefe)
  let s ← Act.read
  Act.when (!(s.host host).hostDeleted) do
    Act.change fun s => s.deleteAllCallBacks host deletefe
    modifyHost host fun h => { h with resetDone := false }

def multiBreakVolumeCallBack (host : Nat) (isheld : Bool) (parms : VCBParams) (deletefe : Bool) (tries : Nat) :
    Do (Bool × VCBParams) := do
  let s ← Act.read
  if !isheld ∨ (s.host host).hostDeleted then return (false, parms)
  else if (s.host host).venusDown then do
    deleteOfDown host deletefe
    return (false, parms)
  else callLater host parms tries

def enumerate (held : List Nat) (deletefe : Bool) (tries : Nat) : List Nat → VCBParams → Do VCBParams
  | [], parms => pure parms
  | host :: rest, parms => do
    let (keep, parms) ← multiBreakVolumeCallBack host (decide (host ∈ held)) parms deletefe tries
    let _ ← Act.pause .outside
    Act.when (keep = false) (release host)
    let _ ← Act.pause .outside
    enumerate held deletefe tries rest parms

def breakHosts (volume : Nat) (b : Package.Broken) (deletefe : Bool) (tries : Nat) : Do Unit := do
  let _ ← Act.pause .outside
  let s ← Act.read
  let _ ← Act.pause .outside
  let parms ← enumerate b.hosts deletefe tries s.hostList ⟨[], b.tthead, ⟨volume, 0, 0⟩⟩
  Act.when (parms.cba ≠ []) (multiBreakCallBack parms.cba ⟨volume, 0, 0⟩ none tries)

def breakVolumeCallBacks (volume tries : Nat) : Do Unit := do
  let b ← Act.run fun s => Package.breakTable volume (List.range fehashSize) ⟨0, []⟩ s
  Act.when (b.tthead ≠ 0) (breakHosts volume b true tries)

def breakLaterCallBacks (tries : Nat) : Do Unit := do
  let (volume, b) ← Act.run Package.unchainLater
  Act.when (b.tthead ≠ 0) (breakHosts volume b false tries)

def deleteCallBack (host : Nat) (fid : AFSFid) : Do Unit := do
  let _ ← Act.pause .outside
  Act.change fun s => s.deleteCallBack host fid

def Package.takeFids (s : Package) (host : Nat) : Option (List AFSFid × Package) :=
  if (s.host host).cblist = 0 then some ([], s)
  else collectDelayed host (s.nblks + 1) (s.host host).cblist [] s

def breakDelayedLoop (host : Nat) (holds : List Nat) : Nat → Do Unit
  | 0 => Act.spin
  | n + 1 => do
    let s ← Act.read
    Act.when (!(s.host host).hostDeleted) do
      modifyHost host fun h => { h with venusDown := false }
      let fids ← Act.run fun s => s.takeFids host
      Act.when (fids ≠ []) do
        let r ← Act.pause .outside
        if r.code then do
          modifyHost host fun h => { h with venusDown := true }
          let _ ← clearHostCallbacks host true holds
        else Act.when (¬fids.length < afsCbMax) (breakDelayedLoop host holds n)

def resetHost (host : Nat) : Do Unit := do
  modifyHost host fun h => { h with altAddr := false }
  let r ← Act.pause .outside
  modifyHost host fun h => { h with altAddr := true }
  if r.code then modifyHost host fun h => { h with venusDown := true }
  else modifyHost host fun h => { h with resetDone := true, venusDown := false }

/-- Breaks all delayed callbacks of a host that can be called again. Returns whether the host is down. -/
def breakDelayedCallBacks (host : Nat) (holds : List Nat) (tries : Nat) : Do Bool := do
  let s ← Act.read
  (if !(s.host host).resetDone ∧ !(s.host host).hostDeleted then resetHost host
    else breakDelayedLoop host holds tries : Do Unit)
  let s ← Act.read
  Act.when (!(s.host host).venusDown) (modifyHost host fun h => { h with hfeLater := false })
  let s ← Act.read
  return (s.host host).venusDown

end OpenAFS.Callback
