import OpenAFS.Lib.Chain

namespace OpenAFS.Callback

open Lib
open Function (update)

def fehashSize : Nat := 512
def maxCbHosts : Nat := 10
def serverBias : Nat := 3 * 60

def feHash (volume unique : Nat) : Nat := (volume + unique) % fehashSize

/-- What a callback is for; a block that was never used has none of these. -/
inductive Status where
  | unset | normal | delayed | volume | bulk
  deriving DecidableEq

structure AFSFid where
  volume : Nat
  vnode : Nat
  unique : Nat
  deriving DecidableEq

structure CallBacks where
  cnext : Nat → Nat
  fhead : Nat → Nat
  thead : Nat → Nat
  status : Nat → Status
  hhead : Nat → Nat
  tprev : Nat → Nat
  tnext : Nat → Nat
  hprev : Nat → Nat
  hnext : Nat → Nat

/-- The file entries, one array for each field. The only status bit is that the callbacks are to be broken later. -/
structure FileEntries where
  vnode : Nat → Nat
  unique : Nat → Nat
  volid : Nat → Nat
  fnext : Nat → Nat
  ncbs : Nat → Nat
  firstcb : Nat → Nat
  later : Nat → Bool

/-- What the package reads and writes in a host. Whether another thread holds the host changes from outside only. -/
structure Host where
  cblist : Nat
  venusDown : Bool
  hostDeleted : Bool
  clientDeleted : Bool
  resetDone : Bool
  hfeLater : Bool
  altAddr : Bool
  otherHolds : Bool
  activeCall : Nat
  deriving DecidableEq

structure Package where
  CB : CallBacks
  FE : FileEntries
  CBfree : Nat
  FEfree : Nat
  hashTable : Nat → Nat
  timeout : Nat → Nat
  tfirst : Nat
  nCBs : Nat
  nFEs : Nat
  nblks : Nat
  host : Nat → Host
  hostList : List Nat
  approxTime : Nat

inductive CbSlot where
  | first (fe : Nat)
  | next (cb : Nat)
  deriving DecidableEq

inductive FeSlot where
  | head (hash : Nat)
  | next (fe : Nat)
  deriving DecidableEq

namespace Package

def cbAt (s : Package) : CbSlot → Nat
  | .first fe => s.FE.firstcb fe
  | .next cb => s.CB.cnext cb

def setCb (s : Package) (p : CbSlot) (v : Nat) : Package :=
  { s with
    FE.firstcb := match p with
      | .first fe => update s.FE.firstcb fe v
      | .next _ => s.FE.firstcb
    CB.cnext := match p with
      | .first _ => s.CB.cnext
      | .next cb => update s.CB.cnext cb v }

def feAt (s : Package) : FeSlot → Nat
  | .head hash => s.hashTable hash
  | .next fe => s.FE.fnext fe

def setFe (s : Package) (p : FeSlot) (v : Nat) : Package :=
  { s with
    hashTable := match p with
      | .head hash => update s.hashTable hash v
      | .next _ => s.hashTable
    FE.fnext := match p with
      | .head _ => s.FE.fnext
      | .next fe => update s.FE.fnext fe v }

def hash (s : Package) (fe : Nat) : Nat := feHash (s.FE.volid fe) (s.FE.unique fe)

def fid (s : Package) (fe : Nat) : AFSFid := ⟨s.FE.volid fe, s.FE.vnode fe, s.FE.unique fe⟩

def findFE (s : Package) (fid : AFSFid) : Option Nat :=
  (seek s.feAt .next (fun fe => s.fid fe = fid ∧ s.FE.later fe = false) (s.nblks + 1)
    (.head (feHash fid.volume fid.unique))).map s.feAt

def getCB (s : Package) : Nat × Package :=
  if s.CBfree = 0 then (0, s)
  else (s.CBfree, { s with CBfree := s.CB.cnext s.CBfree, nCBs := s.nCBs + 1 })

def freeCB (s : Package) (cb : Nat) : Package :=
  { s with
    CB.cnext := update s.CB.cnext cb s.CBfree
    CB.fhead := update s.CB.fhead cb 0
    CBfree := cb
    nCBs := s.nCBs - 1 }

def getFE (s : Package) : Nat × Package :=
  if s.FEfree = 0 then (0, s)
  else (s.FEfree, { s with FEfree := s.FE.vnode s.FEfree, nFEs := s.nFEs + 1 })

def freeFE (s : Package) (fe : Nat) : Package :=
  { s with
    FE.vnode := update s.FE.vnode fe s.FEfree
    FE.unique := update s.FE.unique fe 0
    FEfree := fe
    nFEs := s.nFEs - 1 }

def tAdd (s : Package) (cb thead : Nat) : Package :=
  let thp := s.timeout thead
  let tprev := update s.CB.tprev cb (s.CB.tprev thp)
  let tnext := update s.CB.tnext cb thp
  { s with
    timeout := if thp = 0 then update s.timeout thead cb else s.timeout
    CB.tprev := if thp = 0 then update s.CB.tprev cb cb else update tprev thp cb
    CB.tnext :=
      if thp = 0 then update s.CB.tnext cb cb
      else if tprev thp ≠ 0 then update tnext (tprev thp) cb
      else tnext
    CB.thead := update s.CB.thead cb thead }

def tDel (s : Package) (cb : Nat) : Package :=
  let thead := s.CB.thead cb
  let tnext := if s.CB.tprev cb ≠ 0 then update s.CB.tnext (s.CB.tprev cb) (s.CB.tnext cb) else s.CB.tnext
  { s with
    timeout :=
      if s.timeout thead = cb then
        update s.timeout thead (if s.timeout thead = s.CB.tnext cb then 0 else s.CB.tnext cb)
      else s.timeout
    CB.tnext := tnext
    CB.tprev := if tnext cb ≠ 0 then update s.CB.tprev (tnext cb) (s.CB.tprev cb) else s.CB.tprev }

def setCblist (s : Package) (host v : Nat) : Nat → Host := update s.host host { s.host host with cblist := v }

def hAdd (s : Package) (cb host : Nat) : Package :=
  let fcb := (s.host host).cblist
  let hprev := update s.CB.hprev cb (s.CB.hprev fcb)
  let hnext := update s.CB.hnext cb fcb
  { s with
    CB.hhead := update s.CB.hhead cb host
    host := if fcb = 0 then s.setCblist host cb else s.host
    CB.hnext := if fcb = 0 then update s.CB.hnext cb cb else update hnext (hprev fcb) cb
    CB.hprev := if fcb = 0 then update s.CB.hprev cb cb else update hprev fcb cb }

def hDel (s : Package) (cb : Nat) : Package :=
  let hhead := s.CB.hhead cb
  let hnext := update s.CB.hnext (s.CB.hprev cb) (s.CB.hnext cb)
  { s with
    host :=
      if (s.host hhead).cblist = cb then
        s.setCblist hhead (if (s.host hhead).cblist = s.CB.hnext cb then 0 else s.CB.hnext cb)
      else s.host
    CB.hnext := hnext
    CB.hprev := update s.CB.hprev (hnext cb) (s.CB.hprev cb) }

def fDel (s : Package) (fe : Nat) : Option Package := do
  let p ← seek s.feAt .next (· = fe) (s.nblks + 1) (.head (s.hash fe))
  if s.feAt p = 0 then none
  else some ((s.setFe p (s.FE.fnext fe)).freeFE fe)

/-- Takes the callback in a slot off the list of its file entry and frees it, and the file entry with it when that was
its last callback and the caller wants so. -/
def cDelPtr (s : Package) (fe : Nat) (cbp : CbSlot) (deletefe : Bool) : Option Package :=
  if s.cbAt cbp = 0 then some s
  else
    let cb := s.cbAt cbp
    let s := s.setCb cbp (s.CB.cnext cb)
    let s := s.freeCB cb
    let s := { s with FE.ncbs := update s.FE.ncbs fe (s.FE.ncbs fe - 1) }
    if s.FE.ncbs fe = 0 ∧ deletefe then s.fDel fe else some s

def cDel (s : Package) (cb : Nat) (deletefe : Bool) : Option Package := do
  let fe := s.CB.fhead cb
  let cbp ← seek s.cbAt .next (· = cb) (s.nblks + 12) (.first fe)
  s.cDelPtr fe cbp deletefe

def findCBPtr (s : Package) (fe host : Nat) : Option CbSlot :=
  seek s.cbAt .next (fun cb => s.CB.hhead cb = host) (s.nblks + 2) (.first fe)

end Package

end OpenAFS.Callback
