import OpenAFS.Lib.Queues

namespace OpenAFS.Afs

open Function (update)

def CBHTSLOTLEN : Nat := 128

def CBHTSIZE : Nat := 128

def CBHash (t : Nat) : Nat := t / 128

def MAXHOSTS : Nat := 13

structure Links where
  next : Nat → Nat
  prev : Nat → Nat

namespace Links

def setNext (l : Links) (e to' : Nat) : Links := { l with next := update l.next e to' }

def setPrev (l : Links) (e to' : Nat) : Links := { l with prev := update l.prev e to' }

def QInit (l : Links) (q : Nat) : Links := (l.setNext q q).setPrev q q

def QAdd (l : Links) (q e : Nat) : Links :=
  let l := l.setNext e (l.next q)
  let l := l.setPrev e q
  let l := l.setPrev (l.next q) e
  l.setNext q e

def QRemove (l : Links) (e : Nat) : Links :=
  let l := l.setPrev (l.next e) (l.prev e)
  let l := l.setNext (l.prev e) (l.next e)
  let l := l.setPrev e 0
  l.setNext e 0

def QEmpty (l : Links) (q : Nat) : Bool := l.prev q = q

/-- Takes `q1` and sticks it on the end of `q2`. -/
def QCat (l : Links) (q1 q2 : Nat) : Links :=
  let l := l.setNext (l.prev q2) (l.next q1)
  let l := l.setPrev (l.next q1) (l.prev q2)
  let l := l.setNext (l.prev q1) q2
  let l := l.setPrev q2 (l.prev q1)
  let l := l.setNext q1 q1
  l.setPrev q1 q1

end Links

structure VCache where
  cbExpires : Nat
  statd : Bool
  readOnly : Bool
  /-- The server that gave the callback, 0 for none. -/
  callback : Nat
  volume : Nat
  deriving DecidableEq, Repr

structure Volume where
  expireTime : Nat
  serverHost : List Nat
  deriving DecidableEq, Repr

/-- The vcaches there are: those of the initial pool, and those allocated after it was empty. -/
structure VCaches where
  cells : List Nat
  afs_cacheStats : Nat
  vcacheXAllocs : Nat
  counted : cells.length ≤ afs_cacheStats + vcacheXAllocs
  notHeads : ∀ v ∈ cells, CBHTSIZE < v

def VCaches.CBQ_LIMIT (C : VCaches) : Nat := C.afs_cacheStats + C.vcacheXAllocs + 10

structure CbQueue where
  links : Links
  base : Nat
  basetime : Nat
  vcache : Nat → VCache
  findVolume : Nat → Option Volume
  /-- `SRVR_ISDOWN` in the flags of a server. -/
  isDown : Nat → Bool
  now : Nat

/-- The address of `cbHashT[i].head`. -/
def head (i : Nat) : Nat := i + 1

namespace CbQueue

def setVCache (s : CbQueue) (v : Nat) (vc : VCache) : CbQueue := { s with vcache := update s.vcache v vc }

def raiseVolume (s : CbQueue) (v : Nat) : Option Nat → CbQueue
  | none => s
  | some avp => match s.findVolume avp with
    | none => s
    | some tvp =>
      if tvp.expireTime < (s.vcache v).cbExpires then
        { s with findVolume := update s.findVolume avp (some { tvp with expireTime := (s.vcache v).cbExpires }) }
      else s

def queueCallback (s : CbQueue) (avc atime : Nat) (avp : Option Nat) : CbQueue :=
  let s := s.raiseVolume avc avp
  if s.links.next avc = 0 then
    { s with links := s.links.QAdd (head ((atime + s.base) % CBHTSIZE)) avc }
  else s

def dequeueCallback (s : CbQueue) (avc : Nat) : CbQueue :=
  if s.links.prev avc ≠ 0 then { s with links := s.links.QRemove avc } else s

def grant (s : CbQueue) (v expirationTime start server : Nat) (avp : Option Nat) : CbQueue :=
  let s := s.setVCache v { s.vcache v with cbExpires := expirationTime + start, statd := true, callback := server }
  s.queueCallback v (CBHash expirationTime) avp

def clearStatd (s : CbQueue) (v : Nat) : CbQueue := s.setVCache v { s.vcache v with statd := false }

def anyUp (s : CbQueue) (tvp : Volume) : Bool := (tvp.serverHost.take MAXHOSTS).any fun srv => !s.isDown srv

/-- What is done to a vcache that expires within `secs`. -/
def expire (s : CbQueue) (secs v : Nat) : CbQueue :=
  match if (s.vcache v).readOnly then s.findVolume (s.vcache v).volume else none with
  | some tvp =>
    if s.now + secs < tvp.expireTime then s.setVCache v { s.vcache v with cbExpires := tvp.expireTime }
    else if s.anyUp tvp then { s with links := s.links.QRemove v }.clearStatd v
    else s
  | none => { s with links := s.links.QRemove v }.clearStatd v

def rehash (s : CbQueue) (v : Nat) : CbQueue :=
  let cbExpires := (s.vcache v).cbExpires
  if s.basetime < cbExpires ∧ CBHash (cbExpires - s.basetime) ≠ 0 then
    let slot := (CBHash (cbExpires - s.basetime) + s.base) % CBHTSIZE
    if slot ≠ s.base then
      let links := if s.links.prev v ≠ 0 then s.links.QRemove v else s.links
      { s with links := links.QAdd (head slot) v }
    else s
  else s

def checkEntry (s : CbQueue) (secs v : Nat) : CbQueue :=
  if (s.vcache v).cbExpires < s.now + secs then (s.expire secs v).rehash v else s.rehash v

/-- The loop over the base chain; the count is what `safety` may still be raised by, and running out of it is told. -/
def checkLoop (secs : Nat) : Nat → CbQueue → Nat → Bool × CbQueue
  | 0, s, _ => (true, s)
  | count + 1, s, tq =>
    if tq = head s.base then (false, s)
    else checkLoop secs count (s.checkEntry secs tq) (s.links.prev tq)

def initCBQueue (s : CbQueue) : CbQueue :=
  { s with
    links := (List.range CBHTSIZE).foldl (fun l i => l.QInit (head i)) s.links
    base := 0
    basetime := s.now }

def flushCB (s : CbQueue) (v : Nat) : CbQueue :=
  (s.setVCache v { s.vcache v with callback := 0, statd := false }).dequeueCallback v

def flushCBs (C : VCaches) (s : CbQueue) : CbQueue := (C.cells.foldl flushCB s).initCBQueue

def flushServerCB (srvp : Nat) (s : CbQueue) (v : Nat) : CbQueue :=
  if (s.vcache v).callback = srvp then s.flushCB v else s

def flushServerCBs (C : VCaches) (s : CbQueue) (srvp : Nat) : CbQueue := C.cells.foldl (flushServerCB srvp) s

/-- Whether the loop was cut short by `CBQ_LIMIT`, and the cache manager after `afs_CheckCallbacks`. -/
def checkCallbacks (C : VCaches) (s : CbQueue) (secs : Nat) : Bool × CbQueue :=
  match checkLoop secs (C.CBQ_LIMIT + 1) s (s.links.prev (head s.base)) with
  | (true, s) => (true, s.flushCBs C)
  | (false, s) => (false, s)

def bump (s : CbQueue) : CbQueue :=
  let base := (s.base + 1) % CBHTSIZE
  { s with
    links := if s.links.QEmpty (head s.base) then s.links else s.links.QCat (head s.base) (head base)
    base := base
    basetime := s.basetime + (CBHTSLOTLEN - 1) }

def bumpLoop : Nat → CbQueue → Nat × CbQueue
  | 0, s => (0, s)
  | fuel + 1, s =>
    if s.basetime + (CBHTSLOTLEN - 20) ≤ s.now then
      let (didbump, s') := bumpLoop fuel s.bump
      (didbump + 1, s')
    else (0, s)

/-- How many times the base was bumped, and the cache manager after it; each time `basetime` nears the present. -/
def bumpBase (s : CbQueue) : Nat × CbQueue := bumpLoop (s.now + 1) s

end CbQueue

end OpenAFS.Afs
