import OpenAFS.Vol.CloneIndex

namespace OpenAFS.Vol

open Function (update)

inductive VnodeClass where
  | small
  | large
  deriving DecidableEq, Repr

def VnodeClass.info : VnodeClass → VnodeClassInfo
  | .small => vSmall
  | .large => vLarge

def vnodeTypeToClass (type : UInt8) : VnodeClass := if type = vDirectory then .large else .small

/-- A record of an index file: the fields that the volume package looks at, and the rest. -/
structure DiskVnode where
  type : UInt8
  vnodeMagic : UInt32
  uniquifier : Nat
  rest : Nat
  deriving DecidableEq, Repr

def DiskVnode.zero : DiskVnode := ⟨vNull, 0, 0, 0⟩

structure Vnode where
  disk : DiskVnode
  changed_newTime : Bool
  changed_oldTime : Bool
  delete : Bool
  deriving DecidableEq, Repr

/-- One of the indexes of a volume: the records of the file, the bit map with the offset of the byte where the search
begins, and the vnodes in the cache. -/
structure VnodeIndex where
  file : List DiskVnode
  bitmap : List Bool
  bitmapOffset : Nat
  cache : Nat → Option Vnode

inductive LockType where
  | read
  | write
  deriving DecidableEq, Repr

structure Handle where
  class_ : VnodeClass
  bitNumber : Nat
  lock : LockType
  deriving DecidableEq, Repr

/-- A volume: `salvage` is `needsSalvaged`, or with demand attach that a salvage was requested. -/
structure VnodeVolume where
  index : VnodeClass → VnodeIndex
  attached : Bool
  inUse : Bool
  salvage : Bool
  held : List Handle

inductive VnodeError where
  | voffline
  | vsalvage
  | vsalvaging
  | vio
  | vnovnode
  | addled
  deriving DecidableEq, Repr

namespace VnodeIndex

def VOLUME_BITMAP_GROWSIZE : Nat := 16

def bit (ix : VnodeIndex) (n : Nat) : Bool := ix.bitmap.getD n false

def allocLoop (bitmap : List Bool) : Nat → Nat → Option Nat
  | 0, _ => none
  | fuel + 1, bp =>
    if 8 * bp < bitmap.length then
      if ((bitmap.drop (8 * bp)).take 32).all id then allocLoop bitmap fuel (bp + 4) else some bp
    else none

def allocBitmapEntry (ix : VnodeIndex) : Nat × VnodeIndex :=
  match allocLoop ix.bitmap ix.bitmap.length ix.bitmapOffset with
  | some bp =>
    let ret := 8 * bp + (ix.bitmap.drop (8 * bp)).findIdx (fun b => !b)
    (ret, { ix with bitmap := ix.bitmap.set ret true, bitmapOffset := bp })
  | none =>
    (ix.bitmap.length, { ix with
      bitmap := ix.bitmap ++ (List.replicate (8 * VOLUME_BITMAP_GROWSIZE) false).set 0 true
      bitmapOffset := ix.bitmap.length / 8 })

def freeBitmapEntry (bitNumber : Nat) (ix : VnodeIndex) : Bool × VnodeIndex :=
  let offset := bitNumber / 8
  if ix.bitmap.length / 8 ≤ offset then (false, ix)
  else
    (true, { ix with
      bitmapOffset := if offset < ix.bitmapOffset then offset / 4 * 4 else ix.bitmapOffset
      bitmap := ix.bitmap.set bitNumber false })

/-- The loop of `VGetBitmap_r` over the records it reads: whether they are sound, the bits, and a uniquifier greater than
theirs. -/
def markLoop (magic : UInt32) : List DiskVnode → Nat → List Bool → Nat → Bool × List Bool × Nat
  | [], _, bitmap, unique => (true, bitmap, unique)
  | vnode :: rest, bitNumber, bitmap, unique =>
    if vnode.type ≠ vNull then
      if vnode.vnodeMagic ≠ magic then (false, bitmap, unique)
      else markLoop magic rest (bitNumber + 1) (bitmap.set bitNumber true)
        (if unique ≤ vnode.uniquifier then vnode.uniquifier + 1 else unique)
    else markLoop magic rest (bitNumber + 1) bitmap unique

/-- `VGetBitmap_r`, and whether it succeeded. Only the first `readable` records can be read: none if the seek fails. -/
def getBitmap (magic : UInt32) (nextVnodeUnique readable : Nat) (ix : VnodeIndex) : Bool × VnodeIndex :=
  let bitmapSize := (ix.file.length / 8 + 10) / 4 * 4
  let (sound, bitmap, unique) := markLoop magic (ix.file.take readable) 0 (List.replicate (8 * bitmapSize) false) 0
  (sound && unique ≤ nextVnodeUnique, { ix with bitmap, bitmapOffset := 0 })

def write (bitNumber : Nat) (disk : DiskVnode) (ix : VnodeIndex) : VnodeIndex :=
  if bitNumber < ix.file.length then { ix with file := ix.file.set bitNumber disk }
  else { ix with file := ix.file ++ List.replicate (bitNumber - ix.file.length) .zero ++ [disk] }

def grow (bitNumber records : Nat) (ix : VnodeIndex) : VnodeIndex :=
  if records = 0 then ix
  else { ix with file := ix.file ++ List.replicate (bitNumber + records - ix.file.length) .zero }

def cached (bitNumber : Nat) (vnp : Option Vnode) (ix : VnodeIndex) : VnodeIndex :=
  { ix with cache := update ix.cache bitNumber vnp }

end VnodeIndex

namespace VnodeVolume

def setIndex (s : VnodeVolume) (c : VnodeClass) (ix : VnodeIndex) : VnodeVolume :=
  { s with index := update s.index c ix }

def forceOffline (s : VnodeVolume) : VnodeVolume := if s.inUse then { s with inUse := false, salvage := true } else s

/-- A request of a salvage, and the error it reports: none when there was a request already. -/
def requestSalvage (s : VnodeVolume) : Option VnodeError × VnodeVolume :=
  (if s.salvage then none else some .vsalvaging, { s with salvage := true })

/-- `attach2` as far as the bit maps go: its `cacheCheck` makes the vnodes in the cache unknown. The volume is attached if
both bit maps can be had. -/
def attach (demandAttach : Bool) (nextVnodeUnique : Nat) (readable : VnodeClass → Nat) (s : VnodeVolume) : VnodeVolume :=
  let s := { s with index := fun c => { s.index c with cache := fun _ => none } }
  let result := fun c => (s.index c).getBitmap c.info.magic nextVnodeUnique (readable c)
  if (result .small).1 && (result .large).1 then
    { s with index := fun c => (result c).2, attached := true, inUse := true }
  else if demandAttach then s.requestSalvage.2
  else s

def detach (s : VnodeVolume) : VnodeVolume := { s with attached := false, inUse := false }

/-- How the look at the index goes in `VAllocVnode_r`; `grown` is how many records of zeros are written if the file has
to grow, where errors are ignored. -/
inductive AllocIndex where
  | openFails
  | statFails
  | seekFails
  | readFails
  | ok (grown : Nat)
  deriving DecidableEq, Repr

/-- `error_encountered` of `VAllocVnode_r`. -/
def allocFailed (demandAttach : Bool) (c : VnodeClass) (bitNumber : Nat) (error : VnodeError) (s : VnodeVolume) :
    Option (Except VnodeError Nat × VnodeVolume) :=
  if demandAttach then
    let s := s.setIndex c (((s.index c).freeBitmapEntry bitNumber).2.cached bitNumber none)
    some (.error error, s.requestSalvage.2)
  else none

def allocDone (c : VnodeClass) (type : UInt8) (unique bitNumber : Nat) (s : VnodeVolume) :
    Option (Except VnodeError Nat × VnodeVolume) :=
  let vnp : Vnode := ⟨⟨type, c.info.magic, unique, 0⟩, false, false, false⟩
  let s := s.setIndex c ((s.index c).cached bitNumber (some vnp))
  some (.ok bitNumber, { s with held := ⟨c, bitNumber, .write⟩ :: s.held })

/-- `VAllocVnode_r`; `header` is whether the writes of the volume's header succeed. -/
def allocVnode (demandAttach : Bool) (type : UInt8) (unique : Nat) (header : Bool) (io : AllocIndex)
    (s : VnodeVolume) : Option (Except VnodeError Nat × VnodeVolume) :=
  let c := vnodeTypeToClass type
  if demandAttach && s.salvage then some (.error .vsalvage, s)
  else if !s.inUse then some (.error .voffline, s)
  else if !header then some (.error .vsalvage, s.forceOffline)
  else
    let (bitNumber, ix) := (s.index c).allocBitmapEntry
    let s := s.setIndex c ix
    match ix.cache bitNumber with
    | some _ =>
      if s.held.any fun h => h.class_ = c ∧ h.bitNumber = bitNumber then none else s.allocDone c type unique bitNumber
    | none => match io with
      | .ok grown => match ix.file[bitNumber]? with
        | some disk =>
          if disk.type ≠ vNull then s.allocFailed demandAttach c bitNumber .addled
          else s.allocDone c type unique bitNumber
        | none => (s.setIndex c (ix.grow bitNumber grown)).allocDone c type unique bitNumber
      | _ => s.allocFailed demandAttach c bitNumber .vsalvaging

/-- How the read of a record goes in `VnLoad`. -/
inductive LoadIndex where
  | openFails
  | seekFails
  | badIget
  | eio
  | readFails
  | ok
  deriving DecidableEq, Repr

def loadSalvage (demandAttach : Bool) (s : VnodeVolume) : VnodeVolume :=
  if demandAttach then s.requestSalvage.2 else s.forceOffline

/-- `VnLoad`: the record, or the error. The vnode is not in the cache after an error. -/
def vnLoad (demandAttach : Bool) (c : VnodeClass) (bitNumber : Nat) (io : LoadIndex) (s : VnodeVolume) :
    Except VnodeError DiskVnode × VnodeVolume :=
  match io with
  | .openFails | .seekFails => (.error .vio, s.loadSalvage demandAttach)
  | .badIget | .readFails => (.error .vio, s)
  | .eio => (.error .vsalvage, s.loadSalvage demandAttach)
  | .ok => match (s.index c).file[bitNumber]? with
    | none => (.error .vio, s)
    | some disk =>
      if disk.type = vNull then (.error .vnovnode, s)
      else if disk.vnodeMagic ≠ c.info.magic then
        if (s.index c).bit bitNumber then (.error .vsalvage, s.loadSalvage demandAttach) else (.error .vnovnode, s)
      else (.ok disk, s)

def getDone (c : VnodeClass) (bitNumber : Nat) (lock : LockType) (vnp : Vnode) (s : VnodeVolume) :
    Option (Option VnodeError × VnodeVolume) :=
  if s.held.any fun h => h.class_ = c ∧ h.bitNumber = bitNumber ∧ (h.lock = .write ∨ lock = .write) then none
  else if vnp.disk.type = vNull then some (some .vnovnode, s)
  else some (none, { s with held := ⟨c, bitNumber, lock⟩ :: s.held })

def getVnode (demandAttach : Bool) (c : VnodeClass) (bitNumber : Nat) (lock : LockType) (header : Bool) (io : LoadIndex)
    (s : VnodeVolume) : Option (Option VnodeError × VnodeVolume) :=
  if demandAttach && s.salvage then some (some .vsalvaging, s)
  else if !s.inUse then some (some .voffline, s)
  else if lock = .write ∧ !header then some (some .vsalvage, s.forceOffline)
  else match (s.index c).cache bitNumber with
    | some vnp => s.getDone c bitNumber lock vnp
    | none => match s.vnLoad demandAttach c bitNumber io with
      | (.error error, s) => some (some error, s)
      | (.ok disk, s) =>
        let vnp : Vnode := ⟨disk, false, false, false⟩
        (s.setIndex c ((s.index c).cached bitNumber (some vnp))).getDone c bitNumber lock vnp

/-- How the write of a record goes in `VnStore`; a short write leaves some record, if any. -/
inductive StoreIndex where
  | openFails
  | seekFails
  | badIget
  | short (left : Option DiskVnode)
  | ok
  deriving DecidableEq, Repr

/-- `VnStore`, and the error it reports. With demand attach a short write closes the handle twice, which fails an
assertion. -/
def vnStore (demandAttach : Bool) (c : VnodeClass) (bitNumber : Nat) (disk : DiskVnode) (io : StoreIndex)
    (s : VnodeVolume) : Option (Option VnodeError × VnodeVolume) :=
  match io with
  | .openFails | .seekFails => if demandAttach then some s.requestSalvage else none
  | .badIget => some (some .vio, s)
  | .short left =>
    if demandAttach then none
    else
      let s := match left with
        | some disk => s.setIndex c ((s.index c).write bitNumber disk)
        | none => s
      some (some .vsalvage, s.forceOffline)
  | .ok => some (none, s.setIndex c ((s.index c).write bitNumber disk))

/-- What both `VPutVnode_r` and `VVnodeWriteToRead_r` do to write a vnode out. -/
def writeOut (demandAttach : Bool) (h : Handle) (disk : DiskVnode) (io : StoreIndex) (s : VnodeVolume) :
    Option (Option VnodeError × VnodeVolume) :=
  if s.inUse then s.vnStore demandAttach h.class_ h.bitNumber disk io
  else if demandAttach then some s.requestSalvage
  else if s.salvage then some (some .vsalvage, s)
  else none

def setCached (s : VnodeVolume) (h : Handle) (vnp : Vnode) : VnodeVolume :=
  s.setIndex h.class_ ((s.index h.class_).cached h.bitNumber (some vnp))

def putVnode (demandAttach : Bool) (h : Handle) (io : StoreIndex) (s : VnodeVolume) : Option (Option VnodeError × VnodeVolume) :=
  match (s.index h.class_).cache h.bitNumber with
  | none => none
  | some vnp =>
    if h ∉ s.held then none
    else
      let s := { s with held := s.held.erase h }
      if h.lock = .write ∧ (vnp.changed_oldTime ∨ vnp.changed_newTime ∨ vnp.delete) then
        let disk := if vnp.delete then .zero else vnp.disk
        match writeOut demandAttach h disk io s with
        | none => none
        | some (error, s') =>
          let s' := s'.setCached h ⟨disk, false, false, false⟩
          if s.inUse ∧ vnp.delete ∧ error = none then
            match (s'.index h.class_).freeBitmapEntry h.bitNumber with
            | (true, ix) => some (none, s'.setIndex h.class_ ix)
            | (false, _) => some (some .vnovnode, s')
          else some (error, s')
      else if h.lock = .read ∧ (vnp.changed_oldTime ∨ vnp.changed_newTime ∨ vnp.delete) then none
      else some (none, s)

/-- `VVnodeWriteToRead_r`: nothing is done to a vnode that is to be deleted. -/
def vnodeWriteToRead (demandAttach : Bool) (h : Handle) (io : StoreIndex) (s : VnodeVolume) :
    Option (Option VnodeError × VnodeVolume) :=
  match (s.index h.class_).cache h.bitNumber with
  | none => none
  | some vnp =>
    if h ∉ s.held ∨ h.lock ≠ .write then none
    else if vnp.delete then some (none, s)
    else
      let reading := fun s : VnodeVolume => { s with held := { h with lock := .read } :: s.held.erase h }
      if vnp.changed_oldTime ∨ vnp.changed_newTime then
        match writeOut demandAttach h vnp.disk io s with
        | none => none
        | some (error, s') => some (error, reading (s'.setCached h ⟨vnp.disk, false, false, false⟩))
      else some (none, reading s)

end VnodeVolume

end OpenAFS.Vol
