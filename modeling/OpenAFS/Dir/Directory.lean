import OpenAFS.Lib.ByteOrder
import OpenAFS.Lib.FileBytes

namespace OpenAFS.Dir

open Lib

abbrev DirFile := List UInt8

def pageSize : Nat := 2048

def epp : Nat := 64

def maxPages : Nat := 128

def bigMaxPages : Nat := 1023

def nHashEnt : Nat := 128

/-- `DHE`: the entries of the directory header, above the page header. -/
def dhe : Nat := 12

def fFirst : UInt8 := 1

abbrev Page := { bytes : List UInt8 // bytes.length = pageSize }

inductive Code where
  | ok
  | einval
  | eexist
  | efbig
  | eio
  | enoent
  deriving DecidableEq, Repr

structure Fid where
  vnode : UInt32
  vunique : UInt32
  deriving DecidableEq, Repr

def shortAt (d : DirFile) (p : Nat) : Nat := (byteAt d p).toNat * 256 + (byteAt d (p + 1)).toNat

def putShort (d : DirFile) (p v : Nat) : DirFile := pwrite d p [.ofNat (v / 256), .ofNat v]

def longAt (d : DirFile) (p : Nat) : UInt32 :=
  bytesWord [byteAt d p, byteAt d (p + 1), byteAt d (p + 2), byteAt d (p + 3)]

def putLong (d : DirFile) (p : Nat) (v : UInt32) : DirFile := pwrite d p (wordBytes v)

def hasPage (d : DirFile) (page : Nat) : Bool := (page + 1) * pageSize ≤ d.length

/-- `DNew`: a page with whatever its buffer holds. -/
def dNew (page : Nat) (junk : Page) (d : DirFile) : DirFile := pwrite d (pageSize * page) junk.val

def pgcountAt (page : Nat) : Nat := pageSize * page
def tagAt (page : Nat) : Nat := pageSize * page + 2
def freecountAt (page : Nat) : Nat := pageSize * page + 4
def freebitmapAt (page : Nat) : Nat := pageSize * page + 5
def alloMapAt (page : Nat) : Nat := 32 + page
def hashTableAt (i : Nat) : Nat := 160 + 2 * i

def flagAt (blob : Nat) : Nat := 32 * blob
def nextAt (blob : Nat) : Nat := 32 * blob + 2
def vnodeAt (blob : Nat) : Nat := 32 * blob + 4
def vuniqueAt (blob : Nat) : Nat := 32 * blob + 8
def nameAt (blob : Nat) : Nat := 32 * blob + 12

def pgcount (d : DirFile) : Nat := shortAt d (pgcountAt 0)

def alloMap (d : DirFile) (page : Nat) : Nat := (byteAt d (alloMapAt page)).toNat

def bitMask (b : Nat) : UInt8 := ⟨BitVec.twoPow 8 (b % 8)⟩

def bitAt (d : DirFile) (page b : Nat) : Bool := (byteAt d (freebitmapAt page + b / 8)).toBitVec.getLsbD (b % 8)

def setBit (d : DirFile) (page b : Nat) : DirFile :=
  pwrite d (freebitmapAt page + b / 8) [byteAt d (freebitmapAt page + b / 8) ||| bitMask b]

def clearBit (d : DirFile) (page b : Nat) : DirFile :=
  pwrite d (freebitmapAt page + b / 8) [byteAt d (freebitmapAt page + b / 8) &&& ~~~ bitMask b]

def nameBlobs (name : List UInt8) : Nat := 1 + (name.length + 1 + 15) / 32

def dirHash (string : List UInt8) : Nat :=
  let hval : UInt32 := string.foldl (fun hval tc => hval * 173 + tc.toUInt32) 0
  let tval := hval.toNat % nHashEnt
  if tval = 0 then tval else if 2 ^ 31 ≤ hval.toNat then nHashEnt - tval else tval

/-- What lies behind the buffer of each page in memory; a string ends there at the latest. -/
abbrev Beyond := Nat → List UInt8

section Calls

variable (beyond : Beyond)

def cString (d : DirFile) (p : Nat) : List UInt8 :=
  (pread d p (pageSize - p % pageSize) ++ beyond (p / pageSize)).takeWhile (· ≠ 0)

/-- The loop of `FindItem`: the entry found and the address of the short that leads to it. `none` is a chain that
    never ends: there are no more than 65536 blob numbers. -/
def findItemFrom (d : DirFile) (ename : List UInt8) : Nat → Nat → Nat → Option (Option (Nat × Nat))
  | 0, _, _ => none
  | fuel + 1, lp, tp =>
    if ename = cString beyond d (nameAt tp) then some (some (tp, lp))
    else
      let lp := nextAt tp
      if shortAt d lp = 0 then some none
      else if hasPage d (shortAt d lp / epp) then findItemFrom d ename fuel lp (shortAt d lp)
      else some none

def findItem (d : DirFile) (ename : List UInt8) : Option (Option (Nat × Nat)) :=
  let lp := hashTableAt (dirHash ename)
  if !hasPage d 0 then some none
  else if shortAt d lp = 0 then some none
  else if hasPage d (shortAt d lp / epp) then findItemFrom beyond d ename 65536 lp (shortAt d lp)
  else some none

def addPage (pageno : Nat) (junk : Page) (d : DirFile) : DirFile :=
  let d := dNew pageno junk d
  let d := putShort d (tagAt pageno) 1234
  let d := if 0 < pageno then putShort d (pgcountAt pageno) 0 else d
  let d := pwrite d (freecountAt pageno) [.ofNat (epp - 1)]
  pwrite d (freebitmapAt pageno) (1 :: List.replicate (epp / 8 - 1) 0)

def openPage (junk : Page) (i : Nat) (d : DirFile) : DirFile :=
  if maxPages ≤ i then
    let d := if pgcount d = 0 then putShort d (pgcountAt 0) maxPages else d
    if pgcount d < i + 1 then putShort (addPage i junk d) (pgcountAt 0) (i + 1) else d
  else if alloMap d i = epp then
    putShort (pwrite (addPage i junk d) (alloMapAt i) [.ofNat (epp - 1)]) (pgcountAt 0) (i + 1)
  else d

def firstFit (d : DirFile) (i nblobs : Nat) : Option Nat :=
  (List.range (epp + 1 - nblobs)).find? fun j => (List.range nblobs).all fun k => !bitAt d i (j + k)

/-- `FindBlobs` from page `i` on, with the number of pages left to look at. -/
def findBlobsFrom (junk : Page) (nblobs : Nat) : Nat → Nat → DirFile → DirFile × Option Nat
  | 0, _, d => (d, none)
  | fuel + 1, i, d =>
    if maxPages ≤ i ∨ nblobs ≤ alloMap d i then
      let d := openPage junk i d
      if !hasPage d i then (d, none)
      else
        match firstFit d i nblobs with
        | some j =>
          let d := if i < maxPages then
              pwrite d (alloMapAt i) [byteAt d (alloMapAt i) - .ofNat nblobs] else d
          ((List.range nblobs).foldl (fun d k => setBit d i (j + k)) d, some (j + i * epp))
        | none => findBlobsFrom junk nblobs fuel (i + 1) d
    else findBlobsFrom junk nblobs fuel (i + 1) d

def findBlobs (junk : Page) (nblobs : Nat) (d : DirFile) : DirFile × Option Nat :=
  if !hasPage d 0 then (d, none) else findBlobsFrom junk nblobs bigMaxPages 0 d

def freeBlobs (firstblob nblobs : Nat) (d : DirFile) : DirFile :=
  let page := firstblob / epp
  let first := firstblob - epp * page
  if !hasPage d 0 then d
  else
    let d := if page < maxPages then
        pwrite d (alloMapAt page) [byteAt d (alloMapAt page) + .ofNat nblobs] else d
    if hasPage d page then (List.range nblobs).foldl (fun d i => clearBit d page (first + i)) d else d

/-- What `Create` writes into its blobs, except for the link. -/
def putEntry (d : DirFile) (firstelt : Nat) (entry : List UInt8) (fid : Fid) : DirFile :=
  let d := pwrite d (flagAt firstelt) [fFirst]
  let d := putLong d (vnodeAt firstelt) fid.vnode
  let d := putLong d (vuniqueAt firstelt) fid.vunique
  pwrite d (nameAt firstelt) (entry ++ [0])

/-- `Create`; like the calls below, `none` is a call that never returns. -/
def create (junk : Page) (entry : List UInt8) (fid : Fid) (d : DirFile) : Option (DirFile × Code) :=
  if entry = [] then some (d, .einval)
  else
    (findItem beyond d entry).map fun item =>
      match item with
      | some _ => (d, .eexist)
      | none =>
        match findBlobs junk (nameBlobs entry) d with
        | (d, none) => (d, .efbig)
        | (d, some firstelt) =>
          if !hasPage d (firstelt / epp) then (d, .eio)
          else
            let d := putEntry d firstelt entry fid
            if !hasPage d 0 then (d, .eio)
            else
              let i := hashTableAt (dirHash entry)
              let d := putShort d (nextAt firstelt) (shortAt d i)
              (putShort d i firstelt, .ok)

def delete (entry : List UInt8) (d : DirFile) : Option (DirFile × Code) :=
  (findItem beyond d entry).map fun item =>
    match item with
    | none => (d, .enoent)
    | some (firstitem, previtem) =>
      let d := putShort d previtem (shortAt d (nextAt firstitem))
      let nitems := nameBlobs (cString beyond d (nameAt firstitem))
      (freeBlobs firstitem nitems d, .ok)

def fidAt (d : DirFile) (blob : Nat) : Fid := ⟨longAt d (vnodeAt blob), longAt d (vuniqueAt blob)⟩

/-- `Lookup`: `none` inside is `ENOENT`. -/
def lookup (entry : List UInt8) (d : DirFile) : Option (Option Fid) :=
  (findItem beyond d entry).map fun item => item.map fun found => fidAt d found.1

/-- What the hook of `EnumerateDir` is called with. -/
structure Report where
  name : List UInt8
  fid : Fid
  deriving DecidableEq, Repr

/-- One hash chain of `EnumerateDir`. The file server's I/O leaves `DErrno` 0. -/
def enumerateChain (hookproc : Report → Int) (d : DirFile) : Nat → Nat → Option (List Report)
  | 0, _ => none
  | fuel + 1, num =>
    if num = 0 then some []
    else if !hasPage d (num / epp) then some []
    else
      let report : Report := ⟨cString beyond d (nameAt num), fidAt d num⟩
      if hookproc report = 0 then
        (enumerateChain hookproc d fuel (shortAt d (nextAt num))).map (report :: ·)
      else some [report]

/-- `EnumerateDir`: its code and what it has called the hook with. -/
def enumerateDir (hookproc : Report → Int) (d : DirFile) : Option (Code × List Report) :=
  if !hasPage d 0 then some (.eio, [])
  else
    ((List.range nHashEnt).mapM fun i => enumerateChain beyond hookproc d 65536 (shortAt d (hashTableAt i))).map
      fun chains => (.ok, chains.flatten)

def dot : List UInt8 := [46]

def dotdot : List UInt8 := [46, 46]

def emptyDir (junk : Page) (old : DirFile) : DirFile :=
  let d := dNew 0 junk old
  let d := putShort d (pgcountAt 0) 1
  let d := putShort d (tagAt 0) 1234
  let d := pwrite d (freecountAt 0) [.ofNat (epp - dhe - 1)]
  let d := pwrite d (freebitmapAt 0) ([0xff, 0x1f] ++ List.replicate (epp / 8 - 2) 0)
  let d := pwrite d (alloMapAt 0) (.ofNat (epp - dhe - 1) :: List.replicate (maxPages - 1) (.ofNat epp))
  pwrite d (hashTableAt 0) (List.replicate (2 * nHashEnt) 0)

def makeDir (junk : Page) (me parent : Fid) (old : DirFile) : Option DirFile :=
  (create beyond junk dot me (emptyDir junk old)).bind fun made =>
    (create beyond junk dotdot parent made.1).map Prod.fst

end Calls

end OpenAFS.Dir
