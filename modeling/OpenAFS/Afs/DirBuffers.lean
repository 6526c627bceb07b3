import Mathlib.Data.Finset.Basic
import Mathlib.Data.Fintype.Defs
import Mathlib.Data.List.FinRange
import OpenAFS.Lib.After
import OpenAFS.Lib.Machine

namespace OpenAFS.Afs

open Function (update)
open Lib

def pHash (fid page : Nat) : Nat := (fid &&& 124) ||| (page &&& 3)

/-- No two entries have one index, and each has a cache file of its own. -/
structure CacheFiles where
  inode : Nat → Nat
  injective : Function.Injective inode

structure DCache where
  index : Nat
  chunkBytes : Int

/-- What the lock of a buffer is held for: a page is read into it, or it is flushed; and whether the page has been
written already. -/
inductive Use where
  | loading
  | flushing
  | written
deriving DecidableEq

structure Buffer (Proc D : Type) where
  /-- `none` is `NULLIDX`. -/
  fid : Option Nat := none
  inode : Nat := 0
  page : Nat
  accesstime : BitVec 32 := 0
  lockers : BitVec 8 := 0
  dirty : Bool := false
  hashIndex : Nat := 0
  data : D
  lock : Option (Proc × Use) := none
  /-- Not in the code: how many callers have the buffer, and how many of them have changed it or made it with `DNew`. -/
  callers : Nat := 0
  modifiers : Nat := 0

/-- `DFlush` goes through the array, `DFlushDCache` through the chains of an entry. Not in the code: how often the pages
of the entry had been released as modified when the call began. -/
inductive Walk where
  | all
  | entry (index : Nat) (todo : List Nat) (goal : Nat → Nat)

inductive Phase where
  | await
  | io
  | resume

/-- Where a process is in the buffer package. One that is zapping, or awaits a buffer to flush, has `afs_bufferLock` for
reading. -/
inductive Task (n : Nat) where
  | idle
  | reading (index page : Nat) (b : Fin n)
  | zapping (index : Nat) (todo : List Nat) (b : Fin n)
  | flushing (walk : Walk) (phase : Phase) (b : Fin n)

inductive Return (n : Nat) where
  | page (index page : Nat) (b : Fin n)
  | zapped (index : Nat)
  | flushed (index : Nat) (goal : Nat → Nat)

structure DirBuffers (Proc D : Type) (n : Nat) where
  buffers : Fin n → Buffer Proc D
  phTable : Nat → List (Fin n)
  timecounter : BitVec 32
  files : Nat → Nat → D
  /-- The processes that have `afs_bufferLock` for reading. -/
  readers : Finset Proc
  task : Proc → Task n
  /-- Not in the code: the bytes of each page that were last released as modified since the entry was zapped, how often
  the page was so released, and how many of these times have come to the cache file. -/
  released : Nat → Nat → Option D
  releases : Nat → Nat → Nat
  saved : Nat → Nat → Nat
  /-- Not in the code: what the last step has returned. -/
  out : Option (Return n)

inductive BufferAction (Proc D : Type) (n : Nat) where
  | dRead (t : Proc) (adc : DCache) (page : Nat)
  | readIn (t : Proc)
  | dNew (t : Proc) (adc : DCache) (page : Nat)
  | modify (b : Fin n) (data : D) (first : Bool)
  | dRelease (b : Fin n) (flag : Bool)
  | dZap (t : Proc) (index : Nat)
  | zap (t : Proc)
  | dFlush (t : Proc)
  | dFlushDCache (t : Proc) (index : Nat)
  | lock (t : Proc)
  | write (t : Proc)
  | unlock (t : Proc)
  | goOn (t : Proc)

namespace DirBuffers

variable {Proc D : Type} {n : Nat} [DecidableEq Proc] (F : CacheFiles) (s : DirBuffers Proc D n)

def Bufmatch (index page : Nat) (b : Fin n) : Prop := (s.buffers b).page = page ∧ (s.buffers b).fid = some index

instance (index page : Nat) (b : Fin n) : Decidable (s.Bufmatch index page b) := inferInstanceAs (Decidable (_ ∧ _))

def find (index page : Nat) : Option (Fin n) := (s.phTable (pHash index page)).find? fun b => s.Bufmatch index page b

def setBuffer (b : Fin n) (buffer : Buffer Proc D) : DirBuffers Proc D n := { s with buffers := update s.buffers b buffer }

def bufFront (i : Nat) (b : Fin n) : DirBuffers Proc D n :=
  { s with phTable := update s.phTable i (b :: (s.phTable i).erase b) }

def cFileWrite (b : Fin n) : DirBuffers Proc D n :=
  let tb := s.buffers b
  { s with
    files := update s.files tb.inode (update (s.files tb.inode) tb.page tb.data)
    saved := match tb.fid with
      | some index => update s.saved index (update (s.saved index) tb.page (s.releases index tb.page))
      | none => s.saved }

/-- The loop of `afs_newslot`, for the oldest buffer that nobody has. -/
def oldest (lp : Option (Fin n)) : Option (Fin n) :=
  (List.finRange n).foldl (fun lp b => if (s.buffers b).lockers = 0 ∧
      (s.buffers b).accesstime.slt (lp.elim 0x7fffffff fun lp => (s.buffers lp).accesstime) then some b else lp) lp

def slot (lp : Option (Fin n)) : Option (Fin n) :=
  let lp := lp.filter fun b => (s.buffers b).lockers = 0
  if s.timecounter.slt 0 then lp.orElse fun _ => (List.finRange n).find? fun b => (s.buffers b).lockers = 0
  else s.oldest lp

/-- `afs_newslot` where `timecounter` has wrapped. -/
def rewind : DirBuffers Proc D n :=
  if s.timecounter.slt 0 then
    { s with timecounter := 1, buffers := fun b => { s.buffers b with accesstime := 0 } }
  else s

def evict (lp : Fin n) : DirBuffers Proc D n :=
  if (s.buffers lp).dirty then (s.cFileWrite lp).setBuffer lp { s.buffers lp with dirty := false } else s

def fixupBucket (table : Nat → List (Fin n)) (b : Fin n) (hashIndex i : Nat) : Nat → List (Fin n) :=
  let table := update table hashIndex ((table hashIndex).erase b)
  update table i (b :: table i)

def newslot (lp : Fin n) (index page : Nat) : DirBuffers Proc D n :=
  let s := s.evict lp
  { s.setBuffer lp { s.buffers lp with
      fid := some index, inode := F.inode index, page, accesstime := s.timecounter, hashIndex := pHash index page } with
    timecounter := s.timecounter + 1
    phTable := fixupBucket s.phTable lp (s.buffers lp).hashIndex (pHash index page) }

/-- `DRead` up to its read of the cache file. -/
def dRead (t : Proc) (adc : DCache) (page : Nat) : Option (DirBuffers Proc D n) :=
  match s.task t with
  | .idle =>
    if s.readers ≠ ∅ then none
    else
      match s.find adc.index page with
      | some b =>
        let tb := s.buffers b
        if tb.lock.isSome then none
        else
          some { (s.bufFront (pHash adc.index page) b).setBuffer b { tb with
              lockers := tb.lockers + 1, accesstime := s.timecounter, callers := tb.callers + 1 } with
            timecounter := s.timecounter + 1
            out := some (.page adc.index page b) }
      | none =>
        match s.slot (s.phTable (pHash adc.index page)).getLast? with
        | none => some { s.rewind with out := none }
        | some b =>
          let s := s.rewind.newslot F b adc.index page
          let tb := s.buffers b
          if adc.chunkBytes ≤ page * 2048 then some { s.setBuffer b { tb with fid := none, inode := 0 } with out := none }
          else
            some { s.setBuffer b { tb with lockers := tb.lockers + 1, lock := some (t, .loading) } with
              task := update s.task t (.reading adc.index page b)
              out := none }
  | _ => none

def readIn (t : Proc) : Option (DirBuffers Proc D n) :=
  match s.task t with
  | .reading index page b =>
    let tb := s.buffers b
    some { s.setBuffer b { tb with data := s.files (F.inode index) tb.page, lock := none, callers := tb.callers + 1 } with
      task := update s.task t .idle
      out := some (.page index page b) }
  | _ => none

/-- `DNew`, of a page that no buffer has. -/
def dNew (t : Proc) (adc : DCache) (page : Nat) : Option (DirBuffers Proc D n) :=
  match s.task t with
  | .idle =>
    if s.readers ≠ ∅ ∨ ∃ b, s.Bufmatch adc.index page b then none
    else
      match s.slot none with
      | none => some { s.rewind with out := none }
      | some b =>
        let s := s.rewind.newslot F b adc.index page
        let tb := s.buffers b
        some { s.setBuffer b { tb with
            lockers := tb.lockers + 1, callers := tb.callers + 1, modifiers := tb.modifiers + 1 } with
          out := none }
  | _ => none

def modify (b : Fin n) (data : D) (first : Bool) : Option (DirBuffers Proc D n) :=
  let tb := s.buffers b
  if if first then tb.modifiers < tb.callers else 0 < tb.modifiers then
    some { s.setBuffer b { tb with data, modifiers := tb.modifiers + first.toNat } with out := none }
  else none

/-- `DRelease`, by a caller that says whether it has modified the page. -/
def dRelease (b : Fin n) (flag : Bool) : Option (DirBuffers Proc D n) :=
  let tb := s.buffers b
  if tb.lock.isSome then none
  else if flag then
    if tb.modifiers = 0 then none
    else
      let s := { s with
        released := match tb.fid with
          | some index => update s.released index (update (s.released index) tb.page (some tb.data))
          | none => s.released
        releases := match tb.fid with
          | some index => update s.releases index (update (s.releases index) tb.page (s.releases index tb.page + 1))
          | none => s.releases }
      some { s.setBuffer b { tb with
          lockers := tb.lockers - 1, dirty := true, callers := tb.callers - 1, modifiers := tb.modifiers - 1 } with
        out := none }
  else if tb.callers ≤ tb.modifiers then none
  else some { s.setBuffer b { tb with lockers := tb.lockers - 1, callers := tb.callers - 1 } with out := none }

/-- The next buffer of an entry, in the rest of a chain or in the chains that are still to come. -/
def seek (index : Nat) : List Nat → List (Fin n) → Option (List Nat × Fin n)
  | todo, rest =>
    match rest.find? fun b => (s.buffers b).fid = some index with
    | some b => some (todo, b)
    | none =>
      match todo with
      | [] => none
      | i :: todo => seek index todo (s.phTable (pHash index i))

def rest (b : Fin n) : List (Fin n) := behind b (s.phTable (s.buffers b).hashIndex)

def zapFrom (t : Proc) (index : Nat) (todo : List Nat) (rest : List (Fin n)) : DirBuffers Proc D n :=
  match s.seek index todo rest with
  | some (todo, b) =>
    { s with readers := insert t s.readers, task := update s.task t (.zapping index todo b), out := none }
  | none => { s with readers := s.readers.erase t, task := update s.task t .idle, out := some (.zapped index) }

def dZap (t : Proc) (index : Nat) : Option (DirBuffers Proc D n) :=
  match s.task t with
  | .idle => some (s.zapFrom t index [0, 1, 2, 3] [])
  | _ => none

def zap (t : Proc) : Option (DirBuffers Proc D n) :=
  match s.task t with
  | .zapping index todo b =>
    let tb := s.buffers b
    if tb.lock.isSome then none
    else
      let s := { s with
        released := match tb.fid with
          | some index => update s.released index (update (s.released index) tb.page none)
          | none => s.released
        saved := match tb.fid with
          | some index => update s.saved index (update (s.saved index) tb.page (s.releases index tb.page))
          | none => s.saved }
      let s := s.setBuffer b { tb with fid := none, inode := 0, dirty := false }
      some (s.zapFrom t index todo (s.rest b))
  | _ => none

def nextToFlush : Walk → List (Fin n) → Option (Walk × Fin n)
  | .all, rest => (rest.find? fun b => (s.buffers b).dirty).map fun b => (.all, b)
  | .entry index todo goal, rest => (s.seek index todo rest).map fun (todo, b) => (.entry index todo goal, b)

/-- `DFlush` or `DFlushDCache`, with `afs_bufferLock`, goes on to the next buffer, or returns. -/
def flushFrom (t : Proc) (walk : Walk) (rest : List (Fin n)) : DirBuffers Proc D n :=
  match s.nextToFlush walk rest with
  | some (walk, b) =>
    { s with readers := insert t s.readers, task := update s.task t (.flushing walk .await b), out := none }
  | none =>
    { s with
      readers := s.readers.erase t
      task := update s.task t .idle
      out := match walk with
        | .all => none
        | .entry index _ goal => some (.flushed index goal) }

def dFlush (t : Proc) : Option (DirBuffers Proc D n) :=
  match s.task t with
  | .idle => some (s.flushFrom t .all (List.finRange n))
  | _ => none

def dFlushDCache (t : Proc) (index : Nat) : Option (DirBuffers Proc D n) :=
  match s.task t with
  | .idle => some (s.flushFrom t (.entry index [0, 1, 2, 3] (s.releases index)) [])
  | _ => none

def lock (t : Proc) : Option (DirBuffers Proc D n) :=
  match s.task t with
  | .flushing walk .await b =>
    let tb := s.buffers b
    if tb.lock.isSome then none
    else
      some { s.setBuffer b { tb with lockers := tb.lockers + 1, lock := some (t, .flushing) } with
        readers := s.readers.erase t
        task := update s.task t (.flushing walk .io b)
        out := none }
  | _ => none

def write (t : Proc) : Option (DirBuffers Proc D n) :=
  match s.task t with
  | .flushing _ .io b =>
    let tb := s.buffers b
    if tb.dirty ∧ tb.lock = some (t, .flushing) then
      some { (s.cFileWrite b).setBuffer b { tb with lock := some (t, .written) } with out := none }
    else none
  | _ => none

def unlock (t : Proc) : Option (DirBuffers Proc D n) :=
  match s.task t with
  | .flushing walk .io b =>
    let tb := s.buffers b
    if tb.dirty ∧ tb.lock = some (t, .flushing) then none
    else
      some { s.setBuffer b { tb with lockers := tb.lockers - 1, dirty := false, lock := none } with
        task := update s.task t (.flushing walk .resume b)
        out := none }
  | _ => none

def goOn (t : Proc) : Option (DirBuffers Proc D n) :=
  match s.task t with
  | .flushing .all .resume b => some (s.flushFrom t .all (behind b (List.finRange n)))
  | .flushing walk .resume b => some (s.flushFrom t walk (s.rest b))
  | _ => none

def step : BufferAction Proc D n → Option (DirBuffers Proc D n)
  | .dRead t adc page => s.dRead F t adc page
  | .readIn t => s.readIn F t
  | .dNew t adc page => s.dNew F t adc page
  | .modify b data first => s.modify b data first
  | .dRelease b flag => s.dRelease b flag
  | .dZap t index => s.dZap t index
  | .zap t => s.zap t
  | .dFlush t => s.dFlush t
  | .dFlushDCache t index => s.dFlushDCache t index
  | .lock t => s.lock t
  | .write t => s.write t
  | .unlock t => s.unlock t
  | .goOn t => s.goOn t

structure Start (s : DirBuffers Proc D n) : Prop where
  buffers : ∀ b, s.buffers b = { page := (s.buffers b).page, data := (s.buffers b).data }
  phTable : s.phTable = fun _ => []
  timecounter : s.timecounter = 1
  readers : s.readers = ∅
  task : s.task = fun _ => .idle
  released : s.released = fun _ _ => none
  releases : s.releases = fun _ _ => 0
  saved : s.saved = fun _ _ => 0
  out : s.out = none

end DirBuffers

def dirBuffers {Proc D : Type} {n : Nat} [DecidableEq Proc] (F : CacheFiles) :
    Machine (DirBuffers Proc D n) (BufferAction Proc D n) where
  start := DirBuffers.Start
  step := DirBuffers.step F

end OpenAFS.Afs
