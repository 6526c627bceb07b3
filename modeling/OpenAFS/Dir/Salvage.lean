import OpenAFS.Dir.FiniteMap

namespace OpenAFS.Dir

open Lib

inductive Stop where
  | bad
  /-- It reads or writes outside `eaMap`, which has room for `BIGMAXPAGES` pages. -/
  | outside
  deriving DecidableEq, Repr

def require (c : Prop) [Decidable c] : Except Stop Unit := if c then .ok () else .error .bad

/-- The loop over `alloMap`: the count of used pages, and whether the last page was found. -/
def checkAlloMap (d : DirFile) : List Nat → Nat → Bool → Except Stop Nat
  | [], up, _ => .ok up
  | i :: rest, up, k =>
    let j := alloMap d i
    if (if i = 0 then epp - (13 + 2) else epp) < j then .error .bad
    else if k then (if j ≠ epp then .error .bad else checkAlloMap d rest up k)
    else if j = epp then checkAlloMap d rest up true
    else checkAlloMap d rest (up + 1) k

def computeUsedPages (d : DirFile) : Nat :=
  if pgcount d ≠ 0 then pgcount d
  else
    match (List.range maxPages).find? fun i => alloMap d i = epp with
    | some i => if i = 0 then maxPages else i
    | none => maxPages

def checkPage (d : DirFile) (i : Nat) : Except Stop Unit := do
  require (hasPage d i = true)
  require (shortAt d (tagAt i) = 1234)
  let count := epp - (List.range epp).countP (bitAt d i)
  require (i < maxPages → count % 256 = alloMap d i % 256)

def eaSize : Nat := bigMaxPages * epp / 8

def initEaMap (usedPages : Nat) : List UInt8 :=
  (List.range eaSize).map fun i =>
    if i < usedPages * (epp / 8) then
      if i = 0 then 0xff else if i = 1 then 0x1f else if i % 8 = 0 then 1 else 0
    else 0

def markBlob (eaMap : List UInt8) (b : Nat) : Except Stop (List UInt8) :=
  if b / 8 < eaSize then .ok (pwrite eaMap (b / 8) [byteAt eaMap (b / 8) ||| bitMask b]) else .error .outside

def markRun (entry k : Nat) (eaMap : List UInt8) : Except Stop (List UInt8) :=
  (List.range k).foldlM (fun eaMap j => markBlob eaMap (entry + j)) eaMap

structure Walk where
  entcount : Nat
  eaMap : List UInt8
  havedot : Bool
  havedotdot : Bool

variable (beyond : Beyond)

/-- One hash chain. The fuel is more than `maxents`, where the count of entries stops the loop. -/
def walkChain (d : DirFile) (i maxents : Nat) : Nat → Nat → Walk → Except Stop Walk
  | 0, _, _ => .error .bad
  | fuel + 1, entry, w =>
    if entry = 0 then .ok w
    else do
      require (entry < maxents)
      require (hasPage d (entry / epp) = true)
      let ne := shortAt d (nextAt entry)
      require (w.entcount + 1 < maxents)
      let name := cString beyond d (nameAt entry)
      require (name ≠ [])
      require (byteAt d (flagAt entry) = fFirst)
      require (name.length < 256)
      let eaMap ← markRun entry (nameBlobs name) w.eaMap
      require (dirHash name = i)
      require (entry = 13 → name = dot)
      require (entry = 14 → name = dotdot)
      walkChain d i maxents fuel ne
        ⟨w.entcount + 1, eaMap, w.havedot || entry = 13, w.havedotdot || entry = 14⟩

def comparePage (d : DirFile) (eaMap : List UInt8) (i : Nat) : Except Stop Unit := do
  require (hasPage d i = true)
  (List.range (epp / 8)).forM fun j =>
    if eaSize ≤ i * (epp / 8) + j then .error .outside
    else require (byteAt eaMap (i * (epp / 8) + j) = byteAt d (freebitmapAt i + j))

def dirOK (d : DirFile) : Except Stop Unit := do
  require (hasPage d 0 = true)
  require (shortAt d (tagAt 0) = 1234)
  let up ← checkAlloMap d (List.range maxPages) 0 false
  let usedPages := computeUsedPages d
  require (up ≤ usedPages)
  (List.range usedPages).forM (checkPage d)
  let maxents := usedPages * epp
  let w ← (List.range nHashEnt).foldlM
    (fun w i => walkChain beyond d i maxents (maxents + 1) (shortAt d (hashTableAt i)) w)
    ⟨0, initEaMap usedPages, false, false⟩
  require (w.havedot = true ∧ w.havedotdot = true)
  (List.range usedPages).forM (comparePage d w.eaMap)

end OpenAFS.Dir
