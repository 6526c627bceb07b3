import Mathlib.Data.BitVec

namespace OpenAFS.Kauth

abbrev Name := List (BitVec 8)

abbrev EncryptionKey := BitVec 64

abbrev Date := BitVec 32

def hashSize : Nat := 8191
def headerSize : Nat := 32832
def entrySize : Nat := 200
def nOldKeys : Nat := 11
def maxKaKvno : Int := 127
def neverDate : Date := 0xffffffff

def kafFree : BitVec 32 := 0x002
def kafOldKeys : BitVec 32 := 0x010
def kafSpecial : BitVec 32 := 0x100

/-- What a block of kind kaentry has apart from its first two words. -/
structure KaEntry where
  name : Name := []
  instance_ : Name := []
  key : EncryptionKey := 0
  keyVersion : Int := 0
  oldKeys : Nat := 0
  nOldKeys : Nat := 0
  deriving DecidableEq

structure OldKey where
  superseded : Date := 0
  version : Int := 0
  key : EncryptionKey := 0
  deriving DecidableEq

inductive Body where
  | entry (e : KaEntry)
  | oldKeys (entry : Nat) (keys : List OldKey)
  deriving DecidableEq

structure Block where
  flags : BitVec 32 := 0
  next : Nat := 0
  body : Body := .entry {}
  deriving DecidableEq

namespace Block

def asEntry (b : Block) : KaEntry :=
  match b.body with
  | .entry e => e
  | .oldKeys .. => {}

def entryOf (b : Block) : Nat :=
  match b.body with
  | .entry _ => 0
  | .oldKeys entry _ => entry

def keys (b : Block) : List OldKey :=
  match b.body with
  | .entry _ => List.replicate nOldKeys {}
  | .oldKeys _ keys => keys

end Block

structure KaDb where
  freePtr : Nat
  eofPtr : Nat
  kvnoPtr : Nat
  nameHash : Nat → Nat
  block : Nat → Block

inductive Slot where
  | freePtr
  | kvnoPtr
  | nameHash (i : Nat)
  | next (b : Nat)
  deriving DecidableEq

def NameHash (name inst : Name) : Nat :=
  let add (s : Name) (hash : BitVec 32) : BitVec 32 := s.foldr (fun c h => h * 31 + (c.setWidth 32 - 31)) hash
  (add inst (add name 0)).toNat % hashSize

theorem NameHash_lt (name inst : Name) : NameHash name inst < hashSize := Nat.mod_lt _ (by decide)

namespace KaDb

def init : KaDb where
  freePtr := 0
  eofPtr := headerSize
  kvnoPtr := 0
  nameHash _ := 0
  block _ := {}

def put (db : KaDb) (b : Nat) (x : Block) : KaDb := { db with block := Function.update db.block b x }

def load (db : KaDb) : Slot → Nat
  | .freePtr => db.freePtr
  | .kvnoPtr => db.kvnoPtr
  | .nameHash i => db.nameHash i
  | .next b => (db.block b).next

def store (db : KaDb) (v : Nat) : Slot → KaDb
  | .freePtr => { db with freePtr := v }
  | .kvnoPtr => { db with kvnoPtr := v }
  | .nameHash i => { db with nameHash := Function.update db.nameHash i v }
  | .next b => db.put b { db.block b with next := v }

def indexOK (db : KaDb) (index : Nat) : Bool :=
  ¬ (index < headerSize ∨ index ≥ db.eofPtr ∨ (index - headerSize) % entrySize ≠ 0)

def allocBlock (db : KaDb) : KaDb × Nat :=
  if db.freePtr ≠ 0 then
    (db.store (db.block db.freePtr).next .freePtr, db.freePtr)
  else
    ({ db with eofPtr := db.eofPtr + entrySize }, db.eofPtr)

def freeBlock (db : KaDb) (index : Nat) : Option KaDb :=
  if db.indexOK index then
    some ((db.store index .freePtr).put index { flags := kafFree, next := db.freePtr })
  else
    none

def findFrom (db : KaDb) (name inst : Name) : Nat → Nat → Option Nat
  | 0, _ => none
  | fuel + 1, index =>
    if index = 0 then
      some 0
    else if (db.block index).asEntry.name = name ∧ (db.block index).asEntry.instance_ = inst then
      some index
    else
      findFrom db name inst fuel (db.block index).next

def findBlock (db : KaDb) (name inst : Name) : Option Nat :=
  db.findFrom name inst db.eofPtr (db.nameHash (NameHash name inst))

def threadBlock (db : KaDb) (index : Nat) (tentry : Block) : Option KaDb :=
  if db.indexOK index then
    let hi := NameHash tentry.asEntry.name tentry.asEntry.instance_
    some ((db.store index (.nameHash hi)).put index { tentry with next := db.nameHash hi })
  else
    none

def unthreadFrom (db : KaDb) (name inst : Name) : Nat → Slot → Nat → Option KaDb
  | 0, _, _ => none
  | fuel + 1, lo, index =>
    if index = 0 then
      none
    else if (db.block index).asEntry.name = name ∧ (db.block index).asEntry.instance_ = inst then
      some (db.store (db.block index).next lo)
    else
      unthreadFrom db name inst fuel (.next index) (db.block index).next

def unthreadBlock (db : KaDb) (aentry : Block) : Option KaDb :=
  let i := NameHash aentry.asEntry.name aentry.asEntry.instance_
  db.unthreadFrom aentry.asEntry.name aentry.asEntry.instance_ db.eofPtr (.nameHash i) (db.nameHash i)

/-- The loop of NextBlock: the first block that is in use as an entry, and the estimate of how many are left. -/
def nextFrom (db : KaDb) : Nat → Nat → Option (Nat × Int)
  | 0, _ => none
  | fuel + 1, index =>
    if index < db.eofPtr then
      if (db.block index).flags &&& (kafFree ||| kafOldKeys) = 0 then
        some (index, ((db.eofPtr - index) / entrySize : Nat) - 1)
      else
        nextFrom db fuel (index + entrySize)
    else
      some (0, 0)

def nextBlock (db : KaDb) (index : Nat) : Option (Nat × Int) :=
  if index = 0 then
    db.nextFrom (db.eofPtr + 1) headerSize
  else if db.indexOK index then
    db.nextFrom (db.eofPtr + 1) (index + entrySize)
  else
    some (0, -1)

def ageKey (maxKeyLifetime : Nat) (now : Date) (newKeyVer : Int) (k : OldKey) : OldKey × Bool :=
  let (k, modified) := if k.superseded = neverDate then ({ k with superseded := now }, true) else (k, false)
  if k.version = newKeyVer ∨ (now - k.superseded).toNat > maxKeyLifetime then
    ({ superseded := 0, version := -1, key := 0 }, true)
  else
    (k, modified)

structure Scan where
  keys : List OldKey := []
  modified : Bool := false
  keyEntries : Nat := 0
  added : Bool
  deriving DecidableEq

def scanKeys (maxKeyLifetime : Nat) (now : Date) (newKeyVer : Int) (key : EncryptionKey) : Bool → List OldKey → Scan
  | added, [] => { added := added }
  | added, k :: rest =>
    let (k, modified) := ageKey maxKeyLifetime now newKeyVer k
    let free : Bool := ¬ added ∧ k.superseded = 0
    let k := if free then { superseded := neverDate, version := newKeyVer, key := key } else k
    let later := scanKeys maxKeyLifetime now newKeyVer key (added || free) rest
    { keys := k :: later.keys
      modified := modified || free || later.modified
      keyEntries := later.keyEntries + if k.superseded ≠ 0 then 1 else 0
      added := later.added }

/-- The loop of ka_NewKey over all old keys blocks: the address of the block that has the new key, 0 if none has, and
the number of keys of the entry. -/
def newKeyLoop (maxKeyLifetime : Nat) (tentryaddr : Nat) (now : Date) (newKeyVer : Int) (key : EncryptionKey) :
    Nat → KaDb → Slot → Nat → Nat → Nat → Option (KaDb × Nat × Nat)
  | 0, _, _, _, _, _ => none
  | fuel + 1, db, prevptr, okeysaddr, addednewkey, total =>
    if okeysaddr = 0 then
      some (db, addednewkey, total)
    else
      let okeys := db.block okeysaddr
      let nextaddr := okeys.next
      if okeys.entryOf ≠ tentryaddr then
        newKeyLoop maxKeyLifetime tentryaddr now newKeyVer key fuel db (.next okeysaddr) nextaddr addednewkey total
      else
        let scan := scanKeys maxKeyLifetime now newKeyVer key (addednewkey ≠ 0) okeys.keys
        let addednewkey := if addednewkey = 0 ∧ scan.added then okeysaddr else addednewkey
        let total := total + scan.keyEntries
        if scan.keyEntries ≠ 0 then
          let db := if scan.modified then db.put okeysaddr { okeys with body := .oldKeys okeys.entryOf scan.keys } else db
          newKeyLoop maxKeyLifetime tentryaddr now newKeyVer key fuel db (.next okeysaddr) nextaddr addednewkey total
        else do
          let db ← (db.store okeys.next prevptr).freeBlock okeysaddr
          newKeyLoop maxKeyLifetime tentryaddr now newKeyVer key fuel db prevptr nextaddr addednewkey total

def newKey (maxKeyLifetime : Nat) (db : KaDb) (tentryaddr : Nat) (tentry : Block) (key : EncryptionKey) (now : Date) :
    Option (KaDb × Block) := do
  let newKeyVer := tentry.asEntry.keyVersion + 1
  let newKeyVer := if newKeyVer < 1 ∨ newKeyVer ≥ maxKaKvno then 1 else newKeyVer
  let (db, addednewkey, total) ←
    newKeyLoop maxKeyLifetime tentryaddr now newKeyVer key db.eofPtr db .kvnoPtr db.kvnoPtr 0 0
  let (db, addednewkey, total) :=
    if addednewkey = 0 then
      let (db, added) := db.allocBlock
      let keys := (List.replicate nOldKeys ({} : OldKey)).set 0 { superseded := neverDate, version := newKeyVer, key := key }
      let okeys : Block := { flags := kafOldKeys, next := db.kvnoPtr, body := .oldKeys tentryaddr keys }
      ((db.store added .kvnoPtr).put added okeys, added, total + 1)
    else
      (db, addednewkey, total)
  some (db, { tentry with body := .entry { tentry.asEntry with
    oldKeys := addednewkey, nOldKeys := total, keyVersion := newKeyVer, key := key } })

def delKeyLoop (tentryaddr : Nat) : Nat → KaDb → Slot → Nat → Option KaDb
  | 0, _, _, _ => none
  | fuel + 1, db, prevptr, okeysaddr =>
    if okeysaddr = 0 then
      some db
    else
      let okeys := db.block okeysaddr
      let nextaddr := okeys.next
      if okeys.entryOf ≠ tentryaddr then
        delKeyLoop tentryaddr fuel db (.next okeysaddr) nextaddr
      else do
        let db ← (db.store okeys.next prevptr).freeBlock okeysaddr
        delKeyLoop tentryaddr fuel db prevptr nextaddr

def delKey (db : KaDb) (tentryaddr : Nat) : Option KaDb :=
  delKeyLoop tentryaddr db.eofPtr db .kvnoPtr db.kvnoPtr

end KaDb

end OpenAFS.Kauth
