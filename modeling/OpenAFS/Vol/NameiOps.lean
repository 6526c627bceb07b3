import Mathlib.Logic.Function.Basic
import Mathlib.Tactic.Tauto

namespace OpenAFS.Vol.Namei

abbrev Inode := BitVec 64

abbrev Row := BitVec 16

/-- A volume special file or data file; a link table has a row for every vnode, behind its stamp. -/
structure File where
  /-- What `SetOGM` puts into owner, group and mode. -/
  parm : BitVec 32 := 0
  rows : List (Row) := []
  deriving DecidableEq

/-- `n_path`: the volume directory and the inode. -/
abbrev Name := BitVec 32 × Inode

abbrev Disk := Name → Option File

/-- The system calls, those of the cleanup in `namei_icreate` left out: it is after a failure that they are made. -/
inductive Op
  | partition
  | open
  | lock
  | seek
  | read
  | seekBack
  | write
  | create
  | mkdir
  | createAgain
  | chown
  | chmod
  | setLock
  | setSeek
  | setRead (short : Bool)
  | setSeekBack
  | setWrite
  | getOgm
  | unlink
  deriving DecidableEq

/-- Whether one of the calls is the one that fails. -/
def Hits (fail : Option Op) (ops : List Op) : Prop := ∃ op ∈ ops, fail = some op

instance (fail : Option Op) (ops : List Op) : Decidable (Hits fail ops) := inferInstanceAs (Decidable (∃ op ∈ ops, fail = some op))

def vnodeMask : BitVec 64 := 0x3ffffff
def inodeSpecial : Inode := vnodeMask
def viLinkTable : Nat := 6
def maxVols : Nat := 5

/-- The row and the column of `namei_GetLCOffsetAndIndexFromIno` -/
def vnode (ino : Inode) : Nat := (ino &&& vnodeMask).toNat
def tagOf (ino : Inode) : Nat := (ino >>> 26 &&& 7).toNat

def makeSpecIno (volid type : BitVec 32) : Inode :=
  inodeSpecial ||| (type &&& 7).setWidth 64 <<< 26 ||| volid.setWidth 64 <<< 32

def dataIno (p2 p3 : BitVec 32) (tag : Nat) : Inode := p2.setWidth 64 ||| BitVec.ofNat 64 tag <<< 26 ||| p3.setWidth 64 <<< 32

def column (tag : Nat) : Row := (7 : Row) <<< (3 * tag)

def freeColumn (row : Row) : Option Nat := (List.range maxVols).find? fun col => row &&& column col = 0

namespace File

variable (f : File)

def row (vno : Nat) : Row := f.rows.getD vno 0

/-- A row that is written behind the end leaves a hole. -/
def setRow (vno : Nat) (row : Row) : File :=
  { f with rows := (f.rows ++ List.replicate (vno + 1 - f.rows.length) 0).set vno row }

def linkCount (vno tag : Nat) : Row := f.row vno >>> (3 * tag) &&& 7

def links (ino : Inode) : Row := f.linkCount (vnode ino) (tagOf ino)

def setLinks (ino : Inode) (count : Row) : File :=
  f.setRow (vnode ino) (f.row (vnode ino) &&& ~~~column (tagOf ino) ||| count <<< (3 * tagOf ino))

def claim (vno col : Nat) : File := f.setRow vno (f.row vno ||| (1 : Row) <<< (3 * col))

end File

section

-- the system call that fails
variable (fail : Option Op)

/-- `namei_GetLinkCount` with the lock; `none` is -1. -/
def getLinkCount (f : File) (ino : Inode) : Option (Row) :=
  if Hits fail [.lock, .seek, .read] then none
  else if vnode ino < f.rows.length then some (f.links ino)
  else none

/-- A seek or a write that fails after the read leaves what was read as the code. -/
def setLinkCount (f : File) (ino : Inode) (count : Row) (locked : Bool) : Int × File :=
  if locked = false ∧ Hits fail [.setLock] ∨ Hits fail [.setSeek, .setRead false] then (-1, f)
  else if Hits fail [.setRead true] then (1, f)
  else if Hits fail [.setSeekBack, .setWrite] then (if vnode ino < f.rows.length then 2 else 0, f)
  else (0, f.setLinks ino count)

def getFreeTag (f : File) (vno : Nat) : Option (Nat × File) :=
  if Hits fail [.lock, .seek, .read] then none
  else
    match freeColumn (f.row vno) with
    | none => none
    | some col => if Hits fail [.seekBack, .write] then none else some (col, f.claim vno col)

def ihOpen (d : Disk) (name : Name) : Option File := if Hits fail [.open] then none else d name

/-- The new file and its owner, group and mode; `noDir` says that its directories are still to be made. -/
def createFile (noDir : Bool) (d : Disk) (name : Name) (parm : BitVec 32) : Bool × Disk :=
  if Hits fail [.create] ∨ noDir ∧ Hits fail [.mkdir, .createAgain] ∨ (d name).isSome then (false, d)
  else if Hits fail [.chown] then (false, Function.update d name (some {}))
  else if Hits fail [.chmod] then (false, Function.update d name (some { parm := parm &&& 0x3fffffff }))
  else (true, Function.update d name (some { parm }))

variable (lh : Name) (d : Disk)

def cleanup (ino : Inode) : Disk :=
  match d lh with
  | none => d
  | some f => Function.update d lh (some (setLinkCount none f ino 0 false).2)

def icreateSpecial (noDir : Bool) (p1 p3 p4 : BitVec 32) : Option Inode × Disk :=
  let ino := makeSpecIno p1 p3
  match createFile fail noDir d (p4, ino) p1 with
  | (false, d) => (none, d)
  | (true, d) =>
    if p3.toNat = viLinkTable then
      let (code, f) := setLinkCount fail { parm := p1 } 0 1 false
      (if code = 0 then some ino else none, Function.update d (p4, ino) (some f))
    else (some ino, d)

def icreateData (noDir : Bool) (p1 p2 p3 p4 : BitVec 32) : Option Inode × Disk :=
  match (ihOpen fail d lh).bind fun f => getFreeTag fail f p2.toNat with
  | none => (none, cleanup lh d 0)
  | some (tag, f) =>
    let ino := dataIno p2 p3 tag
    match createFile fail noDir (Function.update d lh (some f)) (p1, ino) p4 with
    | (false, d) => (none, cleanup lh d ino)
    | (true, d) => (some ino, d)

/-- `namei_icreate`; `none` is -1. -/
def icreate (noDir : Bool) (p1 p2 p3 p4 : BitVec 32) : Option Inode × Disk :=
  if Hits fail [.partition] then (none, d)
  else if p2 = -1 then icreateSpecial fail d noDir p1 p3 p4
  else if p2.setWidth 64 &&& vnodeMask ≠ p2.setWidth 64 then (none, d)
  else icreateData fail lh d noDir p1 p2 p3 p4

/-- `unlink`; the directories of a link table go with it if they can. -/
def unlink (name : Name) : Int × Disk :=
  if Hits fail [.unlink] ∨ (d name).isNone then (-1, d) else (0, Function.update d name none)

/-- The count is read and written back less one; `none` if either gives -1. -/
def takeLink (f : File) (ino : Inode) : Option (Row × File) :=
  match getLinkCount fail f ino with
  | none => none
  | some count =>
    let (code, f) := setLinkCount fail f ino (if count = 0 then 0 else count - 1) true
    if code < 0 then none else some (count, f)

def decSpecial (ino : Inode) (p1 : BitVec 32) : Int × Disk :=
  match ihOpen fail d (lh.1, ino) with
  | none => (-1, d)
  | some f =>
    if Hits fail [.getOgm] ∨ f.parm ≠ p1 then (-1, d)
    else if tagOf ino = viLinkTable then
      match takeLink fail f 0 with
      | none => (-1, d)
      | some (count, f) =>
        let d := Function.update d (lh.1, ino) (some f)
        if count ≤ 1 then unlink fail d (lh.1, ino) else (0, d)
    else unlink fail d (lh.1, ino)

def dec (ino : Inode) (p1 : BitVec 32) : Int × Disk :=
  if ino &&& inodeSpecial = inodeSpecial then decSpecial fail lh d ino p1
  else
    match ihOpen fail d lh with
    | none => (-1, d)
    | some f =>
      match takeLink fail f ino with
      | none => (-1, d)
      | some (count, f) =>
        let d := Function.update d lh (some f)
        if count = 1 then unlink fail d (lh.1, ino) else (0, d)

def inc (ino : Inode) : Int × Disk :=
  if ino &&& inodeSpecial = inodeSpecial ∧ tagOf ino ≠ viLinkTable then (0, d)
  else
    let ino := if ino &&& inodeSpecial = inodeSpecial then 0 else ino
    match ihOpen fail d lh with
    | none => (-1, d)
    | some f =>
      match getLinkCount fail f ino with
      | none => (-1, d)
      | some count =>
        let (code, f) := setLinkCount fail f ino (if count = 7 then 7 else count + 1) true
        (if count = 7 ∨ code < 0 then -1 else 0, Function.update d lh (some f))

end

/-- There are the same files, and they have the same link counts. -/
structure Kept (d d' : Disk) : Prop where
  files : ∀ name, (d' name).isSome = (d name).isSome
  counts : ∀ name f f', d name = some f → d' name = some f' → ∀ vno tag, f'.linkCount vno tag = f.linkCount vno tag

inductive Call
  | icreate (noDir : Bool) (p1 p2 p3 p4 : BitVec 32)
  | inc (ino : Inode)
  | dec (ino : Inode) (p1 : BitVec 32)

def Call.FailedKeeps (fail : Option Op) (lh : Name) (d : Disk) : Call → Prop
  | .icreate noDir p1 p2 p3 p4 =>
    (Namei.icreate fail lh d noDir p1 p2 p3 p4).1 = none → Kept d (Namei.icreate fail lh d noDir p1 p2 p3 p4).2
  | .inc ino => (Namei.inc fail lh d ino).1 ≠ 0 → Kept d (Namei.inc fail lh d ino).2
  | .dec ino p1 => (Namei.dec fail lh d ino p1).1 ≠ 0 → Kept d (Namei.dec fail lh d ino p1).2

section

variable (row : Row) (k : Nat)

theorem seven_bit (j : Nat) : (7#16).getLsbD j = decide (j < 3) := by
  by_cases small : j < 16
  · revert j
    decide
  · rw [BitVec.getLsbD_of_ge _ _ (Nat.not_lt.mp small), decide_eq_false (by omega)]

theorem column_clear : (row &&& ~~~((7 : Row) <<< k)) >>> k &&& 7 = 0 := by
  apply BitVec.eq_of_getLsbD_eq
  intro i small
  simp [seven_bit]
  grind

theorem column_same : row &&& ~~~((7 : Row) <<< k) ||| (row >>> k &&& 7) <<< k = row := by
  apply BitVec.eq_of_getLsbD_eq
  intro i small
  simp [seven_bit]
  grind

theorem column_claimed (free : row &&& (7 : Row) <<< k = 0) :
    (row ||| (1 : Row) <<< k) &&& ~~~((7 : Row) <<< k) = row := by
  apply BitVec.eq_of_getLsbD_eq
  intro i small
  have bit := congrArg (fun x : Row => x.getLsbD i) free
  simp [seven_bit] at bit ⊢
  grind

end

namespace File

variable {f f' : File} {vno : Nat} {ino : Inode}

theorem row_setRow (f : File) (row : Row) (i : Nat) : (f.setRow vno row).row i = if i = vno then row else f.row i := by
  unfold setRow File.row
  simp only [List.getD_eq_getElem?_getD, List.getElem?_set, List.getElem?_append, List.getElem?_replicate, List.length_append,
    List.length_replicate, eq_comm (a := i)]
  split
  · rw [if_pos (by omega)]
    rfl
  split
  · rfl
  · rw [List.getElem?_eq_none (Nat.not_lt.mp ‹_›)]
    split <;> rfl

theorem linkCount_congr (rows : ∀ i, f'.row i = f.row i) (vno tag : Nat) : f'.linkCount vno tag = f.linkCount vno tag := by
  unfold linkCount
  rw [rows]

theorem links_outside (outside : f.rows.length ≤ vnode ino) : f.links ino = 0 := by
  have row : f.row (vnode ino) = 0 := by
    unfold File.row
    rw [List.getD_eq_getElem?_getD, List.getElem?_eq_none outside]
    rfl
  unfold links linkCount
  rw [row]
  simp

theorem setLinks_same (f : File) (ino : Inode) (i : Nat) : (f.setLinks ino (f.links ino)).row i = f.row i := by
  unfold setLinks
  rw [row_setRow]
  by_cases here : i = vnode ino
  · rw [if_pos here, here]
    exact column_same ..
  · rw [if_neg here]

theorem links_zeroed (f : File) (ino : Inode) : (f.setLinks ino 0).links ino = 0 := by
  have zeroed (row : Row) (k : Nat) : row &&& ~~~column k ||| (0 : Row) <<< (3 * k) = row &&& ~~~column k := by simp
  unfold links linkCount setLinks
  rw [row_setRow, if_pos rfl, zeroed]
  exact column_clear ..

theorem claim_undone {tag : Nat} (clear : f.row vno &&& column tag = 0) (row : vnode ino = vno) (col : tagOf ino = tag) (i : Nat) :
    ((f.claim vno tag).setLinks ino 0).row i = f.row i := by
  unfold setLinks claim
  rw [row, col, row_setRow, row_setRow, if_pos rfl, row_setRow]
  by_cases here : i = vno
  · rw [if_pos here, here]
    have undone := column_claimed (f.row vno) (3 * tag) clear
    simpa [column] using undone
  · rw [if_neg here, if_neg here]

end File

section

variable {fail : Option Op} {lh name other : Name} {d d' : Disk} {f f' : File} {ino : Inode} {ops ops' : List Op}

theorem Hits.common (hits : Hits fail ops) (hits' : Hits fail ops') : ∃ op ∈ ops, op ∈ ops' := by
  obtain ⟨op, among, rfl⟩ := hits
  obtain ⟨op', among', same⟩ := hits'
  cases same
  exact ⟨op, among, among'⟩

theorem Hits.mono (hits : Hits fail ops) (within : ∀ op ∈ ops, op ∈ ops') : Hits fail ops' :=
  hits.imp fun op both => ⟨within op both.1, both.2⟩

theorem hits_append (ops ops' : List Op) : Hits fail (ops ++ ops') ↔ Hits fail ops ∨ Hits fail ops' := by
  simp only [Hits, List.mem_append, or_and_right, exists_or]

theorem setLinkCount_none (f : File) (ino : Inode) (count : Row) (locked : Bool) :
    setLinkCount none f ino count locked = (0, f.setLinks ino count) := by
  have no (ops : List Op) : ¬ Hits none ops := by simp [Hits]
  unfold setLinkCount
  rw [if_neg (by simp [no]), if_neg (no _), if_neg (no _)]

/-- The calls between the lock and the end of `namei_SetLinkCount` -/
def setOps : List Op := [.setSeek, .setRead false, .setRead true, .setSeekBack, .setWrite]

theorem setLinkCount_cases (fail : Option Op) (f : File) (ino : Inode) (count : Row) :
    Hits fail setOps ∧ (setLinkCount fail f ino count true).2 = f ∨
      ¬ Hits fail setOps ∧ setLinkCount fail f ino count true = (0, f.setLinks ino count) := by
  unfold setLinkCount
  by_cases early : true = false ∧ Hits fail [.setLock] ∨ Hits fail [.setSeek, .setRead false]
  · rw [if_pos early]
    exact .inl ⟨(early.resolve_left fun no => nomatch no.1).mono (by decide), rfl⟩
  rw [if_neg early]
  by_cases short : Hits fail [.setRead true]
  · rw [if_pos short]
    exact .inl ⟨short.mono (by decide), rfl⟩
  rw [if_neg short]
  by_cases late : Hits fail [.setSeekBack, .setWrite]
  · rw [if_pos late]
    exact .inl ⟨late.mono (by decide), rfl⟩
  rw [if_neg late]
  refine .inr ⟨fun hits => ?_, rfl⟩
  rcases (hits_append [.setSeek, .setRead false] _).mp hits with first | rest
  · exact early (.inr first)
  · exact ((hits_append [.setRead true] _).mp rest).elim short late

theorem update_isSome (was : d name = some f) (f' : File) (other : Name) :
    (Function.update d name (some f') other).isSome = (d other).isSome := by
  by_cases same : other = name
  · rw [same, Function.update_self, was]
    rfl
  · rw [Function.update_of_ne same]

theorem Kept.refl (d : Disk) : Kept d d where
  files := fun _ => rfl
  counts := fun name f f' was is vno tag => by rw [Option.some.inj (was.symm.trans is)]

theorem Kept.update (was : d name = some f) (rows : ∀ i, f'.row i = f.row i) : Kept d (Function.update d name (some f')) where
  files := update_isSome was f'
  counts := fun other g g' had has vno tag => by
    by_cases same : other = name
    · subst same
      rw [Function.update_self] at has
      cases was.symm.trans had
      cases has
      exact File.linkCount_congr rows vno tag
    · rw [Function.update_of_ne same] at has
      rw [Option.some.inj (had.symm.trans has)]

theorem Kept.zeroed_iff (was : d name = some f) (ino : Inode) :
    Kept d (Function.update d name (some (f.setLinks ino 0))) ↔ f.links ino = 0 := by
  refine ⟨fun kept => ?_, fun zero => Kept.update was ?_⟩
  · have count := kept.counts name f _ was (Function.update_self ..) (vnode ino) (tagOf ino)
    exact count.symm.trans (f.links_zeroed ino)
  · rw [← zero]
    exact f.setLinks_same ino

theorem not_kept_new (absent : d name = none) (new : (d' name).isSome) : ¬ Kept d d' := by
  intro kept
  have files := kept.files name
  rw [absent, new] at files
  cases files

theorem cleanup_kept (lh : Name) (d : Disk) (ino : Inode) :
    Kept d (cleanup lh d ino) ↔ ∀ f, d lh = some f → f.links ino = 0 := by
  unfold cleanup
  cases table : d lh with
  | none => simp [Kept.refl]
  | some f =>
    exact (Kept.zeroed_iff table ino).trans ⟨fun zero g same => Option.some.inj same ▸ zero, fun zero => zero f rfl⟩

theorem cleanup_isSome (lh : Name) (d : Disk) (ino : Inode) (name : Name) : (cleanup lh d ino name).isSome = (d name).isSome := by
  unfold cleanup
  cases table : d lh with
  | none => rfl
  | some f => exact update_isSome table ..

theorem opened (found : ihOpen fail d name = some f) : d name = some f ∧ ¬ Hits fail [.open] := by
  unfold ihOpen at found
  grind

theorem createFile_cases (fail : Option Op) (noDir : Bool) (d : Disk) (name : Name) (parm : BitVec 32) :
    (Hits fail [.chown, .chmod] ∧ d name = none ∧
      ∃ f, createFile fail noDir d name parm = (false, Function.update d name (some f))) ∨
    (createFile fail noDir d name parm = (false, d) ∧ ((d name).isSome ∨ Hits fail [.create, .mkdir, .createAgain])) ∨
    (¬ Hits fail [.chown, .chmod] ∧ d name = none ∧
      createFile fail noDir d name parm = (true, Function.update d name (some { parm }))) := by
  unfold createFile
  by_cases early : Hits fail [.create] ∨ noDir ∧ Hits fail [.mkdir, .createAgain] ∨ (d name).isSome
  · rw [if_pos early]
    refine .inr (.inl ⟨rfl, ?_⟩)
    rcases early with hits | ⟨-, hits⟩ | there
    · exact .inr (hits.mono (by decide))
    · exact .inr (hits.mono (by decide))
    · exact .inl there
  rw [if_neg early]
  have absent : d name = none := by
    rw [← Option.not_isSome_iff_eq_none]
    tauto
  by_cases chown : Hits fail [.chown]
  · rw [if_pos chown]
    exact .inl ⟨chown.mono (by decide), absent, _, rfl⟩
  rw [if_neg chown]
  by_cases chmod : Hits fail [.chmod]
  · rw [if_pos chmod]
    exact .inl ⟨chmod.mono (by decide), absent, _, rfl⟩
  · rw [if_neg chmod]
    exact .inr (.inr ⟨fun hits => ((hits_append [.chown] _).mp hits).elim chown chmod, absent, rfl⟩)

end

end OpenAFS.Vol.Namei
