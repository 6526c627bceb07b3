import OpenAFS.Vlserver.Servers

namespace OpenAFS.Vlserver

open Function (update)
open Lib

inductive AddrError where
  | perm
  | badMask
  | noEnt
  | indexRange
  | io
  | repsFull
  | createFail
  | badServer
  | idExist
  | multiAddr
  | empty
  | badVersion
  /-- The -1 for a number that stands for no entry. -/
  | internal
  /-- Not a code: the server takes an entry out of memory that is not there. -/
  | fault
  deriving DecidableEq, Repr

/-- `VLCONTBLOCK` and `VL_ADDREXTBLK_SIZE`. -/
def vlContBlock : UInt32 := 8
def vlAddrExtBlkSize : Nat := 8192

abbrev Place := Nat × Nat

def ExtentBlock.modify (block : ExtentBlock) (index : Nat) (change : ExtentAddr → ExtentAddr) : ExtentBlock :=
  { block with server := update block.server index (change (block.server index)) }

namespace Globals

def entry (g : Globals) (p : Place) : Option ExtentAddr := (g.exAddr p.1).map fun block => block.server p.2

def modifyEntry (g : Globals) (p : Place) (change : ExtentAddr → ExtentAddr) : Globals :=
  { g with exAddr := update g.exAddr p.1 ((g.exAddr p.1).map fun block => block.modify p.2 change) }

/-- `ex_addr[0]->ex_contaddrs[base]`, if the first block is in memory. -/
def contaddr (g : Globals) (base : Nat) : Option Nat := (g.exAddr 0).map fun block => block.contaddrs base

end Globals

/-- A transaction: what is in memory and what is on the disk, and how many more writes succeed in it. None does in a transaction
    that only reads. -/
structure TableState where
  mem : Globals := {}
  header : VlHeader := {}
  block : Nat → ExtentBlock := fun _ => {}
  writes : Nat := 0

def TableState.modifyBlock (s : TableState) (blockindex : Nat) (change : ExtentBlock → ExtentBlock) : TableState :=
  { s with block := update s.block blockindex (change (s.block blockindex)) }

def TableState.putSlot (s : TableState) (i : Nat) : TableState :=
  { s with header.ipMappedAddr := update s.header.ipMappedAddr i (s.mem.cheader.ipMappedAddr i) }

abbrev TableM := ExceptT AddrError (StateM TableState)

def TableM.exec {α : Type} (m : TableM α) (s : TableState) : Except AddrError α × TableState := m.run.run s

def liftExcept {α : Type} (x : Except AddrError α) : TableM α := ExceptT.mk (pure x)

def modifyMem (change : Globals → Globals) : TableM Unit := modify fun s => { s with mem := change s.mem }

def vlwrite (change : TableState → TableState) : TableM Unit := do
  let s ← get
  if s.writes = 0 then throw .io
  set { change s with writes := s.writes - 1 }

/-- `write_vital_vlheader`: all of the header up to the table of the servers. -/
def writeVitalVlheader : TableM Unit := vlwrite fun s =>
  { s with header := { s.mem.cheader with ipMappedAddr := s.header.ipMappedAddr, sit := s.header.sit } }

def deref {α : Type} : Option α → TableM α
  | none => throw .fault
  | some x => pure x

/-- An entry of an extension block on the disk is changed, where the first block says that its block lies. -/
def writeEntry (p : Place) (change : ExtentAddr → ExtentAddr) : TableM Unit := do
  let contaddr ← deref ((← get).mem.contaddr p.1)
  vlwrite fun s => s.modifyBlock contaddr fun block => block.modify p.2 change

def getExtentBlock (base : Nat) : TableM Unit := do
  let g := (← get).mem
  if base ≠ 0 ∧ g.exAddr 0 = none then throw .createFail
  if g.exAddr 0 = none ∨ g.contaddr base = some 0 then
    modifyMem fun g => { g with exAddr := update g.exAddr base (some { flags := vlContBlock }) }
    let blockindex := g.cheader.eofPtr
    vlwrite fun s => s.modifyBlock blockindex fun _ => { flags := vlContBlock }
    modifyMem fun g => { g with cheader.eofPtr := blockindex + vlAddrExtBlkSize }
    writeVitalVlheader
    if base = 0 then
      modifyMem fun g => { g with cheader.sit := blockindex }
      vlwrite fun s => { s with header.sit := s.mem.cheader.sit }
    modifyMem fun g => { g with exAddr := update g.exAddr 0 ((g.exAddr 0).map fun block =>
      { block with contaddrs := update block.contaddrs base blockindex }) }
    -- the first entry of the block is written, in which these words lie
    let first ← deref ((← get).mem.exAddr 0)
    vlwrite fun s => s.modifyBlock s.mem.cheader.sit fun block =>
      { block with flags := first.flags, contaddrs := first.contaddrs }

namespace Globals

/-- A number that is too large for `FindExtentBlock`, which lets one pass that is too large by one. -/
def Outside (host : UInt32) : Prop := maxAddrExtBlks < extentBase host ∨ mhSrvPerBlk < extentIndex host

instance (host : UInt32) : Decidable (Outside host) := by unfold Outside; infer_instance

def findUuid (g : Globals) (uuid : Uuid) : List Nat → Except AddrError (Option Place)
  | [] => .ok none
  | i :: rest =>
    if isMultiHomed (g.hostAddress i) then
      if Outside (g.hostAddress i) then .error .indexRange
      else match g.extentAddr (g.hostAddress i) with
        | none => .error .fault
        | some exp =>
          if exp.hostUuid = uuid then .ok (some (extentBase (g.hostAddress i), extentIndex (g.hostAddress i)))
          else findUuid g uuid rest
    else findUuid g uuid rest

def freePlace (g : Globals) (base : Nat) : Option Nat :=
  (List.range mhSrvPerBlk).find? fun j => 1 ≤ j ∧ (g.entry (base, j)).any (·.hostUuid = 0)

end Globals

/-- A place that holds no server is taken for one, in slot `i` of the table. -/
def takePlace (uuid : Uuid) (i : Nat) (p : Place) : TableM Unit := do
  modifyMem fun g => g.modifyEntry p fun exp => { exp with hostUuid := uuid }
  writeEntry p fun exp => { exp with hostUuid := uuid }
  modifyMem fun g => { g with hostAddress := update g.hostAddress i (extentHost p.1 p.2) }
  if (← get).mem.cheader.vldbVersion ≠ 4 then
    modifyMem fun g => { g with cheader.vldbVersion := 4 }
    writeVitalVlheader
  modifyMem fun g => { g with cheader.ipMappedAddr := update g.cheader.ipMappedAddr i (g.hostAddress i) }
  vlwrite fun s => s.putSlot i

/-- The loop of `FindExtentBlock` that looks for a place that holds no server, and makes a block where there is none. -/
def createExtent (uuid : Uuid) (i : Nat) : List Nat → TableM (Option Place)
  | [] => throw .repsFull
  | base :: rest => do
    if (← deref ((← get).mem.contaddr base)) = 0 then getExtentBlock base
    let _ ← deref ((← get).mem.exAddr base)
    match (← get).mem.freePlace base with
    | none => createExtent uuid i rest
    | some j =>
      takePlace uuid i (base, j)
      pure (some (base, j))

def findExtentBlock (uuid : Uuid) (createit : Bool) (hostslot : Option Nat) : TableM (Option Place) := do
  if (← get).mem.cheader.sit = 0 then getExtentBlock 0
  let g := (← get).mem
  match g.findUuid uuid slots with
  | .error e => throw e
  | .ok (some p) => pure (some p)
  | .ok none =>
    if createit then
      match hostslot <|> slots.find? (fun i => g.hostAddress i = 0) with
      | none => throw .repsFull
      | some i => createExtent uuid i (List.range maxAddrExtBlks)
    else pure none

theorem ExtentAddr.mem_list (exp : ExtentAddr) {a : UInt32} : a ∈ exp.list ↔ a ≠ 0 ∧ ∃ j < maxIpAddrsPerMh, exp.addrs j = a := by
  simp [list, and_comm]

variable (p : Place)

namespace Globals

variable {g : Globals}

theorem extentAddr_outside {host : UInt32} (outside : Outside host) : g.extentAddr host = none := by
  refine if_neg fun inside => ?_
  rcases outside with high | high
  · exact absurd inside.1 (by omega)
  · exact absurd inside.2 (by omega)

theorem modifyEntry_exAddr (base : Nat) (change : ExtentAddr → ExtentAddr) : (g.modifyEntry p change).exAddr base =
      (g.exAddr base).map fun block => if base = p.1 then block.modify p.2 change else block := by
  unfold modifyEntry
  by_cases here : base = p.1
  · subst here
    simp
  · simp [here]

theorem modifyEntry_entry (q : Place) (change : ExtentAddr → ExtentAddr) :
    (g.modifyEntry p change).entry q = (g.entry q).map fun exp => if q = p then change exp else exp := by
  unfold entry
  rw [modifyEntry_exAddr]
  cases g.exAddr q.1 with
  | none => rfl
  | some block =>
    simp only [Option.map_some, Option.some.injEq, Prod.ext_iff, ExtentBlock.modify]
    by_cases base : q.1 = p.1
    · by_cases index : q.2 = p.2
      · simp [base, index]
      · simp [base, index]
    · simp [base]

theorem modifyEntry_extentAddr (host : UInt32) (change : ExtentAddr → ExtentAddr) :
    (g.modifyEntry p change).extentAddr host =
      (g.extentAddr host).map fun exp => if (extentBase host, extentIndex host) = p then change exp else exp := by
  unfold extentAddr
  split
  · exact modifyEntry_entry p (extentBase host, extentIndex host) change
  · rfl

theorem modifyEntry_contaddr (base : Nat) (change : ExtentAddr → ExtentAddr) :
    (g.modifyEntry p change).contaddr base = g.contaddr base := by
  unfold contaddr
  rw [modifyEntry_exAddr, Option.map_map]
  refine congrFun (congrArg Option.map ?_) _
  funext block
  split <;> rfl

theorem extentAddr_some {host : UInt32} {exp : ExtentAddr} (there : g.extentAddr host = some exp) :
    extentBase host < maxAddrExtBlks ∧ extentIndex host < mhSrvPerBlk ∧
      g.entry (extentBase host, extentIndex host) = some exp := by
  unfold extentAddr at there
  split at there
  · next inside => exact ⟨inside.1, inside.2, there⟩
  · cases there

end Globals

namespace TableM

variable {α β : Type} (s : TableState)

theorem exec_bind (m : TableM α) (f : α → TableM β) : TableM.exec (m >>= f) s = match m.exec s with
      | (.error e, s') => (.error e, s')
      | (.ok a, s') => (f a).exec s' := by
  unfold TableM.exec
  simp only [ExceptT.run_bind, StateT.run_bind]
  rcases m.run.run s with ⟨_ | a, s'⟩ <;> rfl

@[simp] theorem exec_pure (a : α) : TableM.exec (pure a) s = (.ok a, s) := rfl

@[simp] theorem exec_throw (e : AddrError) : TableM.exec (throw e : TableM α) s = (.error e, s) := rfl

@[simp] theorem exec_get : TableM.exec get s = (.ok s, s) := rfl

@[simp] theorem exec_modifyMem (change : Globals → Globals) :
    (modifyMem change).exec s = (.ok (), { s with mem := change s.mem }) := rfl

@[simp] theorem exec_liftExcept (x : Except AddrError α) : (liftExcept x).exec s = (x, s) := rfl

@[simp] theorem exec_deref_some (a : α) : (deref (some a)).exec s = (.ok a, s) := rfl

@[simp] theorem exec_deref_none : (deref (none : Option α)).exec s = (.error .fault, s) := rfl

theorem exec_vlwrite (change : TableState → TableState) : (vlwrite change).exec s =
      if s.writes = 0 then (.error .io, s) else (.ok (), { change s with writes := s.writes - 1 }) := by
  unfold vlwrite
  simp only [exec_bind, exec_get]
  split <;> rfl

theorem exec_writeEntry (change : ExtentAddr → ExtentAddr) : (writeEntry p change).exec s =
      match s.mem.contaddr p.1 with
      | none => (.error .fault, s)
      | some contaddr =>
        if s.writes = 0 then (.error .io, s)
        else (.ok (), { s.modifyBlock contaddr fun block => block.modify p.2 change with writes := s.writes - 1 }) := by
  unfold writeEntry
  simp only [exec_bind, exec_get]
  cases s.mem.contaddr p.1 with
  | none => rfl
  | some contaddr => exact exec_vlwrite ..

end TableM

end OpenAFS.Vlserver
