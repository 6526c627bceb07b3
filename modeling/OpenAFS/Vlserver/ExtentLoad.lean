import OpenAFS.Ubik.Types
import OpenAFS.Vlserver.Extents

namespace OpenAFS.Vlserver

open Function (update update_self update_of_ne)
open Lib TableM OpenAFS.Ubik

/-- `readExtents` finds no good block at the address `contaddr`, which follows `prev`. The words are unsigned. -/
def BadContaddr (eofPtr prev contaddr : Nat) : Prop :=
  UInt32.ofNat contaddr < UInt32.ofNat prev + UInt32.ofNat vlAddrExtBlkSize ∨
    UInt32.ofNat eofPtr - UInt32.ofNat vlAddrExtBlkSize < UInt32.ofNat contaddr

instance (eofPtr prev contaddr : Nat) : Decidable (BadContaddr eofPtr prev contaddr) := by unfold BadContaddr; infer_instance

namespace Globals

variable (block : Nat → ExtentBlock) (g : Globals)

def dropContaddr (i : Nat) : Globals :=
  { g with
    exAddr := update g.exAddr 0 ((g.exAddr 0).map fun first =>
      { first with contaddrs := update first.contaddrs i 0 })
    extentMod := true }

/-- A turn of the loop of `readExtents`, which has read the first block. -/
def readExtent (i : Nat) : Globals :=
  match g.exAddr 0 with
  | none => g
  | some first =>
    if first.contaddrs i = 0 then g
    else if BadContaddr g.cheader.eofPtr (first.contaddrs (i - 1)) (first.contaddrs i) then g.dropContaddr i
    else if (block (first.contaddrs i)).flags ≠ vlContBlock then
      { g.dropContaddr i with exAddr := update (g.dropContaddr i).exAddr i none }
    else { g with exAddr := update g.exAddr i (some (block (first.contaddrs i))) }

/-- `readExtents`, but for its write. -/
def readExtents : Globals :=
  if g.cheader.sit = 0 then { g with extentMod := false }
  else
    (List.range' 1 (maxAddrExtBlks - 1)).foldl (readExtent block)
      { g with extentMod := false, exAddr := update g.exAddr 0 (some (block g.cheader.sit)) }

end Globals

/-- `readExtents`. The first block is written if an address in it was dropped; that the write fails is passed over. -/
def readExtents : TableM Unit := do
  modify fun s => { s with mem := s.mem.readExtents s.block }
  let s ← get
  if s.mem.extentMod ∧ s.writes ≠ 0 then
    let first ← deref (s.mem.exAddr 0)
    vlwrite fun s => s.modifyBlock s.mem.cheader.sit fun _ => first

def newHeader : VlHeader := { vldbVersion := 3, eofPtr := headerSize, maxVolumeId := 0x20000000 }

/-- The part of `CheckInit` that reads the database. -/
def readHeader : TableM Unit := do
  modify fun s => { s with mem.cheader := s.header }
  if (← get).mem.cheader.vldbVersion ≠ 0 then
    modifyMem fun g => { g with hostAddress := g.cheader.ipMappedAddr }
    readExtents

/-- Neither `VLDBVERSION` nor `OVLDBVERSION` nor `VLDBVERSION_4`. -/
def BadVersion (vldbversion : Nat) : Prop := vldbversion ≠ 3 ∧ vldbversion ≠ 2 ∧ vldbversion ≠ 4

instance (vldbversion : Nat) : Decidable (BadVersion vldbversion) := by unfold BadVersion; infer_instance

/-- The part of `CheckInit` that looks at the version, and makes a database where there is none. -/
def checkVersion (builddb : Bool) : TableM Unit := do
  let vldbversion := (← get).mem.cheader.vldbVersion
  if vldbversion = 0 then
    if builddb then
      modifyMem fun g => { g with cheader := newHeader, hostAddress := fun _ => 0 }
      vlwrite fun s => { s with header := s.mem.cheader }
    else throw .empty
  else if BadVersion vldbversion then throw .badVersion

/-- `CheckInit`; `update` is what `ubik_CacheUpdate` says. -/
def checkInit (update builddb : Bool) : TableM Unit := do
  if update then readHeader
  checkVersion builddb

@[simp] theorem TableM.exec_modify (s : TableState) (change : TableState → TableState) :
    TableM.exec (modify change) s = (.ok (), change s) := rfl

/-- A server that runs: the database as it is on its disk, the version of it, and what it keeps in memory, with the version that
    this was last known to be good for. -/
structure DbServer where
  header : VlHeader := {}
  block : Nat → ExtentBlock := fun _ => {}
  version : UbikVersion
  mem : Globals := {}
  cachedVersion : UbikVersion := ⟨0, 0⟩
  /-- There is no transaction before the database has a label. -/
  labelled : version.epoch ≠ 0

/-- How `ubik_EndTrans` ends: for good, with the database written here but not known to be elsewhere, or with an abort. -/
inductive Ending where
  | success
  | noQuorum
  | aborted
  deriving DecidableEq, Repr

/-- What a pass of `Init_VLdbase` meets: whether it gets its transaction and the lock, how many writes succeed in it, and how it
    ends. -/
structure Pass where
  begun : Except AddrError Unit := .ok ()
  locked : Except AddrError Unit := .ok ()
  writes : Nat := 0
  ending : Ending := .success

namespace DbServer

variable (s : DbServer)

def cacheUpdate : Bool := vcmp s.cachedVersion s.version ≠ 0

def beginTrans (wl : Bool) (writes : Nat) : TableState :=
  { mem := s.mem, header := s.header, block := s.block, writes := if wl then writes else 0 }

/-- `ubik_AbortTrans`: the disk is as it was, and what is in memory stays there. -/
def abortTrans (left : Globals) : DbServer := { s with mem := left, cachedVersion := ⟨0, 0⟩ }

/-- `ubik_EndTrans` of a transaction that writes. -/
def endTrans (t : TableState) : Ending → DbServer
  | .success =>
    { header := t.header, block := t.block, mem := t.mem, labelled := s.labelled
      version := { s.version with counter := s.version.counter + 1 }
      cachedVersion := { s.version with counter := s.version.counter + 1 } }
  | .noQuorum =>
    { header := t.header, block := t.block, mem := t.mem, labelled := s.labelled
      version := { s.version with counter := s.version.counter + 1 } }
  | .aborted => s.abortTrans t.mem

def initTrans (wl builddb : Bool) : TableM Unit := do
  checkInit s.cacheUpdate builddb
  if wl ∧ (← get).mem.extentMod then readExtents

/-- The passes of `Init_VLdbase`. Where it succeeds the transaction stays open. -/
def initPasses (lockwrite : Bool) (meets : Nat → Pass) :
    DbServer → List Nat → Except AddrError TableState → Except AddrError TableState × DbServer
  | s, [], errorcode => (errorcode, s)
  | s, pass :: rest, _ =>
    let wl := pass = 2 || lockwrite
    match (meets pass).begun, (meets pass).locked with
    | .error e, _ => (.error e, s)
    | .ok (), .error e => (.error e, s.abortTrans s.mem)
    | .ok (), .ok () =>
      match (s.initTrans wl (pass = 2)).exec (s.beginTrans wl (meets pass).writes) with
      | (.error e, t) =>
        if pass = 1 ∧ e ≠ .empty ∨ pass = 2 then (.error e, s.abortTrans t.mem)
        else initPasses lockwrite meets (s.abortTrans t.mem) rest (.error e)
      | (.ok (), t) =>
        if pass = 2 then initPasses lockwrite meets (s.endTrans t (meets pass).ending) rest (.ok t)
        else (.ok t, s)

def initVldbase (lockwrite : Bool) (meets : Nat → Pass) : Except AddrError TableState × DbServer :=
  initPasses lockwrite meets s [1, 2, 3] (.error .empty)

def restart : DbServer := { s with mem := {}, cachedVersion := ⟨0, 0⟩ }

end DbServer

section Load

variable (eofPtr : Nat) (block : Nat → ExtentBlock) (first : ExtentBlock)

def keptContaddr : Nat → Nat
  | 0 => first.contaddrs 0
  | i + 1 =>
    if BadContaddr eofPtr (keptContaddr i) (first.contaddrs (i + 1)) ∨
        (block (first.contaddrs (i + 1))).flags ≠ vlContBlock then 0
    else first.contaddrs (i + 1)

def LooksAt (i : Nat) : Prop :=
  first.contaddrs i ≠ 0 ∧ ¬BadContaddr eofPtr (keptContaddr eofPtr block first (i - 1)) (first.contaddrs i)

def keptBlock (n : Nat) : ExtentBlock :=
  { first with contaddrs := fun j => if j ≤ n then keptContaddr eofPtr block first j else first.contaddrs j }

theorem keptBlock_zero : keptBlock eofPtr block first 0 = first := by
  unfold keptBlock
  have same : (fun j => if j ≤ 0 then keptContaddr eofPtr block first j else first.contaddrs j) = first.contaddrs := by
    funext j
    cases j with
    | zero => rfl
    | succ j => exact if_neg (Nat.not_succ_le_zero j)
  rw [same]

variable {eofPtr block first}

theorem keptBlock_succ (n : Nat) : keptBlock eofPtr block first (n + 1) = { keptBlock eofPtr block first n with
        contaddrs :=
          update (keptBlock eofPtr block first n).contaddrs (n + 1) (keptContaddr eofPtr block first (n + 1)) } := by
  unfold keptBlock
  congr 1
  funext j
  by_cases last : j = n + 1
  · subst last
    simp
  · have below : j ≤ n + 1 ↔ j ≤ n := by omega
    simp [last, below]

theorem keptBlock_next (n : Nat) : (keptBlock eofPtr block first n).contaddrs (n + 1) = first.contaddrs (n + 1) :=
  if_neg (Nat.not_succ_le_self n)

theorem keptBlock_last (n : Nat) : (keptBlock eofPtr block first n).contaddrs n = keptContaddr eofPtr block first n :=
  if_pos (Nat.le_refl n)

variable {n : Nat}

theorem keptContaddr_succ (stays : keptContaddr eofPtr block first (n + 1) ≠ 0) :
    keptContaddr eofPtr block first (n + 1) = first.contaddrs (n + 1) ∧ LooksAt eofPtr block first (n + 1) ∧
      (block (first.contaddrs (n + 1))).flags = vlContBlock := by
  have value : keptContaddr eofPtr block first (n + 1) = _ := keptContaddr.eq_2 ..
  split at value
  · exact absurd value stays
  · next good =>
    rw [not_or, not_not] at good
    exact ⟨value, ⟨fun zero => stays (value.trans zero), good.1⟩, good.2⟩

variable (eofPtr block first) in
structure Turned (n : Nat) (g r : Globals) : Prop where
  cheader : r.cheader = g.cheader
  hostAddress : r.hostAddress = g.hostAddress
  base : r.exAddr 0 = some (keptBlock eofPtr block first n)
  looked : ∀ i, 1 ≤ i → i ≤ n → LooksAt eofPtr block first i →
    r.exAddr i = if (block (first.contaddrs i)).flags = vlContBlock then some (block (first.contaddrs i)) else none
  passed : ∀ i, 1 ≤ i → ¬(i ≤ n ∧ LooksAt eofPtr block first i) → r.exAddr i = g.exAddr i
  extentMod : r.extentMod = (g.extentMod ||
    (List.range' 1 n).any fun i => decide (keptContaddr eofPtr block first i ≠ first.contaddrs i))

variable {g r : Globals}

theorem keptBlock_same (same : keptContaddr eofPtr block first (n + 1) = first.contaddrs (n + 1)) :
    keptBlock eofPtr block first (n + 1) = keptBlock eofPtr block first n := by
  have next : (keptBlock eofPtr block first n).contaddrs (n + 1) = first.contaddrs (n + 1) := keptBlock_next n
  rw [keptBlock_succ, same, ← next, Function.update_eq_self]

theorem dropContaddr_base (base : r.exAddr 0 = some (keptBlock eofPtr block first n))
    (dropped : keptContaddr eofPtr block first (n + 1) = 0) :
    (r.dropContaddr (n + 1)).exAddr 0 = some (keptBlock eofPtr block first (n + 1)) := by
  rw [keptBlock_succ, dropped]
  simp [Globals.dropContaddr, base]

theorem dropContaddr_other {i j : Nat} (other : j ≠ 0) : (r.dropContaddr i).exAddr j = r.exAddr j := by
  simp [Globals.dropContaddr, other]

theorem Turned.extend {r' : Globals} (turned : Turned eofPtr block first n g r)
    (cheader : r'.cheader = r.cheader) (hostAddress : r'.hostAddress = r.hostAddress)
    (base : r'.exAddr 0 = some (keptBlock eofPtr block first (n + 1)))
    (others : ∀ i, 1 ≤ i → i ≠ n + 1 → r'.exAddr i = r.exAddr i)
    (looked : LooksAt eofPtr block first (n + 1) → r'.exAddr (n + 1) =
      if (block (first.contaddrs (n + 1))).flags = vlContBlock then some (block (first.contaddrs (n + 1))) else none)
    (passed : ¬LooksAt eofPtr block first (n + 1) → r'.exAddr (n + 1) = r.exAddr (n + 1))
    (extentMod : r'.extentMod = (r.extentMod || decide (keptContaddr eofPtr block first (n + 1) ≠ first.contaddrs (n + 1)))) :
    Turned eofPtr block first (n + 1) g r' where
  cheader := cheader.trans turned.cheader
  hostAddress := hostAddress.trans turned.hostAddress
  base := base
  looked i low high looks := by
    by_cases last : i = n + 1
    · subst last
      exact looked looks
    · rw [others i low last]
      exact turned.looked i low (by omega) looks
  passed i low skips := by
    by_cases last : i = n + 1
    · subst last
      rw [passed fun looks => skips ⟨Nat.le_refl _, looks⟩]
      exact turned.passed _ low fun inside => absurd inside.1 (Nat.not_succ_le_self n)
    · rw [others i low last]
      exact turned.passed i low fun inside => skips ⟨by omega, inside.2⟩
  extentMod := by
    rw [extentMod, turned.extentMod, List.range'_1_concat, List.any_append, Nat.add_comm 1 n, Bool.or_assoc]
    simp

theorem Turned.step (turned : Turned eofPtr block first n g r) (eof : g.cheader.eofPtr = eofPtr) :
    Turned eofPtr block first (n + 1) g (r.readExtent block (n + 1)) := by
  have eof' : r.cheader.eofPtr = eofPtr := (congrArg VlHeader.eofPtr turned.cheader).trans eof
  unfold Globals.readExtent
  simp only [turned.base, keptBlock_next, Nat.add_sub_cancel, keptBlock_last, eof']
  by_cases zero : first.contaddrs (n + 1) = 0
  · have same : keptContaddr eofPtr block first (n + 1) = first.contaddrs (n + 1) := by
      rw [zero, keptContaddr, zero, ite_self]
    rw [if_pos zero]
    exact turned.extend rfl rfl ((keptBlock_same same).symm ▸ turned.base) (fun _ _ _ => rfl) (fun looks => absurd zero looks.1)
      (fun _ => rfl) (by simp [same])
  rw [if_neg zero]
  by_cases bad : BadContaddr eofPtr (keptContaddr eofPtr block first n) (first.contaddrs (n + 1))
  · have dropped : keptContaddr eofPtr block first (n + 1) = 0 := if_pos (Or.inl bad)
    rw [if_pos bad]
    exact turned.extend rfl rfl (dropContaddr_base turned.base dropped) (fun i low _ => dropContaddr_other (by omega))
      (fun looks => absurd bad looks.2) (fun _ => dropContaddr_other (Nat.succ_ne_zero n))
      (by simp [Globals.dropContaddr, dropped, Ne.symm zero])
  have looks : LooksAt eofPtr block first (n + 1) := ⟨zero, bad⟩
  rw [if_neg bad]
  by_cases flags : (block (first.contaddrs (n + 1))).flags = vlContBlock
  · have same : keptContaddr eofPtr block first (n + 1) = first.contaddrs (n + 1) := by
      rw [keptContaddr, if_neg (not_or.2 ⟨bad, not_not.2 flags⟩)]
    rw [if_neg (not_not.2 flags)]
    refine turned.extend rfl rfl ?_ (fun i _ other => update_of_ne other ..) (fun _ => ?_)
      (fun skips => absurd looks skips) (by simp [same])
    · rw [keptBlock_same same, ← turned.base]
      exact update_of_ne (Nat.succ_ne_zero n).symm (some (block (first.contaddrs (n + 1)))) r.exAddr
    · rw [if_pos flags]
      exact update_self ..
  have dropped : keptContaddr eofPtr block first (n + 1) = 0 := if_pos (Or.inr flags)
  rw [if_pos flags]
  refine turned.extend rfl rfl ?_ (fun i low other => ?_) (fun _ => ?_) (fun skips => absurd looks skips)
    (by simp [Globals.dropContaddr, dropped, Ne.symm zero])
  · rw [← dropContaddr_base turned.base dropped]
    exact update_of_ne (Nat.succ_ne_zero n).symm none (r.dropContaddr (n + 1)).exAddr
  · exact (update_of_ne other ..).trans (dropContaddr_other (by omega))
  · rw [if_neg flags]
    exact update_self ..

theorem turned_loop (eof : g.cheader.eofPtr = eofPtr) (base : g.exAddr 0 = some first) (n : Nat) :
    Turned eofPtr block first n g ((List.range' 1 n).foldl (Globals.readExtent block) g) := by
  induction n with
  | zero =>
    exact ⟨rfl, rfl, by rw [keptBlock_zero]; exact base, fun i low high => by omega, fun _ _ _ => rfl, by simp⟩
  | succ n ih =>
    rw [List.range'_1_concat, List.foldl_append, Nat.add_comm 1 n]
    exact ih.step eof

end Load

def VlHeader.Loads (header : VlHeader) (block : Nat → ExtentBlock) (base : Nat) : Prop :=
  header.sit ≠ 0 ∧ (base = 0 ∨ 1 ≤ base ∧ base < maxAddrExtBlks ∧ LooksAt header.eofPtr block (block header.sit) base)

structure Globals.AllBut (differs : Nat → Prop) (g g' : Globals) : Prop where
  cheader : g.cheader = g'.cheader
  hostAddress : g.hostAddress = g'.hostAddress
  extentMod : g.extentMod = g'.extentMod
  blocks : ∀ base, g.exAddr base = g'.exAddr base ↔ ¬differs base

namespace Globals

variable {block : Nat → ExtentBlock} {differs : Nat → Prop} {g g' : Globals}

theorem AllBut.eq_iff (apart : g.AllBut differs g') : g = g' ↔ ∀ base, ¬differs base := by
  constructor
  · intro same base
    exact (apart.blocks base).1 (by rw [same])
  intro none
  have blocks : g.exAddr = g'.exAddr := funext fun base => (apart.blocks base).2 (none base)
  cases g
  cases g'
  cases apart.cheader
  cases apart.hostAddress
  cases apart.extentMod
  cases blocks
  rfl

variable (g block) in
def readFirst : Globals :=
  { g with extentMod := false, exAddr := update g.exAddr 0 (some (block g.cheader.sit)) }

theorem readExtents_turned (block : Nat → ExtentBlock) (sit : g.cheader.sit ≠ 0) :
    Turned g.cheader.eofPtr block (block g.cheader.sit) (maxAddrExtBlks - 1) (g.readFirst block) (g.readExtents block) := by
  have base : (g.readFirst block).exAddr 0 = some (block g.cheader.sit) := update_self 0 _ g.exAddr
  unfold readExtents
  rw [if_neg sit]
  exact turned_loop rfl base _

theorem readExtents_none (sit : g.cheader.sit = 0) : g.readExtents block = { g with extentMod := false } := if_pos sit

theorem readExtents_cheader : (g.readExtents block).cheader = g.cheader := by
  by_cases sit : g.cheader.sit = 0
  · rw [readExtents_none sit]
  · exact (readExtents_turned block sit).cheader

theorem readExtents_allBut (block : Nat → ExtentBlock) (cheader : g.cheader = g'.cheader) (hostAddress : g.hostAddress = g'.hostAddress)
    (blocks : ∀ base, g.exAddr base = g'.exAddr base ↔ ¬differs base) :
    (g.readExtents block).AllBut (fun base => differs base ∧ ¬g.cheader.Loads block base) (g'.readExtents block) := by
  by_cases sit : g.cheader.sit = 0
  · rw [readExtents_none sit, readExtents_none (cheader ▸ sit)]
    refine ⟨cheader, hostAddress, rfl, fun base => (blocks base).trans (not_congr ?_)⟩
    exact ⟨fun differ => ⟨differ, fun loads => loads.1 sit⟩, And.left⟩
  have here := readExtents_turned block sit
  have there := readExtents_turned (g := g') block (cheader ▸ sit)
  rw [← cheader] at there
  refine ⟨?_, ?_, ?_, fun base => ?_⟩
  · exact here.cheader.trans (cheader.trans there.cheader.symm)
  · exact here.hostAddress.trans (hostAddress.trans there.hostAddress.symm)
  · exact here.extentMod.trans there.extentMod.symm
  by_cases loads : g.cheader.Loads block base
  · refine iff_of_true ?_ fun differ => differ.2 loads
    obtain ⟨-, rfl | ⟨low, high, looks⟩⟩ := loads
    · rw [here.base, there.base]
    · rw [here.looked base low (by omega) looks, there.looked base low (by omega) looks]
  have low : 1 ≤ base := Nat.one_le_iff_ne_zero.2 fun zero => loads ⟨sit, Or.inl zero⟩
  have skips : ¬(base ≤ maxAddrExtBlks - 1 ∧ LooksAt g.cheader.eofPtr block (block g.cheader.sit) base) := by
    rintro ⟨high, looks⟩
    exact loads ⟨sit, Or.inr ⟨low, Nat.lt_of_le_pred (by decide) high, looks⟩⟩
  have kept (h : Globals) : (h.readFirst block).exAddr base = h.exAddr base :=
    update_of_ne (Nat.one_le_iff_ne_zero.1 low) _ h.exAddr
  rw [here.passed base low skips, there.passed base low skips, kept g, kept g', blocks base]
  exact not_congr ⟨fun differ => ⟨differ, loads⟩, And.left⟩

end Globals

namespace TableState

variable {differs : Nat → Prop} {s t : TableState}

def afterRead (s : TableState) : TableState :=
  if (s.mem.readExtents s.block).extentMod ∧ s.writes ≠ 0 then
    { s with
      mem := s.mem.readExtents s.block
      block := update s.block s.mem.cheader.sit
        (keptBlock s.mem.cheader.eofPtr s.block (s.block s.mem.cheader.sit) (maxAddrExtBlks - 1))
      writes := s.writes - 1 }
  else { s with mem := s.mem.readExtents s.block }

theorem exec_readExtents (s : TableState) : readExtents.exec s = (.ok (), s.afterRead) := by
  have step : readExtents.exec s = TableM.exec (do
        let s ← get
        if s.mem.extentMod ∧ s.writes ≠ 0 then
          let first ← deref (s.mem.exAddr 0)
          vlwrite fun s => s.modifyBlock s.mem.cheader.sit fun _ => first)
        { s with mem := s.mem.readExtents s.block } := rfl
  rw [step, exec_bind, exec_get]
  unfold afterRead
  by_cases writes : (s.mem.readExtents s.block).extentMod ∧ s.writes ≠ 0
  · have sit : s.mem.cheader.sit ≠ 0 := by
      intro none
      rw [Globals.readExtents_none none] at writes
      exact absurd writes.1 Bool.false_ne_true
    simp only [if_pos writes, exec_bind, (Globals.readExtents_turned s.block sit).base, exec_deref_some, exec_vlwrite,
      if_neg writes.2, modifyBlock, Globals.readExtents_cheader]
  · simp only [if_neg writes]
    rfl

structure AllBut (differs : Nat → Prop) (s t : TableState) : Prop where
  header : s.header = t.header
  block : s.block = t.block
  writes : s.writes = t.writes
  mem : s.mem.AllBut differs t.mem

theorem AllBut.eq_iff (apart : s.AllBut differs t) : s = t ↔ ∀ base, ¬differs base := by
  rw [← apart.mem.eq_iff]
  constructor
  · intro same
    rw [same]
  intro mem
  cases s
  cases t
  cases apart.header
  cases apart.block
  cases apart.writes
  cases mem
  rfl

theorem afterRead_cheader (s : TableState) : s.afterRead.mem.cheader = s.mem.cheader := by
  unfold afterRead
  split <;> exact Globals.readExtents_cheader

theorem AllBut.congr {differs' : Nat → Prop} (apart : s.AllBut differs t) (same : ∀ base, differs base ↔ differs' base) :
    s.AllBut differs' t := by
  have eq : differs = differs' := funext fun base => propext (same base)
  rwa [← eq]

theorem afterRead_loads {base : Nat} (loads : s.afterRead.mem.cheader.Loads s.afterRead.block base) :
    s.mem.cheader.Loads s.block base := by
  rw [afterRead_cheader] at loads
  unfold afterRead at loads
  by_cases written : (s.mem.readExtents s.block).extentMod ∧ s.writes ≠ 0
  · simp only [if_pos written] at loads
    obtain ⟨sit, rfl | ⟨low, high, looks⟩⟩ := loads
    · exact ⟨sit, Or.inl rfl⟩
    obtain ⟨i, rfl⟩ := Nat.exists_eq_add_of_le' low
    rw [update_self] at looks
    have stays : keptContaddr s.mem.cheader.eofPtr s.block (s.block s.mem.cheader.sit) (i + 1) ≠ 0 := by
      intro dropped
      exact looks.1 ((if_pos (Nat.le_pred_of_lt high)).trans dropped)
    exact ⟨sit, Or.inr ⟨low, high, (keptContaddr_succ stays).2.1⟩⟩
  · rwa [if_neg written] at loads

theorem afterRead_allBut (header : s.header = t.header) (block : s.block = t.block) (writes : s.writes = t.writes)
    (cheader : s.mem.cheader = t.mem.cheader) (hostAddress : s.mem.hostAddress = t.mem.hostAddress)
    (blocks : ∀ base, s.mem.exAddr base = t.mem.exAddr base ↔ ¬differs base) :
    s.afterRead.AllBut (fun base => differs base ∧ ¬s.mem.cheader.Loads s.block base) t.afterRead := by
  have mem := Globals.readExtents_allBut s.block cheader hostAddress blocks
  unfold afterRead
  rw [← block, ← mem.extentMod, ← writes, ← cheader, ← header]
  by_cases writes : (s.mem.readExtents s.block).extentMod ∧ s.writes ≠ 0
  · rw [if_pos writes, if_pos writes]
    exact ⟨rfl, rfl, rfl, mem⟩
  · rw [if_neg writes, if_neg writes]
    exact ⟨rfl, rfl, rfl, mem⟩

def withHeader (s : TableState) : TableState :=
  { s with mem := { s.mem with cheader := s.header, hostAddress := s.header.ipMappedAddr } }

def rebuilt (s : TableState) : TableState :=
  { s with
    header := newHeader
    mem := { s.mem with cheader := newHeader, hostAddress := fun _ => 0 }
    writes := s.writes - 1 }

theorem exec_readHeader (s : TableState) : readHeader.exec s =
      (.ok (), if s.header.vldbVersion = 0 then { s with mem.cheader := s.header } else s.withHeader.afterRead) := by
  unfold readHeader
  simp only [exec_bind, exec_modify, exec_get]
  by_cases version : s.header.vldbVersion = 0
  · simp only [version, ne_eq, not_true_eq_false, if_false, if_true]
    rfl
  · simp only [version, ne_eq, not_false_eq_true, if_false, if_true, exec_bind, exec_modifyMem, exec_readExtents]
    rfl

theorem exec_checkInit_load (s : TableState) (builddb : Bool) (version : s.header.vldbVersion ≠ 0) :
    (checkInit true builddb).exec s = (if BadVersion s.header.vldbVersion then .error .badVersion else .ok (),
        s.withHeader.afterRead) := by
  have header : s.withHeader.afterRead.mem.cheader = s.header := afterRead_cheader _
  unfold checkInit checkVersion
  simp only [if_true, exec_bind, exec_readHeader, if_neg version, exec_get, header]
  split <;> rfl

theorem exec_checkInit_same (s : TableState) (builddb : Bool) (version : s.mem.cheader.vldbVersion = 3) :
    (checkInit false builddb).exec s = (.ok (), s) := by
  unfold checkInit checkVersion
  simp [exec_bind, version, BadVersion]

theorem exec_checkInit_empty (s : TableState) (version : s.header.vldbVersion = 0) :
    (checkInit true false).exec s = (.error .empty, { s with mem.cheader := s.header }) := by
  unfold checkInit checkVersion
  simp [exec_bind, exec_readHeader, version]

theorem exec_checkInit_rebuild (s : TableState) (version : s.header.vldbVersion = 0) (writes : s.writes ≠ 0) :
    (checkInit true true).exec s = (.ok (), s.rebuilt) := by
  unfold checkInit checkVersion
  simp [exec_bind, exec_readHeader, exec_vlwrite, version, writes, rebuilt]

theorem exec_checkInit_unwritten (s : TableState) (version : s.header.vldbVersion = 0) (writes : s.writes = 0) :
    ((checkInit true true).exec s).1 = .error .io := by
  unfold checkInit checkVersion
  simp [exec_bind, exec_readHeader, exec_vlwrite, version, writes]

end TableState

namespace DbServer

variable {s s' : DbServer} {differs : Nat → Prop} {wl lockwrite : Bool} {writes : Nat} {meets : Nat → Pass}

section

variable (stale : s.cachedVersion = ⟨0, 0⟩)
include stale

theorem cacheUpdate_stale : s.cacheUpdate = true := by
  have epoch : (0 : Int) ≠ s.version.epoch := s.labelled.symm
  have differ : (0 : Int) - s.version.epoch ≠ 0 := by omega
  unfold cacheUpdate vcmp
  rw [stale, if_neg epoch]
  exact decide_eq_true differ

def loaded (s : DbServer) (wl : Bool) (writes : Nat) : TableState :=
  let t := (s.beginTrans wl writes).withHeader.afterRead
  if wl ∧ t.mem.extentMod then t.afterRead else t

theorem exec_initTrans_load (version : s.header.vldbVersion ≠ 0) (builddb : Bool) :
    (s.initTrans wl builddb).exec (s.beginTrans wl writes) = if BadVersion s.header.vldbVersion then
        (.error .badVersion, (s.beginTrans wl writes).withHeader.afterRead)
      else (.ok (), s.loaded wl writes) := by
  have check := TableState.exec_checkInit_load (s.beginTrans wl writes) builddb version
  rw [show (s.beginTrans wl writes).header = s.header from rfl] at check
  unfold initTrans loaded
  rw [exec_bind, cacheUpdate_stale stale, check]
  by_cases bad : BadVersion s.header.vldbVersion
  · rw [if_pos bad, if_pos bad]
  rw [if_neg bad, if_neg bad]
  simp only [exec_bind, exec_get]
  split
  · exact TableState.exec_readExtents _
  · rfl

theorem exec_initTrans_empty (version : s.header.vldbVersion = 0) :
    (s.initTrans wl false).exec (s.beginTrans wl writes) =
      (.error .empty, { s.beginTrans wl writes with mem.cheader := s.header }) := by
  have check := TableState.exec_checkInit_empty (s.beginTrans wl writes) version
  unfold initTrans
  rw [exec_bind, cacheUpdate_stale stale, check]
  rfl

theorem exec_initTrans_unwritten (version : s.header.vldbVersion = 0) :
    ((s.initTrans true true).exec (s.beginTrans true 0)).1 = .error .io := by
  have check := TableState.exec_checkInit_unwritten (s.beginTrans true 0) version rfl
  unfold initTrans
  rw [exec_bind, cacheUpdate_stale stale]
  rcases run : (checkInit true true).exec (s.beginTrans true 0) with ⟨result, t⟩
  rw [run] at check
  cases check
  rfl

def made (s : DbServer) (writes : Nat) : TableState :=
  { header := newHeader
    block := s.block
    mem := { cheader := newHeader, exAddr := s.mem.exAddr }
    writes := writes - 1 }

theorem exec_initTrans_rebuild (version : s.header.vldbVersion = 0) (some : writes ≠ 0) :
    (s.initTrans true true).exec (s.beginTrans true writes) = (.ok (), s.made writes) := by
  have check := TableState.exec_checkInit_rebuild (s.beginTrans true writes) version some
  unfold initTrans
  rw [exec_bind, cacheUpdate_stale stale, check]
  simp only [exec_bind, exec_get, true_and]
  by_cases extentMod : (s.beginTrans true writes).rebuilt.mem.extentMod
  · have sit : (s.beginTrans true writes).rebuilt.mem.cheader.sit = 0 := rfl
    rw [if_pos extentMod, TableState.exec_readExtents, TableState.afterRead, Globals.readExtents_none sit]
    rfl
  · have clear : s.mem.extentMod = false := eq_false_of_ne_true extentMod
    simp [made, TableState.rebuilt, beginTrans, clear]

end

theorem exec_initTrans_same (current : s.cacheUpdate = false) (version : s.mem.cheader.vldbVersion = 3)
    (extentMod : s.mem.extentMod = false) (builddb : Bool) :
    (s.initTrans wl builddb).exec (s.beginTrans wl writes) = (.ok (), s.beginTrans wl writes) := by
  have clear : ¬(wl = true ∧ (s.beginTrans wl writes).mem.extentMod = true) :=
    fun both => Bool.false_ne_true (extentMod ▸ both.2)
  unfold initTrans
  rw [exec_bind, current, TableState.exec_checkInit_same _ builddb version]
  simp only [exec_bind, exec_get, if_neg clear]
  rfl

structure Twin (differs : Nat → Prop) (s s' : DbServer) : Prop where
  header : s.header = s'.header
  block : s.block = s'.block
  stale : s.cachedVersion = ⟨0, 0⟩
  stale' : s'.cachedVersion = ⟨0, 0⟩
  blocks : ∀ base, s.mem.exAddr base = s'.mem.exAddr base ↔ ¬differs base

variable (s) in
def Loads (base : Nat) : Prop := s.header.vldbVersion ≠ 0 ∧ s.header.Loads s.block base

theorem Twin.loaded_allBut (twin : Twin differs s s') (version : s.header.vldbVersion ≠ 0) :
    (s.loaded wl writes).AllBut (fun base => differs base ∧ ¬s.Loads base) (s'.loaded wl writes) := by
  have once : (s.beginTrans wl writes).withHeader.afterRead.AllBut (fun base => differs base ∧ ¬s.Loads base)
      (s'.beginTrans wl writes).withHeader.afterRead := by
    have loads (base : Nat) : s.Loads base ↔ s.header.Loads s.block base := and_iff_right version
    simp only [loads]
    exact TableState.afterRead_allBut (s := (s.beginTrans wl writes).withHeader) (t := (s'.beginTrans wl writes).withHeader)
      twin.header twin.block rfl twin.header (congrArg VlHeader.ipMappedAddr twin.header) twin.blocks
  unfold loaded
  simp only [← once.mem.extentMod]
  split
  · have again :=
      TableState.afterRead_allBut once.header once.block once.writes once.mem.cheader once.mem.hostAddress once.mem.blocks
    refine again.congr fun base => ⟨And.left, fun differ => ⟨differ, fun loads => differ.2 ⟨version, ?_⟩⟩⟩
    exact TableState.afterRead_loads loads
  · exact once

variable {pass : Nat} {rest : List Nat} {errorcode : Except AddrError TableState} {t : TableState}

theorem Twin.pass_loads (twin : Twin differs s s') (version : s.header.vldbVersion ≠ 0) (opens : pass ≠ 2) (last : pass = 1 ∨ rest = [])
    (loads : (initPasses lockwrite meets s (pass :: rest) errorcode).1 = .ok t) :
    ∃ t', (initPasses lockwrite meets s' (pass :: rest) errorcode).1 = .ok t' ∧
      t.AllBut (fun base => differs base ∧ ¬s.Loads base) t' := by
  have version' : s'.header.vldbVersion ≠ 0 := twin.header ▸ version
  unfold initPasses at loads ⊢
  rcases begun : (meets pass).begun with e | ⟨⟩
  · simp [begun] at loads
  rcases locked : (meets pass).locked with e | ⟨⟩
  · simp [begun, locked] at loads
  simp only [begun, locked, exec_initTrans_load twin.stale version] at loads
  simp only [exec_initTrans_load twin.stale' version', ← twin.header]
  by_cases bad : BadVersion s.header.vldbVersion
  · rcases last with rfl | rfl
    · simp [bad] at loads
    · simp [bad, initPasses, opens] at loads
  · simp only [if_neg bad, if_neg opens] at loads ⊢
    cases loads
    exact ⟨_, rfl, twin.loaded_allBut version⟩

theorem pass_empty (stale : s.cachedVersion = ⟨0, 0⟩) (version : s.header.vldbVersion = 0) (opens : pass ≠ 2)
    (rest : List Nat) (errorcode : Except AddrError TableState) (begun : (meets pass).begun = .ok ())
    (locked : (meets pass).locked = .ok ()) :
    initPasses lockwrite meets s (pass :: rest) errorcode =
      initPasses lockwrite meets (s.abortTrans { s.mem with cheader := s.header }) rest (.error .empty) := by
  rw [initPasses]
  simp only [begun, locked, opens, decide_false, exec_initTrans_empty stale version]
  rw [if_neg (by simp)]
  rfl

theorem pass_makes (stale : s.cachedVersion = ⟨0, 0⟩) (version : s.header.vldbVersion = 0) (rest : List Nat)
    (errorcode : Except AddrError TableState) (begun : (meets 2).begun = .ok ()) (locked : (meets 2).locked = .ok ())
    (writes : (meets 2).writes ≠ 0) :
    initPasses lockwrite meets s (2 :: rest) errorcode =
      initPasses lockwrite meets (s.endTrans (s.made (meets 2).writes) (meets 2).ending) rest
          (.ok (s.made (meets 2).writes)) := by
  rw [initPasses]
  simp [begun, locked, exec_initTrans_rebuild stale version writes]

theorem pass_begins (loads : (initPasses lockwrite meets s (pass :: rest) errorcode).1 = .ok t) :
    (meets pass).begun = .ok () ∧ (meets pass).locked = .ok () := by
  rw [initPasses] at loads
  rcases begun : (meets pass).begun with e | ⟨⟩
  · simp [begun] at loads
  rcases locked : (meets pass).locked with e | ⟨⟩
  · simp [begun, locked] at loads
  exact ⟨rfl, rfl⟩

theorem pass_writes (stale : s.cachedVersion = ⟨0, 0⟩) (version : s.header.vldbVersion = 0)
    (loads : (initPasses lockwrite meets s (2 :: rest) errorcode).1 = .ok t) : (meets 2).writes ≠ 0 := by
  obtain ⟨begun, locked⟩ := pass_begins loads
  intro none
  have fails := exec_initTrans_unwritten stale version
  rw [initPasses] at loads
  rcases run : (s.initTrans true true).exec (s.beginTrans true 0) with ⟨result, left⟩
  rw [run] at fails
  cases fails
  simp [begun, locked, none, run] at loads

theorem Twin.pass_made (twin : Twin differs s s') (version : s.header.vldbVersion = 0)
    (loads : (initPasses lockwrite meets (s.endTrans (s.made writes) (meets 2).ending) [3] errorcode).1 = .ok t) :
    ∃ t', (initPasses lockwrite meets (s'.endTrans (s'.made writes) (meets 2).ending) [3] errorcode).1 = .ok t' ∧
      t.AllBut differs t' := by
  obtain ⟨begun, locked⟩ := pass_begins loads
  cases ending : (meets 2).ending with
  | success =>
    rw [ending] at loads
    have current (s : DbServer) : (s.endTrans (s.made writes) .success).cacheUpdate = false := by
      simp [cacheUpdate, vcmp, endTrans]
    have same (s : DbServer) (wl : Bool) :
        ((s.endTrans (s.made writes) .success).initTrans wl false).exec
            ((s.endTrans (s.made writes) .success).beginTrans wl (meets 3).writes) =
          (.ok (), (s.endTrans (s.made writes) .success).beginTrans wl (meets 3).writes) :=
      exec_initTrans_same (current s) rfl rfl false
    simp [initPasses, begun, locked, same] at loads ⊢
    rw [← loads]
    exact ⟨rfl, twin.block, rfl, rfl, rfl, rfl, twin.blocks⟩
  | noQuorum =>
    rw [ending] at loads
    have again : Twin differs (s.endTrans (s.made writes) .noQuorum) (s'.endTrans (s'.made writes) .noQuorum) :=
      ⟨rfl, twin.block, rfl, rfl, twin.blocks⟩
    obtain ⟨t', opened, apart⟩ := again.pass_loads (Nat.succ_ne_zero 2) (by decide) (Or.inr rfl) loads
    exact ⟨t', opened, apart.congr fun base => and_iff_left fun reads => reads.2.1 rfl⟩
  | aborted =>
    rw [ending] at loads
    rw [pass_empty (s := s.endTrans (s.made writes) .aborted) rfl version (by decide) [] errorcode begun locked] at loads
    cases loads

theorem Twin.initVldbase_allBut (twin : Twin differs s s') (loads : (s.initVldbase lockwrite meets).1 = .ok t) :
    ∃ t', (s'.initVldbase lockwrite meets).1 = .ok t' ∧ t.AllBut (fun base => differs base ∧ ¬s.Loads base) t' := by
  unfold initVldbase at loads ⊢
  by_cases version : s.header.vldbVersion = 0
  · have version' : s'.header.vldbVersion = 0 := twin.header ▸ version
    obtain ⟨begun, locked⟩ := pass_begins loads
    rw [pass_empty twin.stale version (by decide) [2, 3] _ begun locked] at loads
    rw [pass_empty twin.stale' version' (by decide) [2, 3] _ begun locked]
    have again : Twin differs (s.abortTrans { s.mem with cheader := s.header })
        (s'.abortTrans { s'.mem with cheader := s'.header }) :=
      ⟨twin.header, twin.block, rfl, rfl, twin.blocks⟩
    obtain ⟨begun, locked⟩ := pass_begins loads
    have writes := pass_writes again.stale version loads
    rw [pass_makes again.stale version [3] _ begun locked writes] at loads
    rw [pass_makes again.stale' version' [3] _ begun locked writes]
    obtain ⟨t', opens, apart⟩ := again.pass_made version loads
    exact ⟨t', opens, apart.congr fun base => (and_iff_left fun reads => reads.1 version).symm⟩
  · exact twin.pass_loads version (by decide) (Or.inl rfl) loads

/-- Whatever an operation leaves in memory when it is aborted, the next transaction is the one of a server that is started anew,
    where all the blocks that it leaves are loaded again. A block that the database does not have stays in memory. -/
theorem aborted_untraced (s : DbServer) (left : Globals) (lockwrite : Bool) (meets : Nat → Pass) {t : TableState}
    (loads : ((s.abortTrans left).initVldbase lockwrite meets).1 = .ok t) :
    (s.restart.initVldbase lockwrite meets).1 = .ok t ↔ ∀ base, left.exAddr base ≠ none → s.Loads base := by
  have twin : Twin (fun base => left.exAddr base ≠ none) (s.abortTrans left) s.restart :=
    ⟨rfl, rfl, rfl, rfl, fun base => not_not.symm⟩
  obtain ⟨t', opens, apart⟩ := twin.initVldbase_allBut loads
  have same : (s.restart.initVldbase lockwrite meets).1 = .ok t ↔ t = t' := by
    rw [opens, Except.ok.injEq]
    exact eq_comm
  rw [same, apart.eq_iff]
  refine forall_congr' fun base => ?_
  rw [not_and_not_right]
  exact Iff.rfl

def full : DbServer where
  header := { newHeader with ipMappedAddr := fun i => UInt32.ofNat (i + 1) }
  version := ⟨1000, 2⟩
  mem :=
    { cheader := { newHeader with ipMappedAddr := fun i => UInt32.ofNat (i + 1) }
      hostAddress := fun i => UInt32.ofNat (i + 1) }
  cachedVersion := ⟨1000, 2⟩
  labelled := by decide

theorem aborted_untraced_full : (full.restart.initVldbase false fun _ => {}).1 =
        .ok { mem := { cheader := full.header, hostAddress := full.header.ipMappedAddr }, header := full.header } ↔
      ∀ base, full.mem.exAddr base ≠ none → full.Loads base :=
  aborted_untraced full full.mem false (fun _ => {}) rfl

def refused : Except AddrError (Option Place) × TableState := (findExtentBlock 1 true none).exec (full.beginTrans true 100)

/-- What a registration in slot 0 does in the next transaction: whether it succeeds, and where the first block then is. -/
def registered (s : DbServer) : Option (Bool × Nat) :=
  (s.initVldbase true fun _ => { writes := 100 }).1.toOption.map fun t =>
    let (result, t) := (findExtentBlock 2 true (some 0)).exec t
    (result.isOk, t.header.sit)

/-- The first block that the registration made stays in memory when it is aborted. The next registration does not make it again, and
    leaves a database that has no first block. -/
theorem block_stays : (refused.1.isOk = false ∧ (full.abortTrans refused.2.mem).registered = some (true, 0)) ∧
      full.restart.registered = some (true, headerSize) := by
  decide +kernel

end DbServer

end OpenAFS.Vlserver
