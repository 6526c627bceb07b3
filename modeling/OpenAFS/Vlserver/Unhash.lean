import OpenAFS.Lib.Chain
import OpenAFS.Vlserver.Records

namespace OpenAFS.Vlserver

open Lib List

def VolType.slot : VolType → Fin 3
  | rw => 0
  | ro => 1
  | back => 2

namespace RawEntry

variable (e : RawEntry)

def next : Thread → UInt32
  | .id t => e.nextIdHash t.slot
  | .name => e.nextNameHash

def setNext (b : UInt32) : Thread → RawEntry
  | .id t => { e with nextIdHash := Function.update e.nextIdHash t.slot b }
  | .name => { e with nextNameHash := b }

/-- Where the header has the head of the chain of an entry: `VolnameHash`, then `VolidHash` of each type. -/
def chainPlace : Thread → Nat
  | .id t => (1060 + 4 * (hashSize * (t.index + 1) + idHash (e.volumeId t.slot))).toNat
  | .name => 1060 + 4 * nameHash ((List.ofFn e.name).takeWhile (· ≠ 0))

end RawEntry

/-- Where `nvlentry` has the link of a chain. -/
def linkOffset : Thread → Nat
  | .id t => 28 + 4 * t.index
  | .name => 40

namespace VlState

variable (st : VlState) (maxnservers : Nat) (stack : Image)

/-- The loop of `UnhashVolid` and `UnhashVolname`: the block whose link names `blockindex`. Without fuel there is no
    result. -/
def findPrev (k : Thread) (blockindex : UInt32) : Nat → UInt32 → UInt32 → Option (Except VlCode UInt32)
  | 0, _, _ => none
  | fuel + 1, prevblockindex, nextblockindex =>
    if nextblockindex = blockindex then some (.ok prevblockindex)
    else
      match st.vlentryread maxnservers stack nextblockindex.toNat with
      | .error _ => some (.error .io)
      | .ok tentry =>
        if tentry.next k = 0 then some (.error .noEnt)
        else findPrev k blockindex fuel nextblockindex (tentry.next k)

def unlinkBy (k : Thread) (aentry : RawEntry) (st : VlState) (place : Nat) : Except VlCode Unit × VlState × RawEntry :=
  match st.vlwrite place (putWord (fun _ => 0) 0 (aentry.next k)) 4 with
  | .error _ => (.error .io, st, aentry)
  | .ok st => (.ok (), st, aentry.setNext 0 k)

/-- What `UnhashVolid` and `UnhashVolname` share, with the database and the entry they leave. -/
def unhash (fuel : Nat) (k : Thread) (blockindex : UInt32) (aentry : RawEntry) :
    Option (Except VlCode Unit × VlState × RawEntry) :=
  let place := aentry.chainPlace k
  let nextblockindex := getWord st.cheader place
  if nextblockindex = blockindex then
    some (unlinkBy k aentry { st with cheader := putWord st.cheader place (aentry.next k) } place)
  else
    (st.findPrev maxnservers stack k blockindex fuel 0 nextblockindex).map fun found =>
      match found with
      | .error code => (.error code, st, aentry)
      | .ok prevblockindex => unlinkBy k aentry st (prevblockindex.toNat + linkOffset k)

def unhashVolid (fuel : Nat) (voltype : VolType) (blockindex : UInt32) (aentry : RawEntry) :
    Option (Except VlCode Unit × VlState × RawEntry) :=
  if aentry.volumeId voltype.slot = 0 then some (.ok (), st, aentry)
  else st.unhash maxnservers stack fuel (.id voltype) blockindex aentry

def unhashVolname (fuel : Nat) (blockindex : UInt32) (aentry : RawEntry) : Option (Except VlCode Unit × VlState × RawEntry) :=
  st.unhash maxnservers stack fuel .name blockindex aentry

def unhashCall (fuel : Nat) : Thread → UInt32 → RawEntry → Option (Except VlCode Unit × VlState × RawEntry)
  | .id voltype => st.unhashVolid maxnservers stack fuel voltype
  | .name => st.unhashVolname maxnservers stack fuel

end VlState

inductive ChainSlot where
  | head
  | next (b : Nat)

namespace VlState

variable (st : VlState) (maxnservers : Nat) (stack : Image)

def entryAt (b : Nat) : RawEntry :=
  if maxnservers = 13 then fromNvlentry (copy stack 0 st.file b entrySize)
  else fromVlentry (copy stack 0 st.file b entrySize)

def loadLink (k : Thread) (aentry : RawEntry) : ChainSlot → Nat
  | .head => (getWord st.cheader (aentry.chainPlace k)).toNat
  | .next b => ((st.entryAt maxnservers stack b).next k).toNat

structure Walks (k : Thread) (aentry : RawEntry) (slot : ChainSlot) (cells : List Nat) : Prop where
  linked : Linked (st.loadLink maxnservers stack k aentry) ChainSlot.next slot cells
  readable : ∀ c ∈ cells, Addressable c entrySize

/-- An entry that is not on a chain is looked for and not found, and nothing is written. -/
def Harmless (k : Thread) (blockindex : UInt32) (aentry : RawEntry) : Prop :=
  ∃ fuel, st.unhashCall maxnservers stack fuel k blockindex aentry = some (.error .noEnt, st, aentry)

/-- From the word of the header that lies where an entry has its link, one comes to an end without the block. -/
def HeaderEnds (k : Thread) (blockindex : UInt32) (aentry : RawEntry) : Prop :=
  ∃ cells, st.Walks maxnservers stack k aentry (.next 0) cells ∧ blockindex.toNat ∉ cells

variable {st : VlState} {maxnservers : Nat} {stack : Image} {k : Thread} {blockindex : UInt32} {aentry : RawEntry}

theorem vlentryread_eq (b : Nat) : st.vlentryread maxnservers stack b =
    if Addressable b entrySize then .ok (st.entryAt maxnservers stack b) else .error .io := by
  split
  · rename_i place
    exact vlentryread_ok place
  · rename_i outside
    exact except_bind_eq_error.mpr (.inl (ensure_fails_or.mpr (.inl ⟨outside, rfl⟩)))

theorem findPrev_ends {cells : List Nat} {c prev : UInt32} (walk : st.Walks maxnservers stack k aentry (.next c.toNat) cells)
    (place : Addressable c.toNat entrySize) (other : c ≠ blockindex) (absent : blockindex.toNat ∉ cells) :
    st.findPrev maxnservers stack k blockindex (cells.length + 1) prev c = some (.error .noEnt) := by
  induction cells generalizing c prev with
  | nil =>
    have stop : (st.entryAt maxnservers stack c.toNat).next k = 0 := UInt32.toNat_inj.mp walk.linked
    rw [findPrev, if_neg other, vlentryread_eq, if_pos place]
    exact if_pos stop
  | cons d cells ih =>
    obtain ⟨here, some, later⟩ := walk.linked
    have more : (st.entryAt maxnservers stack c.toNat).next k ≠ 0 := by
      intro zero
      have none : ((st.entryAt maxnservers stack c.toNat).next k).toNat = 0 := by rw [zero]; rfl
      exact some (here.symm.trans none)
    rw [mem_cons, not_or] at absent
    rw [length_cons, findPrev, if_neg other, vlentryread_eq, if_pos place]
    refine (if_neg more).trans ?_
    have name : ((st.entryAt maxnservers stack c.toNat).next k).toNat = d := here
    apply ih
    · rw [name]
      exact ⟨later, fun e inside => walk.readable e (mem_cons_of_mem _ inside)⟩
    · rw [name]
      exact walk.readable d mem_cons_self
    · intro same
      rw [same] at name
      exact absent.1 name
    · exact absent.2

theorem ends_of_findPrev {fuel : Nat} {c prev : UInt32}
    (none : st.findPrev maxnservers stack k blockindex fuel prev c = some (.error .noEnt)) :
    Addressable c.toNat entrySize ∧ c ≠ blockindex ∧
      ∃ cells, st.Walks maxnservers stack k aentry (.next c.toNat) cells ∧ blockindex.toNat ∉ cells := by
  induction fuel generalizing c prev with
  | zero => cases none
  | succ fuel ih =>
    rw [findPrev, vlentryread_eq] at none
    split at none
    · cases none
    rename_i other
    by_cases place : Addressable c.toNat entrySize
    · rw [if_pos place] at none
      dsimp only at none
      refine ⟨place, other, ?_⟩
      split at none
      · rename_i stop
        refine ⟨[], ⟨?_, by simp⟩, by simp⟩
        show ((st.entryAt maxnservers stack c.toNat).next k).toNat = 0
        rw [stop]
        rfl
      rename_i more
      obtain ⟨place', other', cells, walk, absent⟩ := ih none
      refine ⟨_ :: cells, ⟨⟨rfl, ?_, walk.linked⟩, ?_⟩, ?_⟩
      · exact fun zero => more (UInt32.toNat_inj.mp zero)
      · intro e inside
        rcases List.mem_cons.mp inside with rfl | later
        · exact place'
        · exact walk.readable e later
      · rw [mem_cons, not_or]
        exact ⟨fun same => other' (UInt32.toNat_inj.mp same).symm, absent⟩
    · rw [if_neg place] at none
      cases none

theorem unhashCall_eq (some : ∀ t, k = .id t → aentry.volumeId t.slot ≠ 0) (fuel : Nat) :
    st.unhashCall maxnservers stack fuel k blockindex aentry = st.unhash maxnservers stack fuel k blockindex aentry := by
  cases k with
  | id t => exact if_neg (some t rfl)
  | name => rfl

theorem harmless_iff (some : ∀ t, k = .id t → aentry.volumeId t.slot ≠ 0) {head : UInt32}
    (first : getWord st.cheader (aentry.chainPlace k) = head) (other : head ≠ blockindex)
    (place : Addressable head.toNat entrySize) :
    st.Harmless maxnservers stack k blockindex aentry ↔
      ∃ cells, st.Walks maxnservers stack k aentry (.next head.toNat) cells ∧ blockindex.toNat ∉ cells := by
  constructor
  · rintro ⟨fuel, done⟩
    rw [unhashCall_eq some, unhash] at done
    simp only [first, if_neg other] at done
    obtain ⟨found, walked, result⟩ := Option.map_eq_some_iff.mp done
    cases found with
    | error code =>
      cases result
      exact (ends_of_findPrev walked).2.2
    | ok prev =>
      unfold unlinkBy at result
      dsimp only at result
      split at result
      · cases result
      · cases result
  · rintro ⟨cells, walk, absent⟩
    refine ⟨cells.length + 1, ?_⟩
    rw [unhashCall_eq some, unhash]
    simp only [first, if_neg other]
    rw [findPrev_ends walk place other absent]
    rfl

end VlState

/-- An entry that is not on its chain is reported as missing, and nothing is written, exactly if the chain has other entries
    or the header, which is read in the place of a first entry, leads to an end. -/
theorem absent_unhash {st : VlState} {maxnservers : Nat} {stack : Image} {k : Thread} {blockindex : UInt32}
    {aentry : RawEntry} {cells : List Nat} (some : ∀ t, k = .id t → aentry.volumeId t.slot ≠ 0)
    (known : st.indexOK blockindex) (chain : st.Walks maxnservers stack k aentry .head cells)
    (absent : blockindex.toNat ∉ cells) :
    st.Harmless maxnservers stack k blockindex aentry ↔ cells ≠ [] ∨ st.HeaderEnds maxnservers stack k blockindex aentry := by
  have block : blockindex.toNat ≠ 0 := by
    have high := known.1
    unfold headerSize at high
    omega
  cases cells with
  | nil =>
    have first : getWord st.cheader (aentry.chainPlace k) = 0 := UInt32.toNat_inj.mp chain.linked
    have other : (0 : UInt32) ≠ blockindex := fun same => block (congrArg UInt32.toNat same.symm)
    rw [VlState.harmless_iff some first other (by decide), or_iff_right (not_not_intro rfl)]
    rfl
  | cons c rest =>
    obtain ⟨here, -, later⟩ := chain.linked
    have name : (getWord st.cheader (aentry.chainPlace k)).toNat = c := here
    rw [mem_cons, not_or] at absent
    refine iff_of_true ?_ (.inl (cons_ne_nil _ _))
    refine (VlState.harmless_iff some rfl ?_ ?_).mpr ⟨rest, ?_, absent.2⟩
    · intro same
      rw [same] at name
      exact absent.1 name
    · rw [name]
      exact chain.readable c mem_cons_self
    · rw [name]
      exact ⟨later, fun e inside => chain.readable e (mem_cons_of_mem _ inside)⟩

def serverInHeader (address : UInt32) : VlState where
  cheader := putWord (putWord (fun _ => 0) 12 132268) 40 address
  file := putWord (putWord (fun _ => 0) 12 132268) 40 address

theorem serverInHeader_known (address : UInt32) : (serverInHeader address).indexOK 132120 := by
  have eof : (serverInHeader address).eofPtr = 132268 := (getWord_putWord_apart (by decide)).trans getWord_putWord
  unfold VlState.indexOK
  rw [eof]
  decide

theorem serverInHeader_chain (address : UInt32) (maxnservers : Nat) (stack : Image) :
    (serverInHeader address).Walks maxnservers stack .name {} .head [] := by
  have place : RawEntry.chainPlace {} .name = 1060 := by decide
  refine ⟨?_, by simp⟩
  show (getWord (serverInHeader address).cheader (RawEntry.chainPlace {} .name)).toNat = 0
  rw [place]
  have word : getWord (serverInHeader address).cheader 1060 = getWord (fun _ => 0) 1060 :=
    (getWord_putWord_apart (by decide)).trans (getWord_putWord_apart (by decide))
  rw [word]
  rfl

theorem name_has_no_id {aentry : RawEntry} : ∀ t, Thread.name = .id t → aentry.volumeId t.slot ≠ 0 := by
  intro t same
  cases same

theorem absent_unhash_oneServer : (serverInHeader 0).Harmless 13 (fun _ => 0) .name 132120 {} ↔
      ([] : List Nat) ≠ [] ∨ (serverInHeader 0).HeaderEnds 13 (fun _ => 0) .name 132120 {} :=
  absent_unhash name_has_no_id (serverInHeader_known 0) (serverInHeader_chain 0 _ _) (by simp)

/-- With an empty chain of names, the address of the first server is taken for a place in the file. -/
theorem server_taken_for_block : ¬ ∀ (st : VlState) (maxnservers : Nat) (stack : Image) (k : Thread) (blockindex : UInt32)
    (aentry : RawEntry) (cells : List Nat), (∀ t, k = .id t → aentry.volumeId t.slot ≠ 0) → st.indexOK blockindex →
      st.Walks maxnservers stack k aentry .head cells → blockindex.toNat ∉ cells →
        st.Harmless maxnservers stack k blockindex aentry := by
  intro all
  have chain := serverInHeader_chain 0xc0a80001 13 (fun _ => 0)
  have claimed := all _ _ _ .name 132120 {} [] name_has_no_id (serverInHeader_known 0xc0a80001) chain (by simp)
  have first : getWord (serverInHeader 0xc0a80001).cheader (RawEntry.chainPlace {} .name) = 0 :=
    UInt32.toNat_inj.mp chain.linked
  obtain ⟨cells, walk, -⟩ :=
    (VlState.harmless_iff name_has_no_id first (by decide) (by decide)).mp claimed
  have link : (serverInHeader 0xc0a80001).loadLink 13 (fun _ => 0) .name {} (.next 0) = 0xc0a80001 := by
    have word : getWord (copy (fun _ => 0) 0 (serverInHeader 0xc0a80001).file 0 entrySize) 40 =
        getWord (serverInHeader 0xc0a80001).file 40 := by
      refine getWord_congr fun i small => ?_
      rw [VlState.read_inside (by unfold entrySize; omega), Nat.zero_add]
    show (getWord (copy (fun _ => 0) 0 (serverInHeader 0xc0a80001).file 0 entrySize) 40).toNat = 0xc0a80001
    rw [word]
    exact congrArg UInt32.toNat getWord_putWord
  cases cells with
  | nil =>
    have none : (serverInHeader 0xc0a80001).loadLink 13 (fun _ => 0) .name {} (.next 0) = 0 := walk.linked
    rw [link] at none
    cases none
  | cons c rest =>
    have same : c = 0xc0a80001 := walk.linked.1.symm.trans link
    have place := walk.readable c mem_cons_self
    rw [same] at place
    exact absurd place (by decide)

end OpenAFS.Vlserver
