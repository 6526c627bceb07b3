import OpenAFS.Vlserver.Extents
import OpenAFS.Vlserver.Records

namespace OpenAFS.Vlserver

open Lib TableM

/-- The servers of an entry: the numbers up to the first that is marked as unused. -/
def RawEntry.servers (tentry : RawEntry) : List UInt8 := (List.ofFn tentry.serverNumber).takeWhile (· ≠ badServerId)

namespace VlState

variable (st : VlState) (maxnservers : Nat) (stack : Image)

/-- `lastblockindex`, an `afs_int32`; where it is negative, no block lies before it. -/
def lastblockindex : Nat := if st.eofPtr < 2 ^ 31 then st.eofPtr.toNat else 0

def nextFrom : Nat → Nat → Option (Nat × RawEntry)
  | 0, _ => none
  | n + 1, blockindex =>
    if blockindex < st.lastblockindex then
      match st.vlentryread maxnservers stack blockindex with
      | .error _ => none
      | .ok tentry =>
        if tentry.flags = vlContBlock then nextFrom n (blockindex + vlAddrExtBlkSize)
        else if tentry.flags ≠ vlFree then some (blockindex, tentry)
        else nextFrom n (blockindex + entrySize)
    else none

/-- `NextEntry`; `none` is 0. -/
def nextEntry (blockindex : Nat) : Option (Nat × RawEntry) :=
  if blockindex = 0 then st.nextFrom maxnservers stack st.lastblockindex headerSize
  else if headerSize ≤ blockindex ∧ blockindex < st.eofPtr.toNat then
    st.nextFrom maxnservers stack st.lastblockindex (blockindex + entrySize)
  else none

def namesFrom (i : Nat) : Nat → Nat → Bool
  | 0, _ => false
  | n + 1, blockindex =>
    match st.nextEntry maxnservers stack blockindex with
    | none => false
    | some (blockindex, tentry) =>
      if ∃ server ∈ tentry.servers, server.toNat = i then true else namesFrom i n blockindex

def names (i : Nat) : Bool := st.namesFrom maxnservers stack i st.lastblockindex 0

end VlState

namespace Globals

/-- The first loop of `ChangeIPAddr`, with what it leaves in `exp`. -/
def findAddr (g : Globals) (ipaddr1 : UInt32) : List Nat → Except AddrError (Option (Nat × Option Place))
  | [] => .ok none
  | i :: rest =>
    if isMultiHomed (g.hostAddress i) then
      if maxAddrExtBlks ≤ extentBase (g.hostAddress i) ∨ mhSrvPerBlk ≤ extentIndex (g.hostAddress i) then .error .internal
      else match g.extentAddr (g.hostAddress i) with
        | none => .error .fault
        | some exp =>
          if ipaddr1 ∈ exp.list then
            .ok (some (i, some (extentBase (g.hostAddress i), extentIndex (g.hostAddress i))))
          else findAddr g ipaddr1 rest
    else if g.hostAddress i = ipaddr1 then .ok (some (i, none))
    else findAddr g ipaddr1 rest

def setSlot (g : Globals) (i : Nat) (ipaddr : UInt32) : Globals :=
  { g with
    cheader.ipMappedAddr := Function.update g.cheader.ipMappedAddr i ipaddr
    hostAddress := Function.update g.hostAddress i ipaddr }

end Globals

def clearUuid (exp : ExtentAddr) : ExtentAddr := { exp with hostUuid := 0 }

def changedAddrs (ipaddr1 ipaddr2 : UInt32) : UInt32 × UInt32 :=
  if ipaddr1 = 0xffffffff then (ipaddr2, 0) else (ipaddr1, ipaddr2)

def changeSlot (i : Nat) (exp : Option Place) (ipaddr2 : UInt32) : TableM Unit := do
  match exp with
  | none => pure ()
  | some p =>
    modifyMem fun g => g.modifyEntry p clearUuid
    writeEntry p clearUuid
  modifyMem fun g => g.setSlot i ipaddr2
  vlwrite fun s => s.putSlot i

def changeFound (st : VlState) (maxnservers : Nat) (stack : Image) (ipaddr1 ipaddr2 : UInt32) : TableM Unit := do
  match ← liftExcept ((← get).mem.findAddr ipaddr1 slots) with
  | none => throw .noEnt
  | some (i, exp) =>
    if maxServerId ≤ i then throw .noEnt
    else if ipaddr2 = 0 ∧ st.names maxnservers stack i then throw .idExist
    else changeSlot i exp ipaddr2

def changeIPAddr (st : VlState) (maxnservers : Nat) (stack : Image) (ipaddr1 ipaddr2 : UInt32) : TableM Unit :=
  if isMultiHomed ipaddr2 then throw .badServer
  else changeFound st maxnservers stack (changedAddrs ipaddr1 ipaddr2).1 (changedAddrs ipaddr1 ipaddr2).2

namespace Globals

variable (g : Globals)

/-- A server in slot `i` has the address. A free slot has none. -/
def Has (i : Nat) (a : UInt32) : Prop :=
  a ≠ 0 ∧ if isMultiHomed (g.hostAddress i) then ∃ exp, g.extentAddr (g.hostAddress i) = some exp ∧ a ∈ exp.list
    else g.hostAddress i = a

/-- The number in the slot stands for a multi-homed server that is not there. -/
def Bad (i : Nat) : Prop := isMultiHomed (g.hostAddress i) ∧ g.extentAddr (g.hostAddress i) = none

def Apart : Prop := ∀ i ∈ slots, ∀ j ∈ slots, ∀ a, g.Has i a → g.Has j a → i = j

structure SameSlot (g g' : Globals) (j : Nat) : Prop where
  hostAddress : g'.hostAddress j = g.hostAddress j
  ipMappedAddr : g'.cheader.ipMappedAddr j = g.cheader.ipMappedAddr j
  entry : isMultiHomed (g.hostAddress j) → g'.extentAddr (g.hostAddress j) = g.extentAddr (g.hostAddress j)

end Globals

namespace VlState

variable (st : VlState) (maxnservers : Nat) (stack : Image)

def Refers (blockindex i : Nat) : Prop :=
  ∃ tentry, st.vlentryread maxnservers stack blockindex = .ok tentry ∧ ∃ j : Fin 13, j.val < maxnservers ∧
    (tentry.serverNumber j).toNat = i ∧ ∀ k ≤ j, tentry.serverNumber k ≠ badServerId

/-- One place is come to from another: 8192 bytes behind what is marked as an extension block, 148 bytes behind all else. -/
inductive Walked : Nat → Nat → Prop
  | here {blockindex : Nat} : Walked blockindex blockindex
  | next {blockindex b : Nat} {tentry : RawEntry} (inside : blockindex < st.lastblockindex)
      (read : st.vlentryread maxnservers stack blockindex = .ok tentry)
      (walked : Walked (blockindex + if tentry.flags = vlContBlock then vlAddrExtBlkSize else entrySize) b) :
      Walked blockindex b

structure NamedAt (i blockindex : Nat) : Prop where
  inside : blockindex < st.lastblockindex
  entry : ∃ tentry, st.vlentryread maxnservers stack blockindex = .ok tentry ∧ tentry.flags ≠ vlContBlock ∧
    tentry.flags ≠ vlFree ∧ ∃ server ∈ tentry.servers, server.toNat = i

def ComesToName (i : Nat) : Prop :=
  ∃ blockindex, st.Walked maxnservers stack headerSize blockindex ∧ st.NamedAt maxnservers stack i blockindex

end VlState

/-- The address `old` is changed to `new` as it should be; `volumes` are the places of the volume entries. -/
structure ChangeMet (st : VlState) (maxnservers : Nat) (stack : Image) (volumes : List Nat) (old new : UInt32) (g : Globals)
    (result : Except AddrError Unit) (g' : Globals) : Prop where
  noEnt : result = .error .noEnt ↔ ∀ i ∈ slots, ¬ g.Has i old
  done : result = .ok () → ∃ i ∈ slots, g.Has i old ∧ g'.hostAddress i = new ∧
    (∀ j ∈ slots, j ≠ i → g.SameSlot g' j) ∧ (∀ j ∈ slots, ¬ g'.Has j old) ∧ (g.Apart → g'.Apart) ∧
    (new = 0 → ∀ b ∈ volumes, ¬ st.Refers maxnservers stack b i)

/-- What keeps the server in slot `i` from being changed: an entry that names it, or writes that fail. -/
def Refused (st : VlState) (maxnservers : Nat) (stack : Image) (new : UInt32) (s : TableState) (i : Nat) : Prop :=
  new = 0 ∧ st.ComesToName maxnservers stack i ∨ isMultiHomed (s.mem.hostAddress i) ∧ s.mem.exAddr 0 = none ∨
    s.writes < if isMultiHomed (s.mem.hostAddress i) then 2 else 1

/-- What the change of an address that the server in slot `i` has asks for. -/
structure Changeable (st : VlState) (maxnservers : Nat) (stack : Image) (volumes : List Nat) (old new : UInt32) (g : Globals)
    (i : Nat) : Prop where
  other : new ≠ old
  single : ∀ j ∈ slots, j ≠ i → ¬ g.Has j old
  fresh : g.Apart → new = 0 ∨ ∀ j ∈ slots, j ≠ i → ¬ g.Has j new
  unused : new = 0 → ∀ b ∈ volumes, ¬ st.Refers maxnservers stack b i

/-- The tables and the addresses for which a change is made as it should be. The last slot is never changed, and slots that are
    free have the address 0. -/
structure ChangeHolds (st : VlState) (maxnservers : Nat) (stack : Image) (volumes : List Nat) (old new : UInt32) (refused : Prop)
    (s : TableState) : Prop where
  absent : (∀ i ∈ slots, ¬ s.mem.Has i old) →
    ¬ refused ∧ (∀ i ∈ slots, ¬ s.mem.Bad i) ∧ (old = 0 → ∀ i < maxServerId, s.mem.hostAddress i ≠ 0)
  present : ∀ i ∈ slots, s.mem.Has i old → (∀ j < i, ¬ s.mem.Has j old) → refused ∨ (∃ j < i, s.mem.Bad j) ∨ i ≠ maxServerId ∧
      (Refused st maxnservers stack new s i ∨ Changeable st maxnservers stack volumes old new s.mem i)

variable {i b p : Nat}

namespace VlState

variable {st : VlState} {maxnservers : Nat} {stack : Image}

namespace Walked

theorem le {q : Nat} (walked : st.Walked maxnservers stack p q) : p ≤ q := by
  induction walked with
  | here => exact le_rfl
  | next _ _ _ ih => omega

theorem step {q : Nat} {tentry : RawEntry} (walked : st.Walked maxnservers stack p q) (inside : q < st.lastblockindex)
    (read : st.vlentryread maxnservers stack q = .ok tentry) :
    st.Walked maxnservers stack p (q + if tentry.flags = vlContBlock then vlAddrExtBlkSize else entrySize) := by
  induction walked with
  | here => exact .next inside read .here
  | next inside' read' _ ih => exact .next inside' read' (ih inside read)

theorem trans {q r : Nat} (first : st.Walked maxnservers stack p q) (second : st.Walked maxnservers stack q r) :
    st.Walked maxnservers stack p r := by
  induction first with
  | here => exact second
  | next inside read _ ih => exact .next inside read (ih second)

end Walked

theorem nextFrom_some {n : Nat} {tentry : RawEntry} (found : st.nextFrom maxnservers stack n p = some (b, tentry)) :
    st.Walked maxnservers stack p b ∧ b < st.lastblockindex ∧ st.vlentryread maxnservers stack b = .ok tentry ∧
      tentry.flags ≠ vlContBlock ∧ tentry.flags ≠ vlFree := by
  induction n generalizing p with
  | zero => cases found
  | succ n ih =>
    rw [nextFrom] at found
    split at found
    · next inside =>
      split at found
      · cases found
      next read =>
      split at found
      · next cont =>
        obtain ⟨walked, rest⟩ := ih found
        exact ⟨.next inside read (by rwa [if_pos cont]), rest⟩
      next notCont =>
      split at found
      · next used =>
        cases found
        exact ⟨.here, inside, read, notCont, used⟩
      · obtain ⟨walked, rest⟩ := ih found
        exact ⟨.next inside read (by rwa [if_neg notCont]), rest⟩
    · cases found

theorem nextFrom_meets {n q : Nat} (fuel : st.lastblockindex ≤ p + n) (walked : st.Walked maxnservers stack p q)
    (named : st.NamedAt maxnservers stack i q) :
    ∃ b tentry, st.nextFrom maxnservers stack n p = some (b, tentry) ∧
      (q = b ∨ st.Walked maxnservers stack (b + entrySize) q) := by
  have inside : p < st.lastblockindex := Nat.lt_of_le_of_lt walked.le named.inside
  induction n generalizing p with
  | zero => omega
  | succ n ih =>
    have later {size : Nat} (pos : 0 < size) (walked : st.Walked maxnservers stack (p + size) q) :
        ∃ b tentry, st.nextFrom maxnservers stack n (p + size) = some (b, tentry) ∧
          (q = b ∨ st.Walked maxnservers stack (b + entrySize) q) :=
      ih (by omega) walked (Nat.lt_of_le_of_lt walked.le named.inside)
    rw [nextFrom, if_pos inside]
    cases walked with
    | here =>
      obtain ⟨tentry, read, notCont, used, _⟩ := named.entry
      simp only [read, if_neg notCont, if_pos used]
      exact ⟨_, _, rfl, .inl rfl⟩
    | next _ read walked =>
      simp only [read]
      split
      · next cont => exact later (by decide) (by rwa [if_pos cont] at walked)
      next notCont =>
      rw [if_neg notCont] at walked
      split
      · exact ⟨_, _, rfl, .inr walked⟩
      · exact later (by decide) walked

theorem nextEntry_eq (known : b = 0 ∨ headerSize ≤ b ∧ b < st.lastblockindex) : st.nextEntry maxnservers stack b =
      st.nextFrom maxnservers stack st.lastblockindex (if b = 0 then headerSize else b + entrySize) := by
  unfold nextEntry
  rcases known with rfl | ⟨behind, low⟩
  · rw [if_pos rfl, if_pos rfl]
  have nonzero : b ≠ 0 := by
    have pos : 0 < headerSize := by decide
    omega
  have below : b < st.eofPtr.toNat := by
    unfold lastblockindex at low
    split at low
    · exact low
    · omega
  rw [if_neg nonzero, if_pos ⟨behind, below⟩, if_neg nonzero]

theorem beyond {b' : Nat} (known : b = 0 ∨ headerSize ≤ b ∧ b < st.lastblockindex)
    (walked : st.Walked maxnservers stack (if b = 0 then headerSize else b + entrySize) b') :
    headerSize ≤ b' ∧ b' ≠ 0 := by
  have behind := walked.le
  have pos : 0 < headerSize := by decide
  split at behind
  · omega
  · rcases known with rfl | known
    · omega
    · omega

theorem namesFrom_sound {n : Nat} (known : b = 0 ∨ headerSize ≤ b ∧ b < st.lastblockindex)
    (walked : st.Walked maxnservers stack headerSize (if b = 0 then headerSize else b + entrySize))
    (true_ : st.namesFrom maxnservers stack i n b = true) : st.ComesToName maxnservers stack i := by
  induction n generalizing b with
  | zero => cases true_
  | succ n ih =>
    rw [namesFrom, nextEntry_eq known] at true_
    split at true_
    · cases true_
    next b' tentry found =>
    obtain ⟨more, low, read, notCont, used⟩ := nextFrom_some found
    obtain ⟨beyond, nonzero⟩ := beyond known more
    have here := walked.trans more
    split at true_
    · next names => exact ⟨b', here, low, tentry, read, notCont, used, names⟩
    refine ih (.inr ⟨beyond, low⟩) ?_ true_
    have next := here.step low read
    rw [if_neg notCont] at next
    rwa [if_neg nonzero]

theorem namesFrom_complete {n q : Nat} (known : b = 0 ∨ headerSize ≤ b ∧ b < st.lastblockindex)
    (fuel : st.lastblockindex ≤ (if b = 0 then headerSize else b + entrySize) + n)
    (walked : st.Walked maxnservers stack (if b = 0 then headerSize else b + entrySize) q)
    (named : st.NamedAt maxnservers stack i q) : st.namesFrom maxnservers stack i n b = true := by
  induction n generalizing b with
  | zero =>
    have low := named.inside
    have high := walked.le
    omega
  | succ n ih =>
    obtain ⟨b', tentry, found, place⟩ := nextFrom_meets (n := st.lastblockindex) (by omega) walked named
    rw [namesFrom, nextEntry_eq known, found]
    obtain ⟨first, low, read, notCont, used⟩ := nextFrom_some found
    have behind := first.le
    obtain ⟨beyond, nonzero⟩ := beyond known first
    dsimp only
    split
    · rfl
    next unnamed =>
    rcases place with rfl | walked'
    · obtain ⟨tentry', read', _, _, names⟩ := named.entry
      cases read.symm.trans read'
      exact absurd names unnamed
    refine ih (.inr ⟨beyond, low⟩) ?_ (by rwa [if_neg nonzero])
    rw [if_neg nonzero]
    have size : entrySize = 148 := rfl
    omega

theorem names_iff : st.names maxnservers stack i = true ↔ st.ComesToName maxnservers stack i := by
  constructor
  · exact namesFrom_sound (.inl rfl) .here
  · rintro ⟨q, walked, named⟩
    exact namesFrom_complete (.inl rfl) (by simp) walked named

end VlState

namespace Globals

variable {g : Globals}

def stops (g : Globals) (a : UInt32) (i : Nat) : Bool :=
  if isMultiHomed (g.hostAddress i) then (g.extentAddr (g.hostAddress i)).all fun exp => a ∈ exp.list
  else g.hostAddress i = a

def placeOf (g : Globals) (i : Nat) : Option Place :=
  if isMultiHomed (g.hostAddress i) then some (extentBase (g.hostAddress i), extentIndex (g.hostAddress i)) else none

variable {a : UInt32}

theorem findAddr_pass {rest : List Nat} (passes : g.stops a i = false) :
    g.findAddr a (i :: rest) = g.findAddr a rest := by
  rw [findAddr]
  unfold stops at passes
  split at passes
  · next multi =>
    cases entry : g.extentAddr (g.hostAddress i) with
    | none =>
      rw [entry] at passes
      cases passes
    | some exp =>
      rw [entry] at passes
      have range := extentAddr_some entry
      rw [if_pos multi, if_neg (by omega)]
      simpa using fun holds => absurd holds (by simpa using passes)
  · next single => rw [if_neg single, if_neg (by simpa using passes)]

theorem findAddr_stop {rest : List Nat} (stops : g.stops a i = true) :
    g.Bad i ∧ (g.findAddr a (i :: rest) = .error .internal ∨ g.findAddr a (i :: rest) = .error .fault) ∨
      ¬ g.Bad i ∧ g.findAddr a (i :: rest) = .ok (some (i, g.placeOf i)) := by
  rw [findAddr]
  unfold Globals.stops at stops
  unfold Bad placeOf
  split at stops
  · next multi =>
    rw [if_pos multi, if_pos multi]
    cases entry : g.extentAddr (g.hostAddress i) with
    | none =>
      refine .inl ⟨⟨multi, rfl⟩, ?_⟩
      split
      · exact .inl rfl
      · exact .inr rfl
    | some exp =>
      have range := extentAddr_some entry
      rw [entry] at stops
      refine .inr ⟨by simp, ?_⟩
      rw [if_neg (by omega)]
      exact if_pos (by simpa using stops)
  · next single =>
    rw [if_neg single, if_neg single]
    exact .inr ⟨fun bad => single bad.1, if_pos (by simpa using stops)⟩

theorem findAddr_none {l : List Nat} (vain : l.find? (g.stops a) = none) : g.findAddr a l = .ok none := by
  induction l with
  | nil => rfl
  | cons i rest ih =>
    rw [List.find?_cons] at vain
    split at vain
    · cases vain
    · next passes => rw [findAddr_pass passes, ih vain]

theorem findAddr_some {l : List Nat} (found : l.find? (g.stops a) = some i) :
    g.Bad i ∧ (g.findAddr a l = .error .internal ∨ g.findAddr a l = .error .fault) ∨
      ¬ g.Bad i ∧ g.findAddr a l = .ok (some (i, g.placeOf i)) := by
  induction l with
  | nil => cases found
  | cons j rest ih =>
    rw [List.find?_cons] at found
    split at found
    · next stops =>
      cases found
      exact findAddr_stop stops
    · next passes =>
      rw [findAddr_pass passes]
      exact ih found

theorem stops_iff : g.stops a i = true ↔ g.Bad i ∨ g.Has i a ∨ a = 0 ∧ g.hostAddress i = 0 := by
  unfold stops Bad Has
  by_cases multi : isMultiHomed (g.hostAddress i) = true
  · have used : g.hostAddress i ≠ 0 := by
      intro free
      rw [free] at multi
      exact absurd multi (by decide)
    rw [if_pos multi, if_pos multi]
    cases g.extentAddr (g.hostAddress i) with
    | none => simp [multi]
    | some exp =>
      have nonzero (holds : a ∈ exp.list) : a ≠ 0 := (exp.mem_list.1 holds).1
      simp only [Option.all_some, decide_eq_true_eq, reduceCtorEq, and_false, false_or, used, or_false, Option.some.injEq,
        exists_eq_left']
      exact ⟨fun holds => ⟨nonzero holds, holds⟩, And.right⟩
  · rw [if_neg multi, if_neg multi]
    simp only [decide_eq_true_eq, multi, false_and, false_or, Bool.false_eq_true]
    constructor
    · rintro rfl
      exact (em _).symm.imp (⟨·, rfl⟩) fun free => ⟨free, free⟩
    · rintro (⟨_, same⟩ | ⟨rfl, free⟩)
      · exact same
      · exact free

theorem Bad.not_has (bad : g.Bad i) : ¬ g.Has i a := by
  rintro ⟨_, holds⟩
  rw [if_pos bad.1, bad.2] at holds
  obtain ⟨_, none_, _⟩ := holds
  cases none_

def changed (g : Globals) (i : Nat) (new : UInt32) : Globals :=
  (match g.placeOf i with
    | none => g
    | some p => g.modifyEntry p clearUuid).setSlot i new

theorem changed_extentAddr (i : Nat) (new host : UInt32) : (g.changed i new).extentAddr host = (g.extentAddr host).map fun exp =>
        if some (extentBase host, extentIndex host) = g.placeOf i then clearUuid exp else exp := by
  unfold changed
  cases g.placeOf i with
  | none => simp [setSlot, extentAddr]
  | some p =>
    refine (modifyEntry_extentAddr p host clearUuid).trans ?_
    simp only [Option.some.injEq]

theorem changed_hostAddress (i j : Nat) (new : UInt32) :
    (g.changed i new).hostAddress j = if j = i then new else g.hostAddress j := by
  unfold changed
  cases g.placeOf i <;> exact Function.update_apply ..

theorem changed_ipMappedAddr (i j : Nat) (new : UInt32) :
    (g.changed i new).cheader.ipMappedAddr j = if j = i then new else g.cheader.ipMappedAddr j := by
  unfold changed
  cases g.placeOf i <;> exact Function.update_apply ..

theorem changed_has {j : Nat} (other : j ≠ i) (new a : UInt32) : (g.changed i new).Has j a ↔ g.Has j a := by
  unfold Has
  rw [changed_hostAddress, if_neg other, changed_extentAddr]
  cases g.extentAddr (g.hostAddress j) with
  | none => rfl
  | some exp =>
    have list : (if some (extentBase (g.hostAddress j), extentIndex (g.hostAddress j)) = g.placeOf i then clearUuid exp
        else exp).list = exp.list := by
      split <;> rfl
    simp only [Option.map_some, Option.some.injEq, exists_eq_left', list]

theorem changed_has_self {new : UInt32} (single : ¬ isMultiHomed new) (a : UInt32) :
    (g.changed i new).Has i a ↔ a ≠ 0 ∧ new = a := by
  unfold Has
  rw [changed_hostAddress, if_pos rfl, if_neg single]

theorem changed_same {j : Nat} {old : UInt32} (other : j ≠ i) (has : g.Has i old) (not : ¬ g.Has j old) (new : UInt32) :
    g.SameSlot (g.changed i new) j where
  hostAddress := by rw [changed_hostAddress, if_neg other]
  ipMappedAddr := by rw [changed_ipMappedAddr, if_neg other]
  entry multi := by
    rw [changed_extentAddr]
    cases entry : g.extentAddr (g.hostAddress j) with
    | none => rfl
    | some exp =>
      rw [Option.map_some, if_neg]
      intro shared
      unfold placeOf at shared
      split at shared
      · next multi' =>
        obtain ⟨base, index⟩ := Prod.mk.inj (Option.some.inj shared)
        unfold Has at has not
        rw [if_pos multi'] at has
        rw [if_pos multi] at not
        have sameEntry : g.extentAddr (g.hostAddress j) = g.extentAddr (g.hostAddress i) := by
          unfold extentAddr
          rw [base, index]
        exact not (sameEntry ▸ has)
      · cases shared

end Globals

section Change

variable {st : VlState} {maxnservers : Nat} {stack : Image} {volumes : List Nat} {old new : UInt32} {s : TableState}

theorem changeSlot_exec (i : Nat) : (isMultiHomed (s.mem.hostAddress i) ∧ s.mem.exAddr 0 = none ∨
        s.writes < (if isMultiHomed (s.mem.hostAddress i) then 2 else 1) →
      ∃ c, c ≠ .noEnt ∧ ((changeSlot i (s.mem.placeOf i) new).exec s).1 = .error c) ∧
    (¬ (isMultiHomed (s.mem.hostAddress i) ∧ s.mem.exAddr 0 = none ∨
        s.writes < (if isMultiHomed (s.mem.hostAddress i) then 2 else 1)) →
      ((changeSlot i (s.mem.placeOf i) new).exec s).1 = .ok () ∧
        ((changeSlot i (s.mem.placeOf i) new).exec s).2.mem = s.mem.changed i new) := by
  unfold Globals.changed Globals.placeOf changeSlot
  by_cases multi : isMultiHomed (s.mem.hostAddress i) = true
  · rw [if_pos multi, if_pos multi]
    simp only [exec_bind, exec_modifyMem, exec_writeEntry, exec_vlwrite, Globals.modifyEntry_contaddr]
    cases first : s.mem.exAddr 0 with
    | none => simp [Globals.contaddr, first, multi]
    | some block =>
      simp only [Globals.contaddr, first, Option.map_some, reduceCtorEq, and_false, false_or]
      by_cases none_ : s.writes = 0
      · simp [none_]
      by_cases one : s.writes = 1
      · simp [one, TableState.modifyBlock]
      · have enough : ¬ s.writes < 2 := by omega
        have left : ¬ s.writes - 1 = 0 := by omega
        simp [none_, enough, left, TableState.modifyBlock, TableState.putSlot]
  · rw [if_neg multi, if_neg multi]
    simp only [exec_bind, exec_modifyMem, exec_vlwrite, multi, false_and, false_or, Bool.false_eq_true]
    by_cases none_ : s.writes = 0
    · simp [none_]
    · have enough : ¬ s.writes < 1 := by omega
      simp [none_, enough, TableState.putSlot]

variable (st maxnservers stack new) in
theorem changeFound_at (found : s.mem.findAddr old slots = .ok (some (i, s.mem.placeOf i))) (below : i < maxServerId) :
    (Refused st maxnservers stack new s i → ∃ c, c ≠ .noEnt ∧ ((changeFound st maxnservers stack old new).exec s).1 = .error c) ∧
    (¬ Refused st maxnservers stack new s i → ((changeFound st maxnservers stack old new).exec s).1 = .ok () ∧
        ((changeFound st maxnservers stack old new).exec s).2.mem = s.mem.changed i new) := by
  have run : (changeFound st maxnservers stack old new).exec s =
      if new = 0 ∧ st.names maxnservers stack i then (.error .idExist, s)
      else (changeSlot i (s.mem.placeOf i) new).exec s := by
    unfold changeFound
    simp only [exec_bind, exec_get, exec_liftExcept, found, if_neg (Nat.not_le.2 below)]
    split <;> rfl
  unfold Refused
  rw [run, ← VlState.names_iff]
  by_cases named : new = 0 ∧ st.names maxnservers stack i = true
  · rw [if_pos named]
    exact ⟨fun _ => ⟨.idExist, by decide, rfl⟩, fun free => absurd (.inl named) free⟩
  · rw [if_neg named, or_iff_right named]
    exact changeSlot_exec i

theorem changeable_iff {g : Globals} (inside : i ∈ slots) (has : g.Has i old) (single : ¬ isMultiHomed new) :
    (∃ i' ∈ slots, g.Has i' old ∧ (g.changed i new).hostAddress i' = new ∧
      (∀ j ∈ slots, j ≠ i' → g.SameSlot (g.changed i new) j) ∧ (∀ j ∈ slots, ¬ (g.changed i new).Has j old) ∧
      (g.Apart → (g.changed i new).Apart) ∧ (new = 0 → ∀ b ∈ volumes, ¬ st.Refers maxnservers stack b i')) ↔
    Changeable st maxnservers stack volumes old new g i := by
  constructor
  · rintro ⟨i', inside', has', _, _, gone, apart, unused⟩
    have others : ∀ j ∈ slots, j ≠ i → ¬ g.Has j old := by
      intro j known other holds
      exact gone j known ((Globals.changed_has other new old).2 holds)
    have same : i' = i := by
      by_contra other
      exact others i' inside' other has'
    subst same
    refine ⟨?_, others, ?_, unused⟩
    · rintro rfl
      exact gone i' inside ((Globals.changed_has_self single new).2 ⟨has.1, rfl⟩)
    intro was
    by_cases free : new = 0
    · exact .inl free
    · refine .inr fun j known other holds => other ?_
      exact apart was j known i' inside new ((Globals.changed_has other new new).2 holds)
        ((Globals.changed_has_self single new).2 ⟨free, rfl⟩)
  intro ok
  refine ⟨i, inside, has, by rw [Globals.changed_hostAddress, if_pos rfl], ?_, ?_, ?_, ok.unused⟩
  · intro j known other
    exact Globals.changed_same other has (ok.single j known other) new
  · intro j known holds
    by_cases here : j = i
    · subst here
      exact ok.other ((Globals.changed_has_self single old).1 holds).2
    · exact ok.single j known here ((Globals.changed_has here new old).1 holds)
  intro was j known k known' a holds holds'
  have fresh {j : Nat} (known : j ∈ slots) (other : j ≠ i) (holds : g.Has j a) : ¬ (a ≠ 0 ∧ new = a) := by
    rintro ⟨nonzero, rfl⟩
    exact (ok.fresh was).elim nonzero fun none_ => none_ j known other holds
  by_cases here : j = i
  · by_cases here' : k = i
    · rw [here, here']
    · rw [here, Globals.changed_has_self single] at holds
      exact absurd holds (fresh known' here' ((Globals.changed_has here' new a).1 holds'))
  rw [Globals.changed_has here] at holds
  by_cases here' : k = i
  · rw [here', Globals.changed_has_self single] at holds'
    exact absurd holds' (fresh known here holds)
  · exact was j known k known' a holds ((Globals.changed_has here' new a).1 holds')

theorem changedAddrs_single (ipaddr1 : UInt32) {ipaddr2 : UInt32} (single : ¬ isMultiHomed ipaddr2) :
    ¬ isMultiHomed (changedAddrs ipaddr1 ipaddr2).2 := by
  unfold changedAddrs
  split
  · exact show ¬ isMultiHomed 0 by decide
  · exact single

theorem met_of_error {g g' : Globals} {c : AddrError} (other : c ≠ .noEnt) :
    ChangeMet st maxnservers stack volumes old new g (.error c) g' ↔ ∃ i ∈ slots, g.Has i old := by
  constructor
  · intro met
    by_contra absent
    exact other (Except.error.inj (met.noEnt.2 fun i inside holds => absent ⟨i, inside, holds⟩))
  · rintro ⟨i, inside, holds⟩
    refine ⟨⟨fun same => absurd (Except.error.inj same) other, fun absent => absurd holds (absent i inside)⟩, nofun⟩

theorem met_of_noEnt {g g' : Globals} :
    ChangeMet st maxnservers stack volumes old new g (.error .noEnt) g' ↔ ∀ i ∈ slots, ¬ g.Has i old := by
  constructor
  · intro met
    exact met.noEnt.1 rfl
  · intro absent
    exact ⟨⟨fun _ => absent, fun _ => rfl⟩, nofun⟩

theorem changed_none {refused : Prop} (accepted : ¬ refused) (vain : slots.find? (s.mem.stops old) = none) :
    ChangeMet st maxnservers stack volumes old new s.mem ((changeFound st maxnservers stack old new).exec s).1
        ((changeFound st maxnservers stack old new).exec s).2.mem ↔
      ChangeHolds st maxnservers stack volumes old new refused s := by
  have passes (i : Nat) (inside : i ∈ slots) : ¬ (s.mem.Bad i ∨ s.mem.Has i old ∨ old = 0 ∧ s.mem.hostAddress i = 0) :=
    fun stops => List.find?_eq_none.1 vain i inside (Globals.stops_iff.2 stops)
  have absent (i : Nat) (inside : i ∈ slots) : ¬ s.mem.Has i old := fun holds => passes i inside (.inr (.inl holds))
  have run : (changeFound st maxnservers stack old new).exec s = (.error .noEnt, s) := by
    unfold changeFound
    simp only [exec_bind, exec_get, exec_liftExcept, Globals.findAddr_none vain]
    rfl
  rw [run]
  refine iff_of_true (met_of_noEnt.2 absent) ⟨fun _ => ⟨accepted, ?_, ?_⟩, ?_⟩
  · intro i inside bad
    exact passes i inside (.inl bad)
  · intro zero i below free
    exact passes i (List.mem_range.2 (Nat.lt_succ_of_lt below)) (.inr (.inr ⟨zero, free⟩))
  · intro i inside holds
    exact absurd holds (absent i inside)

theorem changeFound_error {c : AddrError} (search : s.mem.findAddr old slots = .error c) :
    (changeFound st maxnservers stack old new).exec s = (.error c, s) := by
  unfold changeFound
  simp only [exec_bind, exec_get, exec_liftExcept, search]

theorem changed_bad {refused : Prop} (found : slots.find? (s.mem.stops old) = some i) (bad : s.mem.Bad i) :
    ChangeMet st maxnservers stack volumes old new s.mem ((changeFound st maxnservers stack old new).exec s).1
        ((changeFound st maxnservers stack old new).exec s).2.mem ↔
      ChangeHolds st maxnservers stack volumes old new refused s := by
  obtain ⟨_, inside, before⟩ := List.find?_range_eq_some.1 found
  have failed : ∃ c, c ≠ .noEnt ∧ ((changeFound st maxnservers stack old new).exec s).1 = .error c := by
    rcases Globals.findAddr_some found with ⟨_, internal | fault⟩ | ⟨good, _⟩
    · exact ⟨.internal, by decide, congrArg Prod.fst (changeFound_error internal)⟩
    · exact ⟨.fault, by decide, congrArg Prod.fst (changeFound_error fault)⟩
    · exact absurd bad good
  obtain ⟨c, other, failed⟩ := failed
  rw [failed, met_of_error other]
  constructor
  · rintro ⟨k, known, holds⟩
    refine ⟨fun absent => absurd holds (absent k known), fun k _ holds _ => .inr (.inl ⟨i, ?_, bad⟩)⟩
    rcases Nat.lt_trichotomy i k with later | rfl | earlier
    · exact later
    · exact absurd holds bad.not_has
    · exact absurd (Globals.stops_iff.2 (.inr (.inl holds))) (by simpa using before k earlier)
  · intro met
    by_contra absent
    exact (met.absent fun k known holds => absent ⟨k, known, holds⟩).2.1 i inside bad

theorem changeFound_last {exp : Option Place} (search : s.mem.findAddr old slots = .ok (some (maxServerId, exp))) :
    (changeFound st maxnservers stack old new).exec s = (.error .noEnt, s) := by
  unfold changeFound
  simp only [exec_bind, exec_get, exec_liftExcept, search, le_refl, if_true]
  rfl

theorem changed_good (single : ¬ isMultiHomed new) {refused : Prop} (accepted : ¬ refused)
    (found : slots.find? (s.mem.stops old) = some i) (good : ¬ s.mem.Bad i) :
    ChangeMet st maxnservers stack volumes old new s.mem ((changeFound st maxnservers stack old new).exec s).1
        ((changeFound st maxnservers stack old new).exec s).2.mem ↔
      ChangeHolds st maxnservers stack volumes old new refused s := by
  obtain ⟨stops, inside, before⟩ := List.find?_range_eq_some.1 found
  have passes (j : Nat) (earlier : j < i) : ¬ (s.mem.Bad j ∨ s.mem.Has j old ∨ old = 0 ∧ s.mem.hostAddress j = 0) :=
    fun stops => absurd (Globals.stops_iff.2 stops) (by simpa using before j earlier)
  have search : s.mem.findAddr old slots = .ok (some (i, s.mem.placeOf i)) :=
    ((Globals.findAddr_some found).resolve_left fun bad => good bad.1).2
  have first (k : Nat) (holds : s.mem.Has k old) (none_ : ∀ j < k, ¬ s.mem.Has j old) (has : s.mem.Has i old) : k = i := by
    rcases Nat.lt_trichotomy k i with earlier | same | later
    · exact absurd (.inr (.inl holds)) (passes k earlier)
    · exact same
    · exact absurd has (none_ i later)
  have low : i ≤ maxServerId := Nat.le_of_lt_succ (List.mem_range.1 inside)
  rcases Nat.eq_or_lt_of_le low with last | below
  · rw [changeFound_last (last ▸ search), met_of_noEnt]
    rcases (Globals.stops_iff.1 stops).resolve_left good with has | ⟨zero, free⟩
    · refine iff_of_false (fun absent => absent i inside has) fun met => ?_
      rcases met.present i inside has fun j earlier holds => passes j earlier (.inr (.inl holds)) with
        refused | ⟨j, earlier, bad⟩ | ⟨notLast, _⟩
      · exact accepted refused
      · exact passes j earlier (.inl bad)
      · exact notLast last
    have absent : ∀ k ∈ slots, ¬ s.mem.Has k old := fun k _ holds => holds.1 zero
    refine iff_of_true absent ⟨fun _ => ⟨accepted, ?_, ?_⟩, fun k known holds => absurd holds (absent k known)⟩
    · intro k known bad
      rcases Nat.eq_or_lt_of_le (Nat.le_of_lt_succ (List.mem_range.1 known)) with last' | below
      · exact good (by rwa [last, ← last'])
      · exact passes k (by omega) (.inl bad)
    · intro _ k below free
      exact passes k (by omega) (.inr (.inr ⟨zero, free⟩))
  obtain ⟨failed, done⟩ := changeFound_at st maxnservers stack new search below
  rcases (Globals.stops_iff.1 stops).resolve_left good with has | ⟨zero, free⟩
  · have present : ChangeHolds st maxnservers stack volumes old new refused s ↔
        Refused st maxnservers stack new s i ∨ Changeable st maxnservers stack volumes old new s.mem i := by
      constructor
      · intro met
        rcases met.present i inside has fun j earlier holds => passes j earlier (.inr (.inl holds)) with
          refused | ⟨j, earlier, bad⟩ | ⟨_, ok⟩
        · exact absurd refused accepted
        · exact absurd (.inl bad) (passes j earlier)
        · exact ok
      · intro ok
        refine ⟨fun absent => absurd has (absent i inside), fun k _ holds none_ => ?_⟩
        rw [first k holds none_ has]
        exact .inr (.inr ⟨by omega, ok⟩)
    rw [present]
    by_cases refusing : Refused st maxnservers stack new s i
    · obtain ⟨c, other, failed⟩ := failed refusing
      rw [failed]
      exact iff_of_true ((met_of_error other).2 ⟨i, inside, has⟩) (.inl refusing)
    obtain ⟨ok, mem⟩ := done refusing
    rw [ok, mem, or_iff_right refusing, ← changeable_iff inside has single]
    constructor
    · intro met
      exact met.done rfl
    · intro made
      exact ⟨⟨nofun, fun absent => absurd has (absent i inside)⟩, fun _ => made⟩
  · have absent : ∀ k ∈ slots, ¬ s.mem.Has k old := fun k _ holds => holds.1 zero
    refine iff_of_false (fun met => ?_) fun met => (met.absent absent).2.2 zero i below free
    have noEnt := met.noEnt.2 absent
    by_cases refusing : Refused st maxnservers stack new s i
    · obtain ⟨c, other, failed⟩ := failed refusing
      rw [failed] at noEnt
      exact other (Except.error.inj noEnt)
    · rw [(done refusing).1] at noEnt
      cases noEnt

end Change

/-- A change of address is made as it should be exactly for the tables and addresses of `ChangeHolds`. -/
theorem address_changed (s : TableState) (st : VlState) (maxnservers : Nat) (stack : Image) (volumes : List Nat)
    (ipaddr1 ipaddr2 : UInt32) :
    ChangeMet st maxnservers stack volumes (changedAddrs ipaddr1 ipaddr2).1 (changedAddrs ipaddr1 ipaddr2).2 s.mem
        ((changeIPAddr st maxnservers stack ipaddr1 ipaddr2).exec s).1
        ((changeIPAddr st maxnservers stack ipaddr1 ipaddr2).exec s).2.mem ↔
      ChangeHolds st maxnservers stack volumes (changedAddrs ipaddr1 ipaddr2).1 (changedAddrs ipaddr1 ipaddr2).2
        (isMultiHomed ipaddr2) s := by
  unfold changeIPAddr
  by_cases multi : isMultiHomed ipaddr2 = true
  · rw [if_pos multi]
    constructor
    · intro met
      refine ⟨fun absent => ?_, fun _ _ _ _ => .inl multi⟩
      cases met.noEnt.2 absent
    · intro holds
      refine ⟨⟨nofun, fun absent => absurd multi (holds.absent absent).1⟩, nofun⟩
  rw [if_neg multi]
  have single := changedAddrs_single ipaddr1 multi
  generalize (changedAddrs ipaddr1 ipaddr2).1 = old
  generalize (changedAddrs ipaddr1 ipaddr2).2 = new at single ⊢
  cases found : slots.find? (s.mem.stops old) with
  | none => exact changed_none multi found
  | some i =>
    by_cases bad : s.mem.Bad i
    · exact changed_bad found bad
    · exact changed_good single multi found bad

def singleServers : TableState where
  mem := { hostAddress := fun i => 0x0a000001 + .ofNat i }
  writes := 2

def noEntries : VlState where
  cheader _ := 0
  file _ := 0

/-- The address of the server in the last slot is not changed. -/
theorem last_slot_not_found : ¬ ∀ (s : TableState) (st : VlState) (maxnservers : Nat) (stack : Image) (volumes : List Nat)
    (ipaddr1 ipaddr2 : UInt32),
    ChangeMet st maxnservers stack volumes (changedAddrs ipaddr1 ipaddr2).1 (changedAddrs ipaddr1 ipaddr2).2 s.mem
      ((changeIPAddr st maxnservers stack ipaddr1 ipaddr2).exec s).1
      ((changeIPAddr st maxnservers stack ipaddr1 ipaddr2).exec s).2.mem := by
  intro all
  have met := all singleServers noEntries 13 (fun _ => 0) [] 0x0a0000ff 0x0b000001
  have found : slots.find? (singleServers.mem.stops 0x0a0000ff) = some maxServerId := by decide +kernel
  have search := ((Globals.findAddr_some found).resolve_left fun bad => absurd bad.1.1 (by decide)).2
  exact met.noEnt.1 (congrArg Prod.fst (changeFound_last search)) maxServerId (by decide) ⟨by decide, by decide⟩

inductive Tile where
  | volume
  | free
  | extents

namespace Tile

def size : Tile → Nat
  | extents => vlAddrExtBlkSize
  | _ => entrySize

def Marks (flags : UInt32) : Tile → Prop
  | volume => flags ≠ vlContBlock ∧ flags ≠ vlFree
  | free => flags = vlFree
  | extents => flags = vlContBlock

end Tile

namespace VlState

variable (st : VlState) (maxnservers : Nat) (stack : Image)

def Laid : Nat → List Tile → Prop
  | p, [] => p = st.lastblockindex
  | p, tile :: rest => p < st.lastblockindex ∧
      (∃ tentry, st.vlentryread maxnservers stack p = .ok tentry ∧ tile.Marks tentry.flags) ∧ Laid (p + tile.size) rest

def volumesFrom : Nat → List Tile → List Nat
  | _, [] => []
  | p, .volume :: rest => p :: volumesFrom (p + entrySize) rest
  | p, tile :: rest => volumesFrom (p + tile.size) rest

variable {st maxnservers stack}

theorem mem_takeWhile_ofFn {α : Type} {n : Nat} {f : Fin n → α} {passes : α → Bool} (j : Fin n)
    (front : ∀ k ≤ j, passes (f k) = true) : f j ∈ (List.ofFn f).takeWhile passes := by
  induction n with
  | zero => exact j.elim0
  | succ n ih =>
    rw [List.ofFn_succ, List.takeWhile_cons_of_pos (front 0 (Fin.zero_le j))]
    cases j using Fin.cases with
    | zero => exact List.mem_cons_self
    | succ j =>
      exact List.mem_cons_of_mem _ (ih (f := fun k => f k.succ) j fun k le => front k.succ (Fin.succ_le_succ_iff.2 le))

theorem mem_servers {tentry : RawEntry} {j : Fin 13} (front : ∀ k ≤ j, tentry.serverNumber k ≠ badServerId) :
    tentry.serverNumber j ∈ tentry.servers :=
  mem_takeWhile_ofFn j fun k le => decide_eq_true (front k le)

variable (st maxnservers stack) in
def UsedAt (b : Nat) : Prop :=
  ∃ tentry, st.vlentryread maxnservers stack b = .ok tentry ∧ tentry.flags ≠ vlContBlock ∧ tentry.flags ≠ vlFree

theorem Laid.walked {tiles : List Tile} (laid : st.Laid maxnservers stack p tiles)
    (inside : b ∈ volumesFrom p tiles) :
    st.Walked maxnservers stack p b ∧ b < st.lastblockindex ∧ st.UsedAt maxnservers stack b := by
  induction tiles generalizing p with
  | nil => cases inside
  | cons tile rest ih =>
    obtain ⟨low, ⟨tentry, read, marks⟩, laid⟩ := laid
    have later (size : (if tentry.flags = vlContBlock then vlAddrExtBlkSize else entrySize) = tile.size)
        (inside : b ∈ volumesFrom (p + tile.size) rest) :
        st.Walked maxnservers stack p b ∧ b < st.lastblockindex ∧ st.UsedAt maxnservers stack b := by
      obtain ⟨walked, found⟩ := ih laid inside
      exact ⟨.next low read (size ▸ walked), found⟩
    cases tile with
    | volume =>
      rcases List.mem_cons.1 inside with rfl | inside
      · exact ⟨.here, low, tentry, read, marks⟩
      · exact later (if_neg marks.1) inside
    | free =>
      have free : tentry.flags = vlFree := marks
      exact later (if_neg (by rw [free]; decide)) inside
    | extents => exact later (if_pos marks) inside

theorem Laid.comesToName {tiles : List Tile} (laid : st.Laid maxnservers stack headerSize tiles)
    (inside : b ∈ volumesFrom headerSize tiles) (refers : st.Refers maxnservers stack b i) :
    st.ComesToName maxnservers stack i := by
  obtain ⟨walked, low, tentry, read, used⟩ := laid.walked inside
  obtain ⟨tentry', read', j, _, names, front⟩ := refers
  cases read.symm.trans read'
  exact ⟨b, walked, low, tentry, read, used.1, used.2, _, mem_servers front, names⟩

/-- Where entries and extension blocks lie one behind the other, every server that an entry names is found. -/
theorem named_found {tiles : List Tile} (laid : st.Laid maxnservers stack headerSize tiles)
    (inside : b ∈ volumesFrom headerSize tiles) (refers : st.Refers maxnservers stack b i) : st.names maxnservers stack i = true :=
  names_iff.mpr (laid.comesToName inside refers)

theorem named_found_first : { noEntries with cheader := putWord noEntries.cheader 12 132268 }.names 13 noEntries.file 0 = true := by
  have laid : { noEntries with cheader := putWord noEntries.cheader 12 132268 }.Laid 13 noEntries.file headerSize [.volume] :=
    ⟨by decide +kernel, ⟨_, rfl, by unfold Tile.Marks; decide +kernel⟩, by unfold Laid; decide +kernel⟩
  exact named_found laid List.mem_cons_self ⟨_, rfl, 0, by decide, by decide +kernel, by decide +kernel⟩

end VlState

end OpenAFS.Vlserver
