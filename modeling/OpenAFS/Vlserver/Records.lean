import OpenAFS.Lib.Image
import OpenAFS.Vlserver.Procs

namespace OpenAFS.Vlserver

open Lib

instance neZero_three : NeZero 3 := ⟨by decide⟩

structure RawEntry where
  volumeId : Fin 3 → UInt32 := fun _ => 0
  flags : UInt32 := 0
  lockAfsId : UInt32 := 0
  lockTimestamp : UInt32 := 0
  cloneId : UInt32 := 0
  nextIdHash : Fin 3 → UInt32 := fun _ => 0
  nextNameHash : UInt32 := 0
  name : Fin 65 → UInt8 := fun _ => 0
  serverNumber : Fin 13 → UInt8 := fun _ => 0
  serverPartition : Fin 13 → UInt8 := fun _ => 0
  serverFlags : Fin 13 → UInt8 := fun _ => 0

inductive VlCode where
  | io
  | noEnt
  | badIndex
  deriving DecidableEq, Repr

def putWords (m : Image) (p : Nat) (f : Fin 3 → UInt32) : Image :=
  putWord (putWord (putWord m p (f 0)) (p + 4) (f 1)) (p + 8) (f 2)

def getWords (m : Image) (p : Nat) : Fin 3 → UInt32 := fun t => getWord m (p + 4 * t)

def getBytes (m : Image) (p n : Nat) : Fin n → UInt8 := fun i => m (p + i)

def firstSlots (f : Fin 13 → UInt8) : Fin 8 → UInt8 := fun i => f (i.castLE (by decide))

/-- What `vlentrywrite` makes of an entry in a newer database, in memory that was not cleared. -/
def nvlentry (stack : Image) (nep : RawEntry) : Image :=
  let m := putWords stack 0 nep.volumeId
  let m := putWord m 12 nep.flags
  let m := putWord m 16 nep.lockAfsId
  let m := putWord m 20 nep.lockTimestamp
  let m := putWord m 24 nep.cloneId
  let m := putWords m 28 nep.nextIdHash
  let m := putWord m 40 nep.nextNameHash
  let m := putBytes m 44 (List.ofFn nep.name)
  let m := putBytes m 109 (List.ofFn nep.serverNumber)
  let m := putBytes m 122 (List.ofFn nep.serverPartition)
  putBytes m 135 (List.ofFn nep.serverFlags)

def vlentry (nep : RawEntry) : Image :=
  let m := putWords (fun _ => 0) 0 nep.volumeId
  let m := putWord m 12 nep.flags
  let m := putWord m 16 nep.lockAfsId
  let m := putWord m 20 nep.lockTimestamp
  let m := putWord m 24 nep.cloneId
  let m := putWords m 32 nep.nextIdHash
  let m := putWord m 44 nep.nextNameHash
  let m := putBytes m 56 (List.ofFn nep.name)
  let m := putBytes m 122 (List.ofFn (firstSlots nep.serverNumber))
  let m := putBytes m 130 (List.ofFn (firstSlots nep.serverPartition))
  putBytes m 138 (List.ofFn (firstSlots nep.serverFlags))

def fromNvlentry (m : Image) : RawEntry where
  volumeId := getWords m 0
  flags := getWord m 12
  lockAfsId := getWord m 16
  lockTimestamp := getWord m 20
  cloneId := getWord m 24
  nextIdHash := getWords m 28
  nextNameHash := getWord m 40
  name := getBytes m 44 65
  serverNumber := getBytes m 109 13
  serverPartition := getBytes m 122 13
  serverFlags := getBytes m 135 13

/-- What `vlentryread` takes out of an old entry. It copies 13 bytes of each array of 8, the last time past the end of the
    entry. -/
def fromVlentry (m : Image) : RawEntry where
  volumeId := getWords m 0
  flags := getWord m 12
  lockAfsId := getWord m 16
  lockTimestamp := getWord m 20
  cloneId := getWord m 24
  nextIdHash := getWords m 32
  nextNameHash := getWord m 44
  name := getBytes m 56 65
  serverNumber := getBytes m 122 13
  serverPartition := getBytes m 130 13
  serverFlags := getBytes m 138 13

/-- The database in a transaction: the header in memory, in network order, and the file. -/
structure VlState where
  cheader : Image
  file : Image

/-- Where the file can be read and written: a place is an `afs_int32`. -/
def Addressable (offset length : Nat) : Prop := offset + length ≤ 2 ^ 31

instance (offset length : Nat) : Decidable (Addressable offset length) := by unfold Addressable; infer_instance

namespace VlState

variable (st : VlState)

def freePtr : UInt32 := getWord st.cheader 8

def eofPtr : UInt32 := getWord st.cheader 12

def vlwrite (offset : Nat) (buffer : Image) (length : Nat) : Except VlCode VlState := do
  ensure (Addressable offset length) .io
  .ok { st with file := copy st.file offset buffer 0 length }

def vlread (offset : Nat) (buffer : Image) (length : Nat) : Except VlCode Image := do
  ensure (Addressable offset length) .io
  .ok (copy buffer 0 st.file offset length)

def vlentrywrite (maxnservers : Nat) (stack : Image) (offset : Nat) (buffer : RawEntry) : Except VlCode VlState :=
  st.vlwrite offset (if maxnservers = 13 then nvlentry stack buffer else vlentry buffer) entrySize

def vlentryread (maxnservers : Nat) (stack : Image) (offset : Nat) : Except VlCode RawEntry := do
  let bufp ← st.vlread offset stack entrySize
  .ok (if maxnservers = 13 then fromNvlentry bufp else fromVlentry bufp)

def writeVitalVlheader : Except VlCode VlState := st.vlwrite 0 st.cheader 40

def bump (o : ByteOrder) (p : Nat) : VlState :=
  { st with cheader := putBytes st.cheader p (o.store (o.load [st.cheader p, st.cheader (p + 1), st.cheader (p + 2),
    st.cheader (p + 3)] + 1)) }

def indexOK (blockindex : UInt32) : Prop := headerSize ≤ blockindex.toNat ∧ blockindex < st.eofPtr

instance (blockindex : UInt32) : Decidable (st.indexOK blockindex) := by unfold indexOK; infer_instance

def allocBlock (o : ByteOrder) (maxnservers : Nat) (stack : Image) : Except VlCode (VlState × UInt32) :=
  if st.freePtr ≠ 0 then do
    let blockindex := st.freePtr
    let tentry ← st.vlentryread maxnservers stack blockindex.toNat
    let st := { st with cheader := putWord st.cheader 8 (tentry.nextIdHash 0) }
    let st ← (st.bump o 16).writeVitalVlheader
    .ok (st, blockindex)
  else do
    let blockindex := st.eofPtr
    let st := { st with cheader := putWord st.cheader 12 (blockindex + UInt32.ofNat entrySize) }
    let st ← (st.bump o 16).writeVitalVlheader
    .ok (st, blockindex)

/-- `FreeBlock`. It writes its block in the layout of the newer databases. -/
def freeBlock (o : ByteOrder) (blockindex : UInt32) : Except VlCode VlState := do
  ensure (st.indexOK blockindex) .badIndex
  let tentry := putWord (putWord (fun _ => 0) 28 st.freePtr) 12 vlFree
  let st := { st with cheader := putWord st.cheader 8 blockindex }
  let st ← st.vlwrite blockindex.toNat tentry entrySize
  (st.bump o 20).writeVitalVlheader

end VlState

variable {m m' : Image} {p q n : Nat} {f : Fin 3 → UInt32}

theorem getWords_putWords : getWords (putWords m p f) p = f := by
  funext t
  unfold getWords putWords
  match t with
  | 0 =>
    rw [getWord_putWord_apart (by simp), getWord_putWord_apart (by simp)]
    exact getWord_putWord
  | 1 =>
    rw [getWord_putWord_apart (by simp)]
    exact getWord_putWord
  | 2 => exact getWord_putWord

theorem putWords_outside (outside : q < p ∨ p + 12 ≤ q) : putWords m p f q = m q := by
  unfold putWords
  rw [putWord_outside (by omega), putWord_outside (by omega), putWord_outside (by omega)]

theorem getWord_putWords_apart (apart : q + 4 ≤ p ∨ p + 12 ≤ q) : getWord (putWords m p f) q = getWord m q :=
  getWord_congr fun i small => putWords_outside (by omega)

theorem getWords_congr (same : ∀ i < 12, m (p + i) = m' (q + i)) : getWords m p = getWords m' q := by
  funext t
  refine getWord_congr fun i small => ?_
  have here := same (4 * t + i) (by omega)
  rwa [← Nat.add_assoc, ← Nat.add_assoc] at here

theorem getWords_putWord_apart {x : UInt32} (apart : q + 12 ≤ p ∨ p + 4 ≤ q) : getWords (putWord m p x) q = getWords m q :=
  getWords_congr fun i small => putWord_outside (by omega)

theorem getWords_putWords_apart (apart : q + 12 ≤ p ∨ p + 12 ≤ q) : getWords (putWords m p f) q = getWords m q :=
  getWords_congr fun i small => putWords_outside (by omega)

theorem getWords_putBytes_apart {f : Fin n → UInt8} (apart : q + 12 ≤ p ∨ p + n ≤ q) :
    getWords (putBytes m p (List.ofFn f)) q = getWords m q :=
  getWords_congr fun i small => putBytes_ofFn_outside (by omega)

theorem getBytes_putBytes {f : Fin n → UInt8} : getBytes (putBytes m p (List.ofFn f)) p n = f := by
  funext i
  exact putBytes_ofFn i

theorem getBytes_putBytes_apart {k : Nat} {f : Fin n → UInt8} (apart : q + k ≤ p ∨ p + n ≤ q) :
    getBytes (putBytes m p (List.ofFn f)) q k = getBytes m q k := by
  funext i
  exact putBytes_ofFn_outside (by omega)

theorem getBytes_congr (same : ∀ i < n, m (p + i) = m' (q + i)) : getBytes m p n = getBytes m' q n := by
  funext i
  exact same i i.isLt

theorem fromNvlentry_nvlentry (stack : Image) (e : RawEntry) : fromNvlentry (nvlentry stack e) = e := by
  unfold fromNvlentry nvlentry
  simp (disch := decide) only [getWords_putWords, getWords_putWord_apart, getWords_putWords_apart, getWords_putBytes_apart,
    getWord_putWord, getWord_putWord_apart, getWord_putWords_apart, getWord_putBytes_apart, getBytes_putBytes,
    getBytes_putBytes_apart]

theorem fromNvlentry_congr (same : ∀ i < entrySize, m i = m' i) : fromNvlentry m = fromNvlentry m' := by
  have words (p : Nat) (inside : p + 12 ≤ entrySize) : getWords m p = getWords m' p :=
    getWords_congr fun i small => same (p + i) (by omega)
  have word (p : Nat) (inside : p + 4 ≤ entrySize) : getWord m p = getWord m' p :=
    getWord_congr fun i small => same (p + i) (by omega)
  have bytes (p n : Nat) (inside : p + n ≤ entrySize) : getBytes m p n = getBytes m' p n :=
    getBytes_congr fun i small => same (p + i) (by omega)
  unfold fromNvlentry
  rw [words 0 (by decide), word 12 (by decide), word 16 (by decide), word 20 (by decide), word 24 (by decide),
    words 28 (by decide), word 40 (by decide), bytes 44 65 (by decide), bytes 109 13 (by decide),
    bytes 122 13 (by decide), bytes 135 13 (by decide)]

def readBack (stack : Image) (e : RawEntry) : RawEntry :=
  { e with
    serverNumber := fun i => if i.val < 8 then e.serverNumber i else e.serverPartition ⟨i.val - 8, by omega⟩
    serverPartition := fun i => if i.val < 8 then e.serverPartition i else e.serverFlags ⟨i.val - 8, by omega⟩
    serverFlags := fun i => if i.val < 8 then e.serverFlags i else if i.val < 10 then 0 else stack (138 + i.val) }

/-- By chance, what lies behind the arrays of 8 is what the slots behind them hold. -/
structure Survives (stack : Image) (e : RawEntry) : Prop where
  numbers : ∀ i : Fin 13, 8 ≤ i.val → e.serverNumber i = e.serverPartition ⟨i.val - 8, by omega⟩
  partitions : ∀ i : Fin 13, 8 ≤ i.val → e.serverPartition i = e.serverFlags ⟨i.val - 8, by omega⟩
  spares : ∀ i : Fin 13, 8 ≤ i.val → i.val < 10 → e.serverFlags i = 0
  behind : ∀ i : Fin 13, 10 ≤ i.val → e.serverFlags i = stack (138 + i.val)

theorem readBack_eq_iff {stack : Image} {e : RawEntry} : readBack stack e = e ↔ Survives stack e := by
  constructor
  · intro same
    constructor
    · intro i late
      have here := congrFun (congrArg RawEntry.serverNumber same) i
      exact here.symm.trans (if_neg (by omega))
    · intro i late
      have here := congrFun (congrArg RawEntry.serverPartition same) i
      exact here.symm.trans (if_neg (by omega))
    · intro i late early
      have here := congrFun (congrArg RawEntry.serverFlags same) i
      exact here.symm.trans ((if_neg (by omega)).trans (if_pos early))
    · intro i late
      have here := congrFun (congrArg RawEntry.serverFlags same) i
      exact here.symm.trans ((if_neg (by omega)).trans (if_neg (by omega)))
  intro ok
  unfold readBack
  congr 1
  · funext i
    split
    · rfl
    · exact (ok.numbers i (by omega)).symm
  · funext i
    split
    · rfl
    · exact (ok.partitions i (by omega)).symm
  · funext i
    split
    · rfl
    · split
      · exact (ok.spares i (by omega) (by omega)).symm
      · exact (ok.behind i (by omega)).symm

theorem not_survives {stack : Image} {e : RawEntry} (empty : ∀ i : Fin 13, 8 ≤ i.val → e.serverFlags i = badServerId) :
    ¬ Survives stack e := by
  intro ok
  have zero := ok.spares 8 (by decide) (by decide)
  rw [empty 8 (by decide)] at zero
  cases zero

theorem putBytes_firstSlots {f : Fin 13 → UInt8} {i : Fin 13} (small : i.val < 8) :
    putBytes m p (List.ofFn (firstSlots f)) (p + i.val) = f i := putBytes_ofFn (⟨i.val, small⟩ : Fin 8)

theorem vlentry_fields (e : RawEntry) :
    getWords (vlentry e) 0 = e.volumeId ∧ getWord (vlentry e) 12 = e.flags ∧ getWord (vlentry e) 16 = e.lockAfsId ∧
      getWord (vlentry e) 20 = e.lockTimestamp ∧ getWord (vlentry e) 24 = e.cloneId ∧
      getWords (vlentry e) 32 = e.nextIdHash ∧ getWord (vlentry e) 44 = e.nextNameHash ∧
      getBytes (vlentry e) 56 65 = e.name := by
  unfold vlentry
  simp (disch := decide) only [getWords_putWords, getWords_putWord_apart, getWords_putWords_apart, getWords_putBytes_apart,
    getWord_putWord, getWord_putWord_apart, getWord_putWords_apart, getWord_putBytes_apart, getBytes_putBytes,
    getBytes_putBytes_apart, and_self]

theorem fromVlentry_vlentry (e : RawEntry) {stack : Image} (inside : ∀ i < entrySize, m i = vlentry e i)
    (behind : ∀ i < 3, m (entrySize + i) = stack (entrySize + i)) : fromVlentry m = readBack stack e := by
  have words (p : Nat) (within : p + 12 ≤ entrySize) : getWords m p = getWords (vlentry e) p :=
    getWords_congr fun i small => inside (p + i) (by omega)
  have word (p : Nat) (within : p + 4 ≤ entrySize) : getWord m p = getWord (vlentry e) p :=
    getWord_congr fun i small => inside (p + i) (by omega)
  have name : getBytes m 56 65 = getBytes (vlentry e) 56 65 :=
    getBytes_congr fun i small => inside (56 + i) (by unfold entrySize; omega)
  have number (i : Fin 13) (small : i.val < 8) : vlentry e (122 + i.val) = e.serverNumber i := by
    unfold vlentry
    rw [putBytes_ofFn_outside (by omega), putBytes_ofFn_outside (by omega), putBytes_firstSlots small]
  have partition_ (i : Fin 13) (small : i.val < 8) : vlentry e (130 + i.val) = e.serverPartition i := by
    unfold vlentry
    rw [putBytes_ofFn_outside (by omega), putBytes_firstSlots small]
  have flag (i : Fin 13) (small : i.val < 8) : vlentry e (138 + i.val) = e.serverFlags i := by
    unfold vlentry
    rw [putBytes_firstSlots small]
  have spare (q : Nat) (late : 146 ≤ q) : vlentry e q = 0 := by
    unfold vlentry
    rw [putBytes_ofFn_outside (by omega), putBytes_ofFn_outside (by omega), putBytes_ofFn_outside (by omega),
      putBytes_ofFn_outside (by omega), putWord_outside (by omega), putWords_outside (by omega),
      putWord_outside (by omega), putWord_outside (by omega), putWord_outside (by omega), putWord_outside (by omega),
      putWords_outside (by omega)]
  obtain ⟨volumeId, flags, lockAfsId, lockTimestamp, cloneId, nextIdHash, nextNameHash, nameHere⟩ := vlentry_fields e
  unfold fromVlentry readBack
  rw [words 0 (by decide), word 12 (by decide), word 16 (by decide), word 20 (by decide), word 24 (by decide),
    words 32 (by decide), word 44 (by decide), name, volumeId, flags, lockAfsId, lockTimestamp, cloneId, nextIdHash,
    nextNameHash, nameHere]
  congr 1
  · funext i
    unfold getBytes
    rw [inside _ (by unfold entrySize; omega)]
    split
    · rename_i small
      exact number i small
    · rw [show 122 + i.val = 130 + (⟨i.val - 8, by omega⟩ : Fin 13).val by simp; omega]
      exact partition_ _ (by simp; omega)
  · funext i
    unfold getBytes
    rw [inside _ (by unfold entrySize; omega)]
    split
    · rename_i small
      exact partition_ i small
    · rw [show 130 + i.val = 138 + (⟨i.val - 8, by omega⟩ : Fin 13).val by simp; omega]
      exact flag _ (by simp; omega)
  · funext i
    unfold getBytes
    split
    · rename_i small
      rw [inside _ (by unfold entrySize; omega)]
      exact flag i small
    split
    · rw [inside _ (by unfold entrySize; omega)]
      exact spare _ (by omega)
    · have last := behind (i.val - 10) (by omega)
      rwa [show entrySize + (i.val - 10) = 138 + i.val by unfold entrySize; omega] at last

namespace VlState

variable {st : VlState} {maxnservers : Nat} {stack stack' : Image}

def RoundTrip (st : VlState) (maxnservers : Nat) (stack stack' : Image) (offset : Nat) (e : RawEntry) : Prop :=
  ∃ st', st.vlentrywrite maxnservers stack offset e = .ok st' ∧ st'.vlentryread maxnservers stack' offset = .ok e

/-- A block that is freed and allocated again gives the free list back as it was. -/
def LinkKept (st : VlState) (o : ByteOrder) (maxnservers : Nat) (stack : Image) (blockindex : UInt32) : Prop :=
  ∃ st' st'', st.freeBlock o blockindex = .ok st' ∧ st'.allocBlock o maxnservers stack = .ok (st'', blockindex) ∧
    st''.freePtr = st.freePtr

variable {offset : Nat}

theorem vlwrite_ok {buffer : Image} {length : Nat} (place : Addressable offset length) :
    st.vlwrite offset buffer length = .ok { st with file := copy st.file offset buffer 0 length } :=
  ensure_then.mpr ⟨place, rfl⟩

theorem vlentryread_ok (place : Addressable offset entrySize) : st.vlentryread maxnservers stack offset = .ok
      (if maxnservers = 13 then fromNvlentry (copy stack 0 st.file offset entrySize)
      else fromVlentry (copy stack 0 st.file offset entrySize)) :=
  except_bind_eq_ok.mpr ⟨_, ensure_then.mpr ⟨place, rfl⟩, rfl⟩

theorem read_inside {i : Nat} (small : i < entrySize) : copy stack 0 st.file offset entrySize i = st.file (offset + i) := by
  have here : copy stack 0 st.file offset entrySize (0 + i) = st.file (offset + i) := copy_inside small
  rwa [Nat.zero_add] at here

theorem read_behind {i : Nat} : copy stack 0 st.file offset entrySize (entrySize + i) = stack (entrySize + i) :=
  copy_outside (by omega)

theorem reread {offset : Nat} (place : Addressable offset entrySize) (e : RawEntry) :
    ∃ st', st.vlentrywrite maxnservers stack offset e = .ok st' ∧
      st'.vlentryread maxnservers stack' offset = .ok (if maxnservers = 13 then e else readBack stack' e) := by
  refine ⟨_, vlwrite_ok place, ?_⟩
  rw [vlentryread_ok place]
  congr 1
  split
  · refine (fromNvlentry_congr fun i small => ?_).trans (fromNvlentry_nvlentry stack e)
    rw [read_inside small]
    refine (copy_inside small).trans ?_
    rw [Nat.zero_add]
  refine fromVlentry_vlentry e (fun i small => ?_) fun i _ => read_behind
  rw [read_inside small]
  refine (copy_inside small).trans ?_
  rw [Nat.zero_add]

theorem roundTrip_iff (place : Addressable offset entrySize) {e : RawEntry} :
    RoundTrip st maxnservers stack stack' offset e ↔ maxnservers = 13 ∨ Survives stack' e := by
  obtain ⟨st', written, read⟩ := @reread st maxnservers stack stack' offset place e
  have same : RoundTrip st maxnservers stack stack' offset e ↔ (if maxnservers = 13 then e else readBack stack' e) = e := by
    constructor
    · rintro ⟨st'', written', read'⟩
      cases written.symm.trans written'
      exact Except.ok.inj (read.symm.trans read')
    · intro same
      exact ⟨st', written, read.trans (congrArg Except.ok same)⟩
  rw [same]
  split
  · rename_i newer
    exact iff_of_true rfl (.inl newer)
  · rename_i older
    rw [readBack_eq_iff, or_iff_right older]

theorem freePtr_bump {o : ByteOrder} {p : Nat} (later : 12 ≤ p) : (st.bump o p).freePtr = st.freePtr :=
  getWord_congr fun i small => putBytes_outside (by omega)

def freed (freePtr : UInt32) : Image := putWord (putWord (fun _ => 0) 28 freePtr) 12 vlFree

theorem freeBlock_ok {o : ByteOrder} {blockindex : UInt32} (known : st.indexOK blockindex)
    (place : Addressable blockindex.toNat entrySize) :
    ∃ st', st.freeBlock o blockindex = .ok st' ∧ st'.freePtr = blockindex ∧
      ∀ i < entrySize, st'.file (blockindex.toNat + i) = freed st.freePtr i := by
  refine ⟨_, ensure_then.mpr ⟨known, except_bind_eq_ok.mpr ⟨_, vlwrite_ok place, vlwrite_ok (by decide)⟩⟩, ?_, ?_⟩
  · exact (freePtr_bump (by decide)).trans getWord_putWord
  intro i small
  have high := known.1
  unfold headerSize at high
  refine (copy_outside (by omega)).trans ((copy_inside small).trans ?_)
  rw [Nat.zero_add]
  rfl

theorem freed_link {blockindex : UInt32} {link : UInt32} (place : Addressable blockindex.toNat entrySize)
    (written : ∀ i < entrySize, st.file (blockindex.toNat + i) = freed link i) :
    ∃ e, st.vlentryread maxnservers stack blockindex.toNat = .ok e ∧ e.nextIdHash 0 = if maxnservers = 13 then link else 0 := by
  have word {p : Nat} (inside : p + 4 ≤ entrySize) :
      getWord (copy stack 0 st.file blockindex.toNat entrySize) p = getWord (freed link) p := by
    refine getWord_congr fun i small => ?_
    rw [read_inside (by omega), written _ (by omega)]
  refine ⟨_, vlentryread_ok place, ?_⟩
  split
  · calc
      _ = getWord (freed link) 28 := word (by decide)
      _ = link := (getWord_putWord_apart (by decide)).trans getWord_putWord
  calc
    _ = getWord (freed link) 32 := word (by decide)
    _ = getWord (fun _ => 0) 32 := (getWord_putWord_apart (by decide)).trans (getWord_putWord_apart (by decide))
    _ = 0 := rfl

theorem linkKept_iff {o : ByteOrder} {blockindex : UInt32} (known : st.indexOK blockindex)
    (place : Addressable blockindex.toNat entrySize) :
    LinkKept st o maxnservers stack blockindex ↔ maxnservers = 13 ∨ st.freePtr = 0 := by
  obtain ⟨st', done, head, written⟩ := @freeBlock_ok st o blockindex known place
  obtain ⟨e, read, link⟩ := @freed_link st' maxnservers stack blockindex st.freePtr place written
  have nonzero : st'.freePtr ≠ 0 := by
    rw [head]
    rintro rfl
    exact absurd known.1 (by decide)
  have allocated : ∃ st'', st'.allocBlock o maxnservers stack = .ok (st'', blockindex) ∧ st''.freePtr = e.nextIdHash 0 := by
    let next : VlState := bump { st' with cheader := putWord st'.cheader 8 (e.nextIdHash 0) } o 16
    refine ⟨{ next with file := copy next.file 0 next.cheader 0 40 }, ?_, ?_⟩
    · unfold allocBlock
      rw [if_pos nonzero, head]
      exact except_bind_eq_ok.mpr ⟨e, read, except_bind_eq_ok.mpr ⟨_, vlwrite_ok (by decide), rfl⟩⟩
    · exact (freePtr_bump (by decide)).trans getWord_putWord
  obtain ⟨st'', taken, rest⟩ := allocated
  have same : LinkKept st o maxnservers stack blockindex ↔ e.nextIdHash 0 = st.freePtr := by
    constructor
    · rintro ⟨_, _, done', taken', kept⟩
      cases done.symm.trans done'
      cases taken.symm.trans taken'
      exact rest.symm.trans kept
    · exact fun kept => ⟨st', st'', done, taken, rest.trans kept⟩
  rw [same, link]
  split
  · rename_i newer
    exact iff_of_true rfl (.inl newer)
  · rename_i older
    rw [or_iff_right older, eq_comm]

end VlState

/-- Entries and the free list come back as they were written in the newer databases, and in the old ones only by chance. -/
theorem records_come_back {st : VlState} {o : ByteOrder} {maxnservers offset : Nat} {stack stack' : Image}
    {blockindex : UInt32} (place : Addressable offset entrySize) (known : st.indexOK blockindex)
    (place' : Addressable blockindex.toNat entrySize) (e : RawEntry) :
    (st.RoundTrip maxnservers stack stack' offset e ↔ maxnservers = 13 ∨ Survives stack' e) ∧
      (st.LinkKept o maxnservers stack blockindex ↔ maxnservers = 13 ∨ st.freePtr = 0) :=
  ⟨VlState.roundTrip_iff place, VlState.linkKept_iff known place'⟩

def RawEntry.SitesWithin (e : RawEntry) (n : Nat) : Prop :=
  ∀ i : Fin 13, n ≤ i.val → e.serverNumber i = badServerId ∧ e.serverPartition i = badServerId ∧ e.serverFlags i = badServerId

def oneSite : RawEntry where
  serverNumber i := if i.val = 0 then 1 else badServerId
  serverPartition i := if i.val = 0 then 2 else badServerId
  serverFlags i := if i.val = 0 then 0 else badServerId

def oneBlock : VlState where
  cheader := putWord (fun _ => 0) 12 132268
  file _ := 0

theorem oneBlock_known : oneBlock.indexOK 132120 := by
  decide

theorem records_come_back_oneSite :
    (oneBlock.RoundTrip 13 (fun _ => 0) (fun _ => 7) 132120 oneSite ↔ 13 = 13 ∨ Survives (fun _ => 7) oneSite) ∧
      (oneBlock.LinkKept .little 13 (fun _ => 0) 132120 ↔ 13 = 13 ∨ oneBlock.freePtr = 0) :=
  records_come_back (by decide) oneBlock_known (by decide) oneSite

/-- In an old database an entry with one site does not come back. -/
theorem old_entry_changes : ¬ ∀ (st : VlState) (o : ByteOrder) (maxnservers offset : Nat) (stack stack' : Image)
    (blockindex : UInt32) (e : RawEntry), Addressable offset entrySize → st.indexOK blockindex →
      Addressable blockindex.toNat entrySize → e.SitesWithin (if maxnservers = 13 then nMaxNServers else oMaxNServers) →
      st.RoundTrip maxnservers stack stack' offset e ∧ st.LinkKept o maxnservers stack blockindex := by
  intro all
  have within : oneSite.SitesWithin oMaxNServers := by
    intro i late
    unfold oMaxNServers at late
    have apart : i.val ≠ 0 := by omega
    exact ⟨if_neg apart, if_neg apart, if_neg apart⟩
  have claimed := all oneBlock .big 8 132120 (fun _ => 0) (fun _ => 0) 132120 oneSite (by decide) oneBlock_known
    (by decide) within
  rcases (VlState.roundTrip_iff (by decide)).mp claimed.1 with newer | survives
  · cases newer
  · exact not_survives (fun i late => (within i late).2.2) survives

end OpenAFS.Vlserver
