import OpenAFS.Vol.CloneIndex
import OpenAFS.Vol.StreamLaws

namespace OpenAFS.Vol

open Lib List

namespace VnodeDiskObject

variable (host : ByteOrder) (v : VnodeDiskObject) (cloned : Bool)

@[simp] theorem length_setCloned : (v.setCloned host cloned).length = v.length := by
  cases v <;> rfl

theorem pread_setCloned {pos : Nat} (n : Nat) (behind : 0 < pos) : pread (v.setCloned host cloned) pos n = pread v pos n := by
  cases v with
  | nil => rfl
  | cons first rest =>
    obtain ⟨pos, rfl⟩ := Nat.exists_eq_succ_of_ne_zero (Nat.ne_of_gt behind)
    rfl

@[simp] theorem ino_setCloned : (v.setCloned host cloned).ino host = v.ino host := by
  unfold ino
  rw [pread_setCloned host v cloned 4 (by decide), pread_setCloned host v cloned 4 (by decide)]

theorem type_first (first : UInt8) (rest : Bytes) :
    type host ((if cloned then first ||| clonedBit host else first &&& ~~~clonedBit host) :: rest) = type host (first :: rest) := by
  have little (b : BitVec 8) : (b ||| 8) &&& 7 = b &&& 7 ∧ (b &&& ~~~8) &&& 7 = b &&& 7 := by
    revert b
    decide +kernel
  have big (b : BitVec 8) : (b ||| 16) >>> 5 = b >>> 5 ∧ (b &&& ~~~16) >>> 5 = b >>> 5 := by
    revert b
    decide +kernel
  cases host
  · cases cloned
    · exact UInt8.toBitVec_inj.mp (big first.toBitVec).2
    · exact UInt8.toBitVec_inj.mp (big first.toBitVec).1
  · cases cloned
    · exact UInt8.toBitVec_inj.mp (little first.toBitVec).2
    · exact UInt8.toBitVec_inj.mp (little first.toBitVec).1

@[simp] theorem type_setCloned : (v.setCloned host cloned).type host = v.type host := by
  cases v with
  | nil => rfl
  | cons first rest => exact type_first host cloned first rest

end VnodeDiskObject

def chunks (size : Nat) : Nat → Bytes → List Bytes
  | 0, _ => []
  | n + 1, file => file.take size :: chunks size n (file.drop size)

def records (size : Nat) (file : Bytes) : List VnodeDiskObject := chunks size (file.length / size) file

theorem records_cons {size : Nat} {file : Bytes} (some : 0 < size) (within : size ≤ file.length) :
    records size file = file.take size :: records size (file.drop size) := by
  unfold records
  have one : file.length / size = (file.drop size).length / size + 1 := by
    rw [length_drop]
    exact Nat.div_eq_sub_div some within
  rw [one]
  rfl

theorem records_nil {size : Nat} {file : Bytes} (short : file.length < size) : records size file = [] := by
  unfold records
  rw [Nat.div_eq_of_lt short]
  rfl

def firstInode (host : ByteOrder) (olds : List VnodeDiskObject) : BitVec 64 := (olds.head?.map fun v => v.ino host).getD 0

section

variable (a : CloneArgs)

def cloneSlot (v : VnodeDiskObject) (clinode : BitVec 64) (links : BitVec 64 → Nat) (items : List (BitVec 64)) :
    Except Int ((BitVec 64 → Nat) × List (BitVec 64)) :=
  let queued := if clinode ≠ 0 then items ++ [clinode] else items
  if v.type a.host = vNull then .ok (links, queued)
  else if v.vnodeMagic a.host ≠ a.vcp.magic then .error badMagic
  else if clinode ≠ 0 ∧ clinode = v.ino a.host then .ok (links, items)
  else if v.ino a.host = 0 then .ok (links, queued)
  else if maxLinks ≤ links (v.ino a.host) then .error eio
  else .ok (Function.update links (v.ino a.host) (links (v.ino a.host) + 1), queued)

def cloneSlots : List VnodeDiskObject → List VnodeDiskObject → (BitVec 64 → Nat) → List (BitVec 64) →
    Except Int ((BitVec 64 → Nat) × List (BitVec 64))
  | [], _, links, items => .ok (links, items)
  | v :: rest, olds, links, items => do
    let (links, items) ← cloneSlot a v (firstInode a.host olds) links items
    cloneSlots rest olds.tail links items

def marked (v : VnodeDiskObject) : VnodeDiskObject :=
  if v.type a.host = vDirectory ∧ a.readWriteOriginal then v.setCloned a.host true else v

/-- Where the call is: what the original's index holds, what has been written to the clone's index, which held `old`, and where the
old clone is read. -/
structure At (old index data : Bytes) (off : Nat) (c : CloneState) : Prop where
  fine : c.os.Fine
  rwFd : c.rwfile.fd = false
  inFd : c.clfilein.fd = true
  outFd : c.clfileout.fd = true
  rwIndex : c.os.file false = index
  rwDirection : c.rwfile.direction ≠ .write
  writing : Writing old a.vcp.diskSize data c.os c.clfileout
  behind : a.vcp.diskSize + data.length ≤ off
  inDirection : c.clfilein.direction ≠ .write
  inside : a.reclone = true → c.clfilein.eof = false ∧ Reading c.os c.clfilein off ∨
    c.clfilein.eof = true ∧ (old.drop off).length < a.vcp.diskSize
  error : c.clfileout.error = false

def olds (old : Bytes) (off : Nat) : List VnodeDiskObject :=
  if a.reclone then records a.vcp.diskSize (old.drop off) else []

variable {a} {old index data : Bytes} {off rwOff : Nat} {c : CloneState}

theorem CloneArgs.some (a : CloneArgs) : 0 < a.vcp.diskSize := Nat.lt_of_lt_of_le (by decide) a.vcp.large

section

variable (here : At a old index data off c)
include here

theorem At.clone_drop : (c.os.file true).drop off = old.drop off := by
  have same := here.writing.drop here.behind
  rwa [here.outFd] at same

theorem At.readRw (reading : Reading c.os c.rwfile rwOff) :
    ∃ c', c.readRw a.vcp.diskSize = .ok (c', pread index rwOff a.vcp.diskSize) ∧ At a old index data off c' ∧
      (a.vcp.diskSize ≤ (index.drop rwOff).length → Reading c'.os c'.rwfile (rwOff + a.vcp.diskSize)) ∧
      c'.links = c.links ∧ c'.items = c.items := by
  obtain ⟨os', s', done, on⟩ := streamRead_reads a.vcp.diskSize here.fine reading
  rw [here.rwFd, here.rwIndex] at done
  refine ⟨{ c with os := os', rwfile := s' }, except_bind_eq_ok.mpr ⟨_, done, rfl⟩, ⟨?_, ?_, here.inFd, here.outFd, ?_, ?_, ?_,
    here.behind, here.inDirection, ?_, here.error⟩, ?_, rfl, rfl⟩
  · exact fun n => (congrFun on.outcome n).trans (here.fine n)
  · exact on.fd.trans here.rwFd
  · exact (congrFun on.file false).trans here.rwIndex
  · rw [on.direction]
    simp
  · exact here.writing.congr (congrFun on.file _)
  · intro reclone
    refine (here.inside reclone).imp (fun both => ⟨both.1, both.2.congr ?_⟩) id
    rw [on.file]
  · intro within
    apply on.reading
    change _ ≤ ((c.os.file c.rwfile.fd).drop rwOff).length
    rwa [here.rwFd, here.rwIndex]

theorem At.oldInode (reading : Reading c.os c.rwfile rwOff) :
    ∃ c', c.oldInode a = .ok (c', firstInode a.host (olds a old off)) ∧ At a old index data (off + a.vcp.diskSize) c' ∧
      Reading c'.os c'.rwfile rwOff ∧ olds a old (off + a.vcp.diskSize) = (olds a old off).tail ∧
      c'.links = c.links ∧ c'.items = c.items := by
  have behind : a.vcp.diskSize + data.length ≤ off + a.vcp.diskSize := Nat.le_add_right_of_le here.behind
  have next : (old.drop (off + a.vcp.diskSize)) = (old.drop off).drop a.vcp.diskSize := (drop_drop ..).symm
  have shorter : (old.drop off).length < a.vcp.diskSize → (old.drop (off + a.vcp.diskSize)).length < a.vcp.diskSize := by
    intro short
    rw [next, length_drop]
    omega
  have ended (short : (old.drop off).length < a.vcp.diskSize) :
      firstInode a.host (olds a old off) = 0 ∧ olds a old (off + a.vcp.diskSize) = (olds a old off).tail := by
    unfold olds
    rw [records_nil short, records_nil (shorter short), ite_self]
    exact ⟨rfl, rfl⟩
  unfold CloneState.oldInode
  by_cases more : a.reclone = true ∧ c.clfilein.eof = false
  · have readingIn : Reading c.os c.clfilein off := by
      rcases here.inside more.1 with found | none
      · exact found.2
      · rw [more.2] at none
        exact absurd none.1 (by decide)
    obtain ⟨os', s', done, on⟩ := streamRead_reads a.vcp.diskSize here.fine readingIn
    have file : pread (c.os.file c.clfilein.fd) off a.vcp.diskSize = (old.drop off).take a.vcp.diskSize := by
      unfold pread
      rw [here.inFd, here.clone_drop]
    have length : (pread (c.os.file c.clfilein.fd) off a.vcp.diskSize).length = min a.vcp.diskSize (old.drop off).length := by
      rw [file, length_take]
    have dropped : (c.os.file c.clfilein.fd).drop off = old.drop off := by rw [here.inFd, here.clone_drop]
    have at' : At a old index data (off + a.vcp.diskSize) { c with os := os', clfilein := s' } := by
      refine ⟨?_, here.rwFd, on.fd.trans here.inFd, here.outFd, ?_, here.rwDirection, ?_, behind, ?_, fun _ => ?_, here.error⟩
      · exact fun n => (congrFun on.outcome n).trans (here.fine n)
      · exact (congrFun on.file false).trans here.rwIndex
      · exact here.writing.congr (congrFun on.file _)
      · change s'.direction ≠ .write
        rw [on.direction]
        simp
      by_cases within : a.vcp.diskSize ≤ (old.drop off).length
      · have reading' := on.reading (by
          change _ ≤ ((c.os.file c.clfilein.fd).drop off).length
          rwa [dropped])
        exact .inl ⟨reading'.eof, reading'⟩
      refine .inr ⟨on.ended ?_, shorter (Nat.not_le.mp within)⟩
      change ((c.os.file c.clfilein.fd).drop off).length < _
      rw [dropped]
      exact Nat.not_le.mp within
    have rest : Reading os' c.rwfile rwOff := reading.congr (by rw [on.file])
    refine ⟨_, (if_pos more).trans (except_bind_eq_ok.mpr ⟨_, except_bind_eq_ok.mpr ⟨_, done, rfl⟩, ?_⟩), at', rest, ?_, rfl, rfl⟩
    · by_cases within : a.vcp.diskSize ≤ (old.drop off).length
      · have whole : (pread (c.os.file c.clfilein.fd) off a.vcp.diskSize).length = a.vcp.diskSize := by omega
        simp only [whole, if_true]
        unfold firstInode olds
        rw [if_pos more.1, records_cons a.some within, file]
        rfl
      · have part : ¬ (pread (c.os.file c.clfilein.fd) off a.vcp.diskSize).length = a.vcp.diskSize := by omega
        simp only [part, if_false]
        rw [(ended (Nat.not_le.mp within)).1]
    · by_cases within : a.vcp.diskSize ≤ (old.drop off).length
      · unfold olds
        rw [if_pos more.1, if_pos more.1, records_cons a.some within, next]
        rfl
      · exact (ended (Nat.not_le.mp within)).2
  · have none : firstInode a.host (olds a old off) = 0 ∧ olds a old (off + a.vcp.diskSize) = (olds a old off).tail := by
      by_cases reclone : a.reclone = true
      · rcases here.inside reclone with found | none
        · exact absurd ⟨reclone, found.1⟩ more
        · exact ended none.2
      · unfold olds
        rw [if_neg reclone, if_neg reclone]
        exact ⟨rfl, rfl⟩
    refine ⟨c, by rw [if_neg more, none.1], ?_, reading, none.2, rfl, rfl⟩
    refine ⟨here.fine, here.rwFd, here.inFd, here.outFd, here.rwIndex, here.rwDirection, here.writing, behind,
      here.inDirection, fun reclone => ?_, here.error⟩
    rcases here.inside reclone with found | none
    · exact absurd ⟨reclone, found.1⟩ more
    · exact .inr ⟨none.1, shorter none.2⟩

theorem At.calls (os : Os) (file : os.file = c.os.file) (outcome : os.outcome = c.os.outcome)
    (links : BitVec 64 → Nat) (items : List (BitVec 64)) : At a old index data off { c with os, links, items } where
  fine := fun n => (congrFun outcome n).trans (here.fine n)
  rwFd := here.rwFd
  inFd := here.inFd
  outFd := here.outFd
  rwIndex := (congrFun file false).trans here.rwIndex
  rwDirection := here.rwDirection
  writing := here.writing.congr (congrFun file _)
  behind := here.behind
  inDirection := here.inDirection
  inside := fun reclone => (here.inside reclone).imp (fun both => ⟨both.1, both.2.congr (by rw [file])⟩) id
  error := here.error

theorem At.writeClone (reading : Reading c.os c.rwfile rwOff) (v : VnodeDiskObject)
    (room : a.vcp.diskSize + (data ++ v).length ≤ off) :
    ∃ c', c.writeClone v = .ok (c', true) ∧ At a old index (data ++ v) off c' ∧ Reading c'.os c'.rwfile rwOff ∧
      c'.links = c.links ∧ c'.items = c.items := by
  obtain ⟨os', s', done, writing, only, fd, error⟩ := streamWrite_writes v here.fine here.writing
  rw [here.outFd] at only
  have outFd : s'.fd = true := fd.trans here.outFd
  have rwSame : os'.file c.rwfile.fd = c.os.file c.rwfile.fd := only.others _ (by rw [here.rwFd]; decide)
  have dropped : (os'.file true).drop off = old.drop off := by
    have same := writing.drop room
    rwa [outFd] at same
  refine ⟨{ c with os := os', clfileout := s' }, except_bind_eq_ok.mpr ⟨_, done, ?_⟩, ⟨only.fine here.fine, here.rwFd, here.inFd,
    outFd, ?_, here.rwDirection, writing, room, here.inDirection, fun reclone => ?_, error.trans here.error⟩,
    reading.congr (by rw [rwSame]), rfl, rfl⟩
  · simp
  · exact (only.others false (by decide)).trans here.rwIndex
  · refine (here.inside reclone).imp (fun both => ⟨both.1, both.2.congr ?_⟩) id
    rw [here.inFd, dropped, here.clone_drop]

theorem At.overwrite (reading : Reading c.os c.rwfile rwOff) (offset : Int)
    (v : VnodeDiskObject) (clinode : BitVec 64) (inodeinced dircloned : Bool)
    (room : a.vcp.diskSize + (data ++ v.setCloned a.host false).length ≤ off) :
    ∃ c', c.overwrite a offset v clinode inodeinced dircloned = .ok (c', none) ∧
      At a old index (data ++ v.setCloned a.host false) off c' ∧ Reading c'.os c'.rwfile rwOff ∧ c'.links = c.links ∧
      c'.items = if clinode ≠ 0 then c.items ++ [clinode] else c.items := by
  obtain ⟨c₁, done, here₁, reading₁, links, items⟩ := here.writeClone reading (v.setCloned a.host false) room
  by_cases queued : clinode ≠ 0
  · refine ⟨{ c₁ with items := c₁.items ++ [clinode] }, except_bind_eq_ok.mpr ⟨_, done, if_pos queued⟩,
      here₁.calls c₁.os rfl rfl _ _, reading₁, links, ?_⟩
    rw [if_pos queued, ← items]
  · refine ⟨c₁, except_bind_eq_ok.mpr ⟨_, done, if_neg queued⟩, here₁, reading₁, links, ?_⟩
    rw [if_neg queued, items]

theorem At.seekRw {file : Bytes} (offset : Nat)
    (drained : ∃ os₁ pos, drain c.os c.rwfile = (os₁, pos, true) ∧ Os.Only false file c.os os₁) :
    ∃ c', c.seekRw offset = (c', true) ∧ At a old file data off c' ∧ Reading c'.os c'.rwfile offset ∧
      Writing file offset [] c'.os c'.rwfile ∧ c'.links = c.links ∧ c'.items = c.items := by
  rw [← here.rwFd] at drained
  obtain ⟨os', s', done, only, fd, -, reading, writing⟩ := streamSeek_moves offset drained here.fine
  rw [here.rwFd] at only fd
  have cloneSame : os'.file true = c.os.file true := only.others true (by decide)
  refine ⟨{ c with os := os', rwfile := s' }, ?_, ⟨only.fine here.fine, fd, here.inFd, here.outFd, only.here, reading.direction,
    here.writing.congr (by rw [here.outFd, cloneSame]), here.behind, here.inDirection, fun reclone => ?_, here.error⟩, reading,
    writing, rfl, rfl⟩
  · unfold CloneState.seekRw
    rw [done]
  · refine (here.inside reclone).imp (fun both => ⟨both.1, both.2.congr ?_⟩) id
    rw [here.inFd, cloneSame]

end

variable {before after : Bytes} {v : VnodeDiskObject}

theorem At.markDirectory (here : At a old (before ++ v ++ after) data off c) :
    ∃ c', c.markDirectory a before.length v = .ok (c', some (), true) ∧
      At a old (before ++ v.setCloned a.host true ++ after) data off c' ∧
      Reading c'.os c'.rwfile (before.length + a.vcp.diskSize) ∧ c'.links = c.links ∧ c'.items = c.items := by
  obtain ⟨c₁, sought, here₁, -, writing₁, links₁, items₁⟩ := here.seekRw before.length
    ⟨_, _, drain_reading c.os here.rwDirection, here.rwIndex, fun _ _ => rfl, rfl⟩
  obtain ⟨os₂, s₂, wrote, writing₂, only, fd, -⟩ := streamWrite_writes (v.setCloned a.host true) here₁.fine writing₁
  rw [here₁.rwFd] at only fd
  have cloneSame : os₂.file true = c₁.os.file true := only.others true (by decide)
  rw [nil_append] at writing₂
  have file : pwrite (before ++ v ++ after) before.length (v.setCloned a.host true) =
      before ++ v.setCloned a.host true ++ after :=
    pwrite_middle before v _ after (VnodeDiskObject.length_setCloned ..)
  obtain ⟨os₃, pos, drained, only₃⟩ := drain_writing (only.fine here₁.fine) writing₂
  rw [fd, file] at only₃
  -- the third seek writes the buffer
  have stream := streamSeek_moves (before.length + a.vcp.diskSize) ⟨os₃, pos, drained, fd.symm ▸ only₃⟩ (only.fine here₁.fine)
  obtain ⟨os₄, s₄, sought₄, only₄, fd₄, -, reading₄, -⟩ := stream
  rw [fd] at only₄ fd₄
  have cloneSame₄ : os₄.file true = c₁.os.file true := (only₄.others true (by decide)).trans cloneSame
  refine ⟨{ c₁ with os := os₄, rwfile := s₄ }, ?_, ⟨only₄.fine (only.fine here₁.fine), fd₄, here₁.inFd, here₁.outFd, only₄.here,
    reading₄.direction, here₁.writing.congr (by rw [here₁.outFd, cloneSame₄]), here₁.behind, here₁.inDirection,
    fun reclone => ?_, here₁.error⟩, reading₄, links₁, items₁⟩
  · unfold CloneState.markDirectory
    rw [sought]
    refine except_bind_eq_ok.mpr ⟨_, except_bind_eq_ok.mpr ⟨_, wrote, rfl⟩, ?_⟩
    unfold CloneState.seekRw
    have offset : ((before.length : Int) + (a.vcp.diskSize : Int)) = ((before.length + a.vcp.diskSize : Nat) : Int) := by omega
    rw [offset]
    simp only [sought₄]
    rfl
  · refine (here₁.inside reclone).imp (fun both => ⟨both.1, both.2.congr ?_⟩) id
    rw [here₁.inFd, cloneSame₄]

theorem At.ihInc (here : At a old index data off c) (reading : Reading c.os c.rwfile rwOff) (ino : BitVec 64) :
    (maxLinks ≤ c.links ino → ∃ c', c.ihInc ino = (c', false)) ∧
    (c.links ino < maxLinks → ∃ c', c.ihInc ino = (c', true) ∧ At a old index data off c' ∧ Reading c'.os c'.rwfile rwOff ∧
      c'.links = Function.update c.links ino (c.links ino + 1) ∧ c'.items = c.items) := by
  unfold CloneState.ihInc
  rw [here.fine.attempt]
  refine ⟨fun full => ⟨_, if_pos full⟩, fun room => ⟨_, if_neg (Nat.not_le.mpr room), ?_, ?_, rfl, rfl⟩⟩
  · exact here.calls { c.os with calls := c.os.calls + 1 } rfl rfl _ _
  · exact reading.congr rfl

theorem At.copyVnode (here : At a old (before ++ v ++ after) data off c)
    (reading : Reading c.os c.rwfile (before.length + a.vcp.diskSize)) (clinode : BitVec 64) (inodeinced : Bool)
    (room : a.vcp.diskSize + (data ++ v.setCloned a.host false).length ≤ off) :
    ∃ c', c.copyVnode a before.length v clinode inodeinced = .ok (c', none) ∧
      At a old (before ++ marked a v ++ after) (data ++ v.setCloned a.host false) off c' ∧
      Reading c'.os c'.rwfile (before.length + a.vcp.diskSize) ∧ c'.links = c.links ∧
      c'.items = if clinode ≠ 0 then c.items ++ [clinode] else c.items := by
  unfold CloneState.copyVnode marked
  by_cases directory : v.type a.host = vDirectory ∧ a.readWriteOriginal = true
  · rw [if_pos directory, if_pos directory]
    obtain ⟨c₁, done, here₁, reading₁, links, items⟩ := here.markDirectory
    obtain ⟨c₂, done₂, here₂, reading₂, links₂, items₂⟩ :=
      here₁.overwrite reading₁ before.length v clinode inodeinced true room
    refine ⟨c₂, except_bind_eq_ok.mpr ⟨_, done, done₂⟩, here₂, reading₂, links₂.trans links, ?_⟩
    rw [items₂, items]
  · rw [if_neg directory, if_neg directory]
    exact here.overwrite reading before.length v clinode inodeinced false room

theorem At.cloneVnode (here : At a old (before ++ v ++ after) data off c)
    (reading : Reading c.os c.rwfile (before.length + a.vcp.diskSize)) (clinode : BitVec 64)
    (room : a.vcp.diskSize + (data ++ v.setCloned a.host false).length ≤ off) :
    (∀ code, cloneSlot a v clinode c.links c.items = .error code →
      ∃ c', c.cloneVnode a before.length v clinode = .ok (c', some code)) ∧
    (∀ links items, cloneSlot a v clinode c.links c.items = .ok (links, items) →
      ∃ c', c.cloneVnode a before.length v clinode = .ok (c', none) ∧
        At a old (before ++ marked a v ++ after) (data ++ v.setCloned a.host false) off c' ∧
        Reading c'.os c'.rwfile (before.length + a.vcp.diskSize) ∧ c'.links = links ∧ c'.items = items) := by
  unfold CloneState.cloneVnode cloneSlot
  by_cases null : v.type a.host = vNull
  · have plain : marked a v = v := if_neg fun both => absurd (null.symm.trans both.1) (by decide)
    rw [if_pos null, if_pos null, plain]
    refine ⟨?_, fun links items same => ?_⟩
    · exact fun code no => nomatch no
    · cases same
      exact here.overwrite reading before.length v clinode false false room
  rw [if_neg null, if_neg null]
  by_cases bad : v.vnodeMagic a.host ≠ a.vcp.magic
  · rw [if_pos bad, if_pos bad]
    refine ⟨fun code same => ?_, ?_⟩
    · cases same
      exact ⟨c, rfl⟩
    · exact fun links items no => nomatch no
  rw [if_neg bad, if_neg bad]
  unfold CloneState.linkInode
  by_cases shared : clinode ≠ 0 ∧ clinode = v.ino a.host
  · -- the old clone has the inode already
    rw [if_pos shared, if_pos shared]
    refine ⟨?_, fun links items same => ?_⟩
    · exact fun code no => nomatch no
    · cases same
      exact here.copyVnode reading 0 false room
  rw [if_neg shared, if_neg shared]
  by_cases zero : v.ino a.host = 0
  · rw [if_pos zero, if_neg (not_not.mpr zero)]
    refine ⟨?_, fun links items same => ?_⟩
    · exact fun code no => nomatch no
    · cases same
      exact here.copyVnode reading clinode false room
  rw [if_neg zero, if_pos zero]
  obtain ⟨fails, linked⟩ := here.ihInc reading (v.ino a.host)
  by_cases full : maxLinks ≤ c.links (v.ino a.host)
  · obtain ⟨c₁, failed⟩ := fails full
    rw [if_pos full, failed]
    refine ⟨fun code same => ?_, ?_⟩
    · cases same
      exact ⟨_, rfl⟩
    · exact fun links items no => nomatch no
  obtain ⟨c₁, done, here₁, reading₁, links₁, items₁⟩ := linked (Nat.not_le.mp full)
  rw [if_neg full, done]
  refine ⟨?_, fun links items same => ?_⟩
  · exact fun code no => nomatch no
  cases same
  obtain ⟨c₂, copied, here₂, reading₂, links₂, items₂⟩ := here₁.copyVnode reading₁ clinode true room
  refine ⟨c₂, copied, here₂, reading₂, links₂.trans links₁, ?_⟩
  rw [items₂, items₁]

@[simp] theorem length_marked (v : VnodeDiskObject) : (marked a v).length = v.length := by
  unfold marked
  split
  · exact VnodeDiskObject.length_setCloned ..
  · rfl

theorem At.cloneLoop (fuel : Nat) (here : At a old (before ++ after) data before.length c)
    (reading : Reading c.os c.rwfile before.length) (place : a.vcp.diskSize + data.length = before.length)
    (enough : after.length < fuel) (short : (before ++ after).length < 2 ^ 31) :
    (∀ code, cloneSlots a (records a.vcp.diskSize after) (olds a old before.length) c.links c.items = .error code →
      ∃ c' offset, c.cloneLoop a before.length fuel = .ok (c', offset, some code)) ∧
    (∀ links items, cloneSlots a (records a.vcp.diskSize after) (olds a old before.length) c.links c.items = .ok (links, items) →
      ∃ c' rest, c.cloneLoop a before.length fuel =
          .ok (c', (before.length + ((records a.vcp.diskSize after).flatten.length : Nat) : Nat), none) ∧
        after = (records a.vcp.diskSize after).flatten ++ rest ∧
        At a old (before ++ ((records a.vcp.diskSize after).map (marked a)).flatten ++ rest)
          (data ++ ((records a.vcp.diskSize after).map fun v => v.setCloned a.host false).flatten)
          (before.length + (records a.vcp.diskSize after).flatten.length) c' ∧
        c'.links = links ∧ c'.items = items) := by
  induction fuel generalizing before after data c with
  | zero => exact absurd enough (Nat.not_lt_zero _)
  | succ fuel ih =>
    obtain ⟨c₁, read, here₁, on, links₁, items₁⟩ := here.readRw reading
    have got : pread (before ++ after) before.length a.vcp.diskSize = after.take a.vcp.diskSize := by
      unfold pread
      rw [drop_left]
    rw [got] at read
    by_cases within : a.vcp.diskSize ≤ after.length
    · have split : after = after.take a.vcp.diskSize ++ after.drop a.vcp.diskSize := (take_append_drop ..).symm
      have length : (after.take a.vcp.diskSize).length = a.vcp.diskSize := by
        rw [length_take]
        omega
      have left : (after.drop a.vcp.diskSize).length + a.vcp.diskSize = after.length := by
        rw [length_drop]
        omega
      have positive := a.some
      have reading₁ := on (by rwa [drop_left])
      obtain ⟨c₂, seen, here₂, reading₂, tail, links₂, items₂⟩ := here₁.oldInode reading₁
      rw [links₁] at links₂
      rw [items₁] at items₂
      rw [records_cons a.some within]
      generalize after.take a.vcp.diskSize = v at *
      generalize after.drop a.vcp.diskSize = rest at *
      subst split
      rw [← append_assoc] at here₂
      have room : a.vcp.diskSize + (data ++ VnodeDiskObject.setCloned a.host v false).length ≤ before.length + a.vcp.diskSize := by
        rw [length_append, VnodeDiskObject.length_setCloned]
        omega
      obtain ⟨fails, copies⟩ := here₂.cloneVnode reading₂ (firstInode a.host (olds a old before.length)) room
      rw [links₂, items₂] at fails copies
      have next : (before ++ marked a v).length = before.length + a.vcp.diskSize := by
        rw [length_append, length_marked, length]
      rw [length_append, length_append] at short
      have offset : CloneState.advance a before.length = (before ++ marked a v).length := by
        unfold CloneState.advance
        rw [next, Int.bmod_eq_of_le (by omega) (by omega)]
        omega
      have place' : a.vcp.diskSize + (data ++ VnodeDiskObject.setCloned a.host v false).length = (before ++ marked a v).length := by
        rw [next, length_append, VnodeDiskObject.length_setCloned, length]
        omega
      have short' : (before ++ marked a v ++ rest).length < 2 ^ 31 := by
        rw [length_append, next]
        omega
      have whole : ¬ v.length ≠ a.vcp.diskSize := not_not.mpr length
      refine ⟨fun code failed => ?_, fun links items fine => ?_⟩
      · rcases except_bind_eq_error.mp failed with failed | ⟨⟨links₃, items₃⟩, fine, failed⟩
        · obtain ⟨c₃, done⟩ := fails code failed
          refine ⟨c₃, before.length, except_bind_eq_ok.mpr ⟨_, read, (if_neg whole).trans ?_⟩⟩
          exact except_bind_eq_ok.mpr ⟨_, seen, except_bind_eq_ok.mpr ⟨_, done, rfl⟩⟩
        obtain ⟨c₃, done, here₃, reading₃, rfl, rfl⟩ := copies links₃ items₃ fine
        rw [← next] at here₃ reading₃ tail
        obtain ⟨later, -⟩ := ih here₃ reading₃ place' (by omega) short'
        rw [tail] at later
        obtain ⟨c₄, offset₄, done₄⟩ := later code failed
        refine ⟨c₄, offset₄, except_bind_eq_ok.mpr ⟨_, read, (if_neg whole).trans ?_⟩⟩
        refine except_bind_eq_ok.mpr ⟨_, seen, except_bind_eq_ok.mpr ⟨_, done, ?_⟩⟩
        rw [← offset] at done₄
        exact done₄
      obtain ⟨⟨links₃, items₃⟩, fine, last⟩ := except_bind_eq_ok.mp fine
      obtain ⟨c₃, done, here₃, reading₃, rfl, rfl⟩ := copies links₃ items₃ fine
      rw [← next] at here₃ reading₃ tail
      obtain ⟨-, later⟩ := ih here₃ reading₃ place' (by omega) short'
      rw [tail] at later
      obtain ⟨c₄, rest', done₄, split, here₄, links₄, items₄⟩ := later links items last
      have lengths : (before ++ marked a v).length + (records a.vcp.diskSize rest).flatten.length =
          before.length + (v :: records a.vcp.diskSize rest).flatten.length := by
        rw [next, flatten_cons, length_append, length]
        omega
      rw [lengths] at done₄ here₄
      refine ⟨c₄, rest', except_bind_eq_ok.mpr ⟨_, read, (if_neg whole).trans ?_⟩, ?_, ?_, links₄, items₄⟩
      · refine except_bind_eq_ok.mpr ⟨_, seen, except_bind_eq_ok.mpr ⟨_, done, ?_⟩⟩
        rw [← offset] at done₄
        exact done₄
      · rw [flatten_cons, append_assoc, ← split]
      · simpa only [map_cons, flatten_cons, append_assoc] using here₄
    · have part : (after.take a.vcp.diskSize).length ≠ a.vcp.diskSize := by
        rw [length_take]
        omega
      rw [records_nil (Nat.not_le.mp within)]
      refine ⟨?_, fun links items same => ?_⟩
      · exact fun code no => nomatch no
      · cases same
        refine ⟨c₁, after, except_bind_eq_ok.mpr ⟨_, read, if_pos part⟩, rfl, ?_, links₁, items₁⟩
        simpa using here₁

end

end OpenAFS.Vol
