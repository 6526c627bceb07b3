import Mathlib.Data.List.Nodup
import OpenAFS.Lib.Machine

namespace OpenAFS.Vol

open Lib

/-- What the header of a volume says of its state, in the order of `VolumeDiskData`. -/
structure VolumeDiskData where
  inUse : Bool
  inService : Bool
  blessed : Bool
  needsSalvaged : Bool
  uniquifier : Nat
  destroyMe : Bool
  dontSalvage : Bool
  deriving DecidableEq, Repr

/-- A write of the header. One that fails may have written the first of the fields. -/
inductive HeaderWrite where
  | ok
  | failed (fields : Nat)
  deriving DecidableEq, Repr

structure Volume where
  disk : VolumeDiskData
  diskstuff : VolumeDiskData
  nextVnodeUnique : Nat
  deriving DecidableEq, Repr

def VolumeDiskData.over (old new : VolumeDiskData) (fields : Nat) : VolumeDiskData where
  inUse := if 0 < fields then new.inUse else old.inUse
  inService := if 1 < fields then new.inService else old.inService
  blessed := if 2 < fields then new.blessed else old.blessed
  needsSalvaged := if 3 < fields then new.needsSalvaged else old.needsSalvaged
  uniquifier := if 4 < fields then new.uniquifier else old.uniquifier
  destroyMe := if 5 < fields then new.destroyMe else old.destroyMe
  dontSalvage := if 6 < fields then new.dontSalvage else old.dontSalvage

def word (n : Nat) : Nat := n % 2 ^ 32

namespace Volume

/-- `WriteVolumeHeader_r`, and whether it succeeded. -/
def writeVolumeHeader (w : HeaderWrite) (v : Volume) : Bool × Volume :=
  match w with
  | .ok => (true, { v with disk := v.diskstuff })
  | .failed fields => (false, { v with disk := v.disk.over v.diskstuff fields })

def markOffline (v : Volume) : Volume :=
  if v.diskstuff.inUse then { v with diskstuff.inUse := false, diskstuff.needsSalvaged := true } else v

/-- `VUpdateVolume_r`; `noForceOff` is `VOL_UPDATE_NOFORCEOFF`. -/
def updateVolume (noForceOff : Bool) (w : HeaderWrite) (v : Volume) : Bool × Volume :=
  let uniquifier := if v.diskstuff.inUse then word (v.nextVnodeUnique + 200) else v.nextVnodeUnique
  match writeVolumeHeader w { v with diskstuff.uniquifier := uniquifier } with
  | (true, v) => (true, v)
  | (false, v) => (false, if noForceOff then v else v.markOffline)

def forceOffline (w : HeaderWrite) (v : Volume) : Volume :=
  if v.diskstuff.inUse then (updateVolume true w v.markOffline).2 else v

/-- `VAddToVolumeUpdateList_r`; the header is written when the volume was not on the list. -/
def addToVolumeUpdateList (w : HeaderWrite) (v : Volume) : Bool × Volume :=
  if v.diskstuff.dontSalvage then updateVolume false w { v with diskstuff.dontSalvage := false } else (true, v)

/-- The number `VAllocVnode_r` takes: the next one that is not zero. -/
def takeUnique (v : Volume) : Nat × Volume :=
  let unique := v.nextVnodeUnique
  let v := { v with nextVnodeUnique := word (v.nextVnodeUnique + 1) }
  if unique = 0 then (v.nextVnodeUnique, { v with nextVnodeUnique := word (v.nextVnodeUnique + 1) }) else (unique, v)

/-- `VAllocVnode_r`, and the uniquifier of the vnode it returns. `w` and `w'` are the writes it may do; `slot` is whether
what it does after them succeeds: to find a slot in the bit map and to look at it in the index. -/
def allocVnode (w w' : HeaderWrite) (slot : Bool) (v : Volume) : Option Nat × Volume :=
  if v.diskstuff.inUse then
    let (unique, v) := v.takeUnique
    match if v.diskstuff.uniquifier < v.nextVnodeUnique then updateVolume false w v else (true, v) with
    | (false, v) => (none, v)
    | (true, v) => match addToVolumeUpdateList w' v with
      | (false, v) => (none, v)
      | (true, v) => (if slot then some unique else none, v)
  else (none, v)

/-- What `VCheckOffline` does to a volume that nobody uses any more. -/
def goOffline (w : HeaderWrite) (v : Volume) : Volume :=
  (updateVolume false w { v with diskstuff.inUse := false }).2

def reload (w : HeaderWrite) (v : Volume) : Volume :=
  let v := if v.diskstuff.inUse then (writeVolumeHeader w v).2 else v
  { v with diskstuff := v.disk }

end Volume

/-- A volume on a file server. `stale` is what `nextVnodeUnique` holds in a structure that is not attached. -/
structure VolumeServer where
  disk : VolumeDiskData
  vp : Option (VolumeDiskData × Nat)
  stale : Nat
  handedOut : List Nat
  deriving DecidableEq, Repr

namespace VolumeServer

def put (s : VolumeServer) (v : Volume) : VolumeServer :=
  { s with disk := v.disk, vp := some (v.diskstuff, v.nextVnodeUnique) }

def volume (s : VolumeServer) (vp : VolumeDiskData × Nat) : Volume := ⟨s.disk, vp.1, vp.2⟩

/-- `attach2` on a file server that does not restart fast, for a structure whose `nextVnodeUnique` is given; `bitmaps` is
whether both bit maps can be had. -/
def attach2 (w : HeaderWrite) (bitmaps : Bool) (nextVnodeUnique : Nat) (s : VolumeServer) : VolumeServer :=
  if s.disk.needsSalvaged then { s with vp := none, stale := nextVnodeUnique }
  else if s.disk.inUse then
    -- the volume was in use when the server crashed; its uniquifier has not been taken over yet
    let v := (Volume.updateVolume false w ⟨s.disk, { s.disk with needsSalvaged := true }, nextVnodeUnique⟩).2
    { s with disk := v.disk, vp := none, stale := nextVnodeUnique }
  else if s.disk.destroyMe then { s with vp := none, stale := nextVnodeUnique }
  else if bitmaps then
    { s with vp := some ({ s.disk with inUse := s.disk.blessed && s.disk.inService }, s.disk.uniquifier) }
  else { s with vp := none, stale := s.disk.uniquifier }

/-- `VAttachVolume`: a volume that is attached and in use stays as it is. `fresh` is whether the structure is a new one,
as it always is without demand attach. -/
def attach (demandAttach fresh : Bool) (w w' w'' : HeaderWrite) (bitmaps : Bool) (s : VolumeServer) : VolumeServer :=
  if s.vp.any fun vp => vp.1.inUse then s
  else
    let s := attach2 w bitmaps (if fresh then 0 else (s.vp.map Prod.snd).getD s.stale) s
    match s.vp with
    | none => s
    | some vp =>
      if demandAttach && !vp.1.inUse then s
      else match (s.volume vp).updateVolume false w' with
        | (false, v) => s.put v
        | (true, v) =>
          if v.diskstuff.dontSalvage then s.put v
          else
            let v := if demandAttach then v else { v with diskstuff.dontSalvage := true }
            s.put (v.addToVolumeUpdateList w'').2

end VolumeServer

inductive VolumeAction where
  | attach (fresh : Bool) (w w' w'' : HeaderWrite) (bitmaps : Bool)
  | allocVnode (w w' : HeaderWrite) (slot : Bool)
  | deleteVnode (w : HeaderWrite)
  | updateVolume (w : HeaderWrite)
  | scanUpdateList (w : HeaderWrite)
  | forceOffline (w : HeaderWrite)
  | offline (w : HeaderWrite)
  | reload (w : HeaderWrite)
  | crash
  deriving DecidableEq, Repr

namespace VolumeServer

/-- One operation of the file server on the volume, or its crash; all but attaches and crashes need the volume in
memory. -/
def step (demandAttach : Bool) (s : VolumeServer) : VolumeAction → Option VolumeServer
  | .attach fresh w w' w'' bitmaps => some (s.attach demandAttach fresh w w' w'' bitmaps)
  | .crash => some { s with vp := none, stale := 0 }
  | .allocVnode w w' slot => s.vp.map fun vp =>
    let (unique, v) := (s.volume vp).allocVnode w w' slot
    { s.put v with handedOut := unique.toList ++ s.handedOut }
  | .deleteVnode w => s.vp.map fun vp => s.put ((s.volume vp).addToVolumeUpdateList w).2
  | .updateVolume w => s.vp.map fun vp => s.put ((s.volume vp).updateVolume false w).2
  | .scanUpdateList w => s.vp.map fun vp =>
    s.put (({ s.volume vp with diskstuff.dontSalvage := true } : Volume).updateVolume false w).2
  | .forceOffline w => s.vp.map fun vp => s.put ((s.volume vp).forceOffline w)
  | .offline w => s.vp.map fun vp =>
    if vp.1.inUse then { s.put ((s.volume vp).goOffline w) with vp := none, stale := vp.2 } else s
  | .reload w => s.vp.map fun vp => s.put ((s.volume vp).reload w)

end VolumeServer

def volumeServer (demandAttach : Bool) : Machine VolumeServer VolumeAction where
  start s := s.vp = none ∧ s.handedOut = []
  step := VolumeServer.step demandAttach

structure Ahead (handedOut : List Nat) (v : Volume) : Prop where
  disk : ∀ u ∈ handedOut, u < v.disk.uniquifier
  next : ∀ u ∈ handedOut, u < v.nextVnodeUnique
  same : v.diskstuff.inUse = true → v.diskstuff.uniquifier = v.disk.uniquifier

theorem Ahead.tail {unique : Nat} {handedOut : List Nat} {v : Volume} (ahead : Ahead (unique :: handedOut) v) :
    Ahead handedOut v :=
  ⟨fun u issued => ahead.disk u (List.mem_cons_of_mem _ issued),
    fun u issued => ahead.next u (List.mem_cons_of_mem _ issued), ahead.same⟩

namespace Volume

variable {v : Volume} {handedOut : List Nat} {n : Bool} {w w' : HeaderWrite} {slot : Bool}

theorem over_uniquifier (old new : VolumeDiskData) (fields : Nat) :
    (old.over new fields).uniquifier = old.uniquifier ∨ (old.over new fields).uniquifier = new.uniquifier := by
  by_cases written : 4 < fields
  · exact Or.inr (if_pos written)
  · exact Or.inl (if_neg written)

def nextUniquifier (v : Volume) : Nat :=
  if v.diskstuff.inUse then word (v.nextVnodeUnique + 200) else v.nextVnodeUnique

theorem next_le (room : v.nextVnodeUnique + 200 < 2 ^ 32) : v.nextVnodeUnique ≤ v.nextUniquifier := by
  unfold nextUniquifier word
  split
  · omega
  · exact Nat.le_refl _

theorem updateVolume_ok (v : Volume) (noForceOff : Bool) : v.updateVolume noForceOff .ok = (true, { v with
      disk := { v.diskstuff with uniquifier := v.nextUniquifier }
      diskstuff.uniquifier := v.nextUniquifier }) := rfl

theorem markOffline_inUse (v : Volume) : v.markOffline.diskstuff.inUse = false := by
  unfold markOffline
  split
  · rfl
  · exact Bool.eq_false_iff.mpr ‹_›

theorem markOffline_same (v : Volume) : v.markOffline.disk = v.disk ∧ v.markOffline.nextVnodeUnique = v.nextVnodeUnique := by
  unfold markOffline
  split
  · exact ⟨rfl, rfl⟩
  · exact ⟨rfl, rfl⟩

theorem updateVolume_same (quiet : n = true → v.diskstuff.inUse = false) :
    (v.updateVolume n w).2.nextVnodeUnique = v.nextVnodeUnique ∧ ((v.updateVolume n w).2.disk.uniquifier = v.disk.uniquifier ∨
        (v.updateVolume n w).2.disk.uniquifier = v.nextUniquifier) ∧
      ((v.updateVolume n w).1 = false → (v.updateVolume n w).2.diskstuff.inUse = false) := by
  cases w with
  | ok =>
    exact ⟨rfl, Or.inr rfl, fun failed => by cases failed⟩
  | failed fields =>
    cases n with
    | true => exact ⟨rfl, over_uniquifier _ _ _, fun _ => quiet rfl⟩
    | false =>
      unfold updateVolume writeVolumeHeader
      simp only [Bool.false_eq_true, if_false]
      rw [(markOffline_same _).1, (markOffline_same _).2, markOffline_inUse]
      exact ⟨rfl, over_uniquifier _ _ _, fun _ => rfl⟩

theorem updateVolume_ahead (disk : ∀ u ∈ handedOut, u < v.disk.uniquifier)
    (next : ∀ u ∈ handedOut, u < v.nextVnodeUnique) (room : v.nextVnodeUnique + 200 < 2 ^ 32)
    (quiet : n = true → v.diskstuff.inUse = false) : Ahead handedOut (v.updateVolume n w).2 := by
  rcases updateVolume_same (w := w) quiet with ⟨same, written, failed⟩
  constructor
  · intro u issued
    rcases written with old | new
    · rw [old]
      exact disk u issued
    · rw [new]
      exact Nat.lt_of_lt_of_le (next u issued) (next_le room)
  · rw [same]
    exact next
  · intro inUse
    cases w with
    | ok => rfl
    | failed fields =>
      have offline := failed rfl
      rw [offline] at inUse
      cases inUse

theorem addToVolumeUpdateList_ahead (ahead : Ahead handedOut v) (room : v.nextVnodeUnique + 200 < 2 ^ 32) :
    Ahead handedOut (v.addToVolumeUpdateList w).2 := by
  unfold addToVolumeUpdateList
  split
  · exact updateVolume_ahead ahead.disk ahead.next room fun quiet => by cases quiet
  · exact ahead

theorem takeUnique_spec (room : v.nextVnodeUnique + 202 < 2 ^ 32) : 0 < v.takeUnique.1 ∧ v.nextVnodeUnique ≤ v.takeUnique.1 ∧
      v.takeUnique.2 = { v with nextVnodeUnique := v.takeUnique.1 + 1 } ∧ v.takeUnique.1 + 201 < 2 ^ 32 := by
  have one : word (v.nextVnodeUnique + 1) = v.nextVnodeUnique + 1 := by
    unfold word
    omega
  unfold takeUnique
  by_cases zero : v.nextVnodeUnique = 0
  · simp only [zero, if_true]
    refine ⟨by decide, Nat.zero_le _, rfl, by decide⟩
  · simp only [if_neg zero, one]
    refine ⟨by omega, Nat.le_refl _, trivial, by omega⟩

theorem listed_ahead {unique : Nat} (w' : HeaderWrite) (slot : Bool) (ahead : Ahead (unique :: handedOut) v) (room : v.nextVnodeUnique + 200 < 2 ^ 32)
    {result : Option Nat × Volume}
    (rest : result = match v.addToVolumeUpdateList w' with
      | (false, v) => (none, v)
      | (true, v) => (if slot then some unique else none, v)) :
    Ahead (result.1.toList ++ handedOut) result.2 ∧ ∀ u, result.1 = some u → u = unique := by
  have listed := addToVolumeUpdateList_ahead (w := w') ahead room
  cases added : v.addToVolumeUpdateList w' with
  | mk done v' =>
    rw [added] at rest listed
    cases done with
    | false =>
      rw [rest]
      exact ⟨listed.tail, fun u none => by cases none⟩
    | true =>
      rw [rest]
      cases slot with
      | false => exact ⟨listed.tail, fun u none => by cases none⟩
      | true => exact ⟨listed, fun u same => (Option.some.inj same).symm⟩

theorem allocVnode_ahead (w w' : HeaderWrite) (slot : Bool) (ahead : Ahead handedOut v) (room : v.nextVnodeUnique + 202 < 2 ^ 32) :
    Ahead ((v.allocVnode w w' slot).1.toList ++ handedOut) (v.allocVnode w w' slot).2 ∧
      ∀ u, (v.allocVnode w w' slot).1 = some u → 0 < u ∧ u ∉ handedOut := by
  unfold allocVnode
  by_cases inUse : v.diskstuff.inUse = true
  · rw [if_pos inUse]
    rcases takeUnique_spec room with ⟨positive, after, taken, room'⟩
    cases split : v.takeUnique with
    | mk unique v' =>
      rw [split] at positive after taken room'
      simp only at positive after taken room' ⊢
      have fresh : unique ∉ handedOut := by
        intro issued
        have earlier := ahead.next unique issued
        omega
      have below : ∀ u ∈ handedOut, u < unique := fun u issued => Nat.lt_of_lt_of_le (ahead.next u issued) after
      have good : ∀ result : Option Nat × Volume, (∀ u, result.1 = some u → u = unique) →
          ∀ u, result.1 = some u → 0 < u ∧ u ∉ handedOut := by
        intro result only u same
        rw [only u same]
        exact ⟨positive, fresh⟩
      have next : ∀ u ∈ unique :: handedOut, u < unique + 1 := by
        intro u issued
        rcases List.mem_cons.mp issued with rfl | issued
        · exact Nat.lt_succ_self u
        · exact Nat.lt_succ_of_lt (below u issued)
      have disk : ∀ u ∈ handedOut, u < v'.disk.uniquifier := taken ▸ ahead.disk
      have same : v'.diskstuff = v.diskstuff ∧ v'.disk = v.disk ∧ v'.nextVnodeUnique = unique + 1 := by
        rw [taken]
        exact ⟨rfl, rfl, rfl⟩
      rcases same with ⟨stuff, ondisk, counter⟩
      by_cases behind : v'.diskstuff.uniquifier < v'.nextVnodeUnique
      · rw [if_pos behind]
        cases w with
        | ok =>
          rw [updateVolume_ok]
          have written : v'.nextUniquifier = unique + 201 := by
            unfold nextUniquifier word
            rw [stuff, if_pos inUse, counter]
            omega
          rw [written]
          have grown : Ahead (unique :: handedOut) { v' with
              disk := { v'.diskstuff with uniquifier := unique + 201 }
              diskstuff.uniquifier := unique + 201 } := by
            constructor
            · intro u issued
              have later := next u issued
              show u < unique + 201
              omega
            · show ∀ u ∈ unique :: handedOut, u < v'.nextVnodeUnique
              rw [counter]
              exact next
            · exact fun _ => rfl
          have rest := listed_ahead w' slot grown (by show v'.nextVnodeUnique + 200 < _; omega) rfl
          exact ⟨rest.1, good _ rest.2⟩
        | failed fields =>
          have kept := updateVolume_ahead (n := false) (w := .failed fields) disk
            (fun u issued => counter ▸ next u (List.mem_cons_of_mem _ issued)) (by omega) fun quiet => by cases quiet
          exact ⟨kept, fun u none => by cases none⟩
      · rw [if_neg behind]
        have grown : Ahead (unique :: handedOut) v' := by
          have onDisk := ahead.same inUse
          constructor
          · intro u issued
            have later := next u issued
            rw [ondisk, ← onDisk, ← stuff]
            omega
          · rw [counter]
            exact next
          · rw [stuff, ondisk]
            exact ahead.same
        have rest := listed_ahead w' slot grown (by omega) rfl
        exact ⟨rest.1, good _ rest.2⟩
  · rw [if_neg inUse]
    exact ⟨ahead, fun u none => by cases none⟩

theorem reload_ahead (ahead : Ahead handedOut v) : Ahead handedOut (v.reload w) := by
  have same : (v.reload w).disk.uniquifier = v.disk.uniquifier ∧ (v.reload w).nextVnodeUnique = v.nextVnodeUnique ∧
      (v.reload w).diskstuff = (v.reload w).disk := by
    unfold reload
    by_cases inUse : v.diskstuff.inUse = true
    · rw [if_pos inUse]
      refine ⟨?_, ?_, rfl⟩
      · cases w with
        | ok => exact ahead.same inUse
        | failed fields =>
          rcases over_uniquifier v.disk v.diskstuff fields with old | new
          · exact old
          · exact new.trans (ahead.same inUse)
      · cases w with
        | ok => rfl
        | failed fields => rfl
    · rw [if_neg inUse]
      exact ⟨rfl, rfl, rfl⟩
  constructor
  · rw [same.1]
    exact ahead.disk
  · rw [same.2.1]
    exact ahead.next
  · intro _
    rw [same.2.2]

theorem forceOffline_ahead (ahead : Ahead handedOut v) (room : v.nextVnodeUnique + 200 < 2 ^ 32) :
    Ahead handedOut (v.forceOffline w) := by
  unfold forceOffline
  split
  · rcases markOffline_same v with ⟨disk, next⟩
    apply updateVolume_ahead
    · rw [disk]
      exact ahead.disk
    · rw [next]
      exact ahead.next
    · rw [next]
      exact room
    · exact fun _ => markOffline_inUse v
  · exact ahead

end Volume

namespace VolumeServer

variable {s s' : VolumeServer} {demandAttach : Bool} {a : VolumeAction}

/-- Nothing was handed out twice, and the number on disk is greater than all of them. -/
structure Sound (s : VolumeServer) : Prop where
  once : s.handedOut.Nodup
  positive : 0 ∉ s.handedOut
  ahead : ∀ u ∈ s.handedOut, u < s.disk.uniquifier

def begun (s : VolumeServer) (fresh : Bool) : Nat := if fresh then 0 else (s.vp.map Prod.snd).getD s.stale

/-- An attach that meets a header left in use writes a number that is still ahead, and the counter stays in its word. -/
def Safe (s : VolumeServer) : VolumeAction → Prop
  | .attach fresh .. => (s.vp.any fun vp => vp.1.inUse) = false →
    (s.disk.needsSalvaged = false → s.disk.inUse = true → ∀ u ∈ s.handedOut, u < word (s.begun fresh + 200)) ∧
      (s.disk.inUse = false → s.disk.uniquifier + 202 < 2 ^ 32)
  | .crash => True
  | _ => ∀ vp ∈ s.vp, vp.2 + 202 < 2 ^ 32

instance : ∀ s a, Decidable (Safe s a)
  | s, .attach fresh .. => inferInstanceAs (Decidable ((s.vp.any fun vp => vp.1.inUse) = false →
    (s.disk.needsSalvaged = false → s.disk.inUse = true → ∀ u ∈ s.handedOut, u < word (s.begun fresh + 200)) ∧
      (s.disk.inUse = false → s.disk.uniquifier + 202 < 2 ^ 32)))
  | _, .crash => isTrue trivial
  | s, .allocVnode .. => inferInstanceAs (Decidable (∀ vp ∈ s.vp, vp.2 + 202 < 2 ^ 32))
  | s, .deleteVnode _ => inferInstanceAs (Decidable (∀ vp ∈ s.vp, vp.2 + 202 < 2 ^ 32))
  | s, .updateVolume _ => inferInstanceAs (Decidable (∀ vp ∈ s.vp, vp.2 + 202 < 2 ^ 32))
  | s, .scanUpdateList _ => inferInstanceAs (Decidable (∀ vp ∈ s.vp, vp.2 + 202 < 2 ^ 32))
  | s, .forceOffline _ => inferInstanceAs (Decidable (∀ vp ∈ s.vp, vp.2 + 202 < 2 ^ 32))
  | s, .offline _ => inferInstanceAs (Decidable (∀ vp ∈ s.vp, vp.2 + 202 < 2 ^ 32))
  | s, .reload _ => inferInstanceAs (Decidable (∀ vp ∈ s.vp, vp.2 + 202 < 2 ^ 32))

structure Kept (s : VolumeServer) : Prop where
  sound : s.Sound
  memory : ∀ vp, s.vp = some vp → Ahead s.handedOut (s.volume vp)

theorem Kept.put (kept : s.Kept) {v : Volume} (ahead : Ahead s.handedOut v) : (s.put v).Kept := by
  refine ⟨⟨kept.sound.once, kept.sound.positive, ahead.disk⟩, ?_⟩
  intro vp same
  cases same
  exact ahead

theorem Kept.gone (kept : s.Kept) {disk : VolumeDiskData} (ahead : ∀ u ∈ s.handedOut, u < disk.uniquifier)
    (stale : Nat) : Kept { s with disk := disk, vp := none, stale := stale } :=
  ⟨⟨kept.sound.once, kept.sound.positive, ahead⟩, fun vp none => by cases none⟩

theorem Kept.attach2 (kept : s.Kept) (w : HeaderWrite) (bitmaps : Bool) (next : Nat)
    (safe : s.disk.needsSalvaged = false → s.disk.inUse = true → ∀ u ∈ s.handedOut, u < word (next + 200)) :
    (s.attach2 w bitmaps next).Kept ∧ (s.attach2 w bitmaps next).handedOut = s.handedOut ∧
      ∀ vp, (s.attach2 w bitmaps next).vp = some vp → vp.2 = s.disk.uniquifier ∧ s.disk.inUse = false := by
  unfold VolumeServer.attach2
  by_cases salvage : s.disk.needsSalvaged = true
  · rw [if_pos salvage]
    exact ⟨kept.gone kept.sound.ahead next, rfl, fun vp none => by cases none⟩
  rw [if_neg salvage]
  by_cases inUse : s.disk.inUse = true
  · rw [if_pos inUse]
    refine ⟨kept.gone ?_ next, rfl, fun vp none => by cases none⟩
    intro u issued
    have written := (Volume.updateVolume_same (v := ⟨s.disk, { s.disk with needsSalvaged := true }, next⟩)
      (w := w) fun quiet : false = true => by cases quiet).2.1
    rcases written with old | new
    · rw [old]
      exact kept.sound.ahead u issued
    rw [new]
    unfold Volume.nextUniquifier
    rw [if_pos inUse]
    exact safe (Bool.eq_false_iff.mpr salvage) inUse u issued
  rw [if_neg inUse]
  by_cases destroy : s.disk.destroyMe = true
  · rw [if_pos destroy]
    exact ⟨kept.gone kept.sound.ahead next, rfl, fun vp none => by cases none⟩
  rw [if_neg destroy]
  cases bitmaps with
  | false => exact ⟨kept.gone kept.sound.ahead _, rfl, fun vp none => by cases none⟩
  | true =>
    refine ⟨⟨⟨kept.sound.once, kept.sound.positive, kept.sound.ahead⟩, ?_⟩, rfl, ?_⟩
    · intro vp same
      cases same
      exact ⟨kept.sound.ahead, kept.sound.ahead, fun _ => rfl⟩
    · intro vp same
      cases same
      exact ⟨rfl, Bool.eq_false_iff.mpr inUse⟩

theorem Kept.attach (kept : s.Kept) {fresh bitmaps : Bool} {w w' w'' : HeaderWrite}
    (safe : s.Safe (.attach fresh w w' w'' bitmaps)) : (s.attach demandAttach fresh w w' w'' bitmaps).Kept := by
  unfold VolumeServer.attach
  cases attached : s.vp.any fun vp => vp.1.inUse with
  | true => exact kept
  | false =>
    rw [if_neg Bool.false_ne_true]
    rcases safe attached with ⟨left, room⟩
    rcases kept.attach2 w bitmaps (s.begun fresh) left with ⟨kept', same, begins⟩
    unfold begun at kept' same begins
    generalize s.attach2 w bitmaps (if fresh then 0 else (s.vp.map Prod.snd).getD s.stale) = t at kept' same begins
    simp only
    split
    · exact kept'
    next vp have' =>
    rcases begins vp have' with ⟨next, free⟩
    have room' := room free
    have ahead := kept'.memory vp have'
    split
    · exact kept'
    have updated := Volume.updateVolume_ahead (w := w') (n := false) ahead.disk ahead.next
      (by show vp.2 + 200 < 2 ^ 32; omega) fun quiet => by cases quiet
    have counter := (Volume.updateVolume_same (v := t.volume vp) (w := w') (n := false)
      fun quiet => by cases quiet).1
    split
    · next v result =>
      rw [result] at updated
      exact kept'.put updated
    next v result =>
    rw [result] at updated counter
    split
    · exact kept'.put updated
    apply kept'.put
    apply Volume.addToVolumeUpdateList_ahead
    · split
      · exact updated
      · exact ⟨updated.disk, updated.next, updated.same⟩
    have small : v.nextVnodeUnique + 200 < 2 ^ 32 := by
      rw [counter]
      show vp.2 + 200 < 2 ^ 32
      omega
    split
    · exact small
    · exact small

theorem Kept.step (kept : s.Kept) (safe : s.Safe a) (taken : s.step demandAttach a = some s') : s'.Kept := by
  cases a with
  | attach fresh w w' w'' bitmaps =>
    cases taken
    exact kept.attach safe
  | crash =>
    cases taken
    exact kept.gone kept.sound.ahead 0
  | allocVnode w w' slot =>
    rcases Option.map_eq_some_iff.mp taken with ⟨vp, loaded, rfl⟩
    have room := safe vp loaded
    rcases Volume.allocVnode_ahead w w' slot (kept.memory vp loaded) room with ⟨ahead, fresh⟩
    generalize (s.volume vp).allocVnode w w' slot = result at ahead fresh
    rcases result with ⟨unique, v⟩
    refine ⟨⟨?_, ?_, ahead.disk⟩, ?_⟩
    · cases unique with
      | none => exact kept.sound.once
      | some u => exact List.nodup_cons.mpr ⟨(fresh u rfl).2, kept.sound.once⟩
    · cases unique with
      | none => exact kept.sound.positive
      | some u =>
        intro zero
        rcases List.mem_cons.mp zero with same | issued
        · exact absurd same (Nat.ne_of_lt (fresh u rfl).1)
        · exact kept.sound.positive issued
    · intro vp same
      cases same
      exact ahead
  | deleteVnode w =>
    rcases Option.map_eq_some_iff.mp taken with ⟨vp, loaded, rfl⟩
    have room : vp.2 + 202 < 2 ^ 32 := safe vp loaded
    exact kept.put (Volume.addToVolumeUpdateList_ahead (kept.memory vp loaded) (by show vp.2 + 200 < 2 ^ 32; omega))
  | updateVolume w =>
    rcases Option.map_eq_some_iff.mp taken with ⟨vp, loaded, rfl⟩
    have room : vp.2 + 202 < 2 ^ 32 := safe vp loaded
    have ahead := kept.memory vp loaded
    exact kept.put (Volume.updateVolume_ahead ahead.disk ahead.next (by show vp.2 + 200 < 2 ^ 32; omega)
      fun quiet => by cases quiet)
  | scanUpdateList w =>
    rcases Option.map_eq_some_iff.mp taken with ⟨vp, loaded, rfl⟩
    have room : vp.2 + 202 < 2 ^ 32 := safe vp loaded
    have ahead := kept.memory vp loaded
    exact kept.put (Volume.updateVolume_ahead ahead.disk ahead.next (by show vp.2 + 200 < 2 ^ 32; omega)
      fun quiet => by cases quiet)
  | forceOffline w =>
    rcases Option.map_eq_some_iff.mp taken with ⟨vp, loaded, rfl⟩
    have room : vp.2 + 202 < 2 ^ 32 := safe vp loaded
    exact kept.put (Volume.forceOffline_ahead (kept.memory vp loaded) (by show vp.2 + 200 < 2 ^ 32; omega))
  | offline w =>
    rcases Option.map_eq_some_iff.mp taken with ⟨vp, loaded, rfl⟩
    have room : vp.2 + 202 < 2 ^ 32 := safe vp loaded
    have ahead := kept.memory vp loaded
    split
    · have updated := Volume.updateVolume_ahead (w := w) (n := false)
        (v := { s.volume vp with diskstuff.inUse := false }) ahead.disk ahead.next
        (by show vp.2 + 200 < 2 ^ 32; omega) fun quiet => by cases quiet
      exact kept.gone updated.disk vp.2
    · exact kept
  | reload w =>
    rcases Option.map_eq_some_iff.mp taken with ⟨vp, loaded, rfl⟩
    exact kept.put (Volume.reload_ahead (kept.memory vp loaded))

end VolumeServer

/-- In every run in which no attach meets a header left in use after numbers were handed out that are not below what it
then writes, and in which the counter stays in its word. -/
theorem uniquifiers_never_reused (demandAttach : Bool) (s : VolumeServer)
    (reached : (volumeServer demandAttach).ReachWhere VolumeServer.Safe s) : s.Sound := by
  have kept : s.Kept := by
    apply reached.invariant
    · rintro s ⟨unattached, nothing⟩
      refine ⟨⟨nothing ▸ List.nodup_nil, nothing ▸ List.not_mem_nil, ?_⟩, ?_⟩
      · rw [nothing]
        exact fun u issued => absurd issued List.not_mem_nil
      · intro vp loaded
        rw [unattached] at loaded
        cases loaded
    · exact fun s a s' kept safe taken => kept.step safe taken
  exact kept.sound

def newVolume : VolumeServer := ⟨⟨false, true, true, false, 1, false, false⟩, none, 0, []⟩

def VolumeAction.allocates : VolumeAction → Bool
  | .allocVnode .. => true
  | _ => false

def online : VolumeAction := .attach true .ok .ok .ok true

def allocateAndReattach : List VolumeAction :=
  [online] ++ List.replicate 3 (.allocVnode .ok .ok true) ++ [.updateVolume .ok, .offline .ok, online] ++
    List.replicate 202 (.allocVnode .ok .ok true) ++ [.forceOffline (.failed 3), .crash]

def reattached : VolumeServer :=
  ((volumeServer false).runWhere VolumeServer.Safe newVolume allocateAndReattach).get (by decide +kernel)

theorem uniquifiers_never_reused_reattached : reattached.Sound ∧ reattached.handedOut.length = 205 := by
  have ran : (volumeServer false).runWhere VolumeServer.Safe newVolume allocateAndReattach = some reattached :=
    (Option.some_get _).symm
  exact ⟨uniquifiers_never_reused false reattached (Machine.ReachWhere.runWhere (.start ⟨rfl, rfl⟩) ran), by decide +kernel⟩

def crashAndAttach : List VolumeAction :=
  [online] ++ List.replicate 200 (.allocVnode .ok .ok true) ++ [.crash, online, .crash]

def crashed (demandAttach : Bool) : VolumeServer :=
  ((volumeServer demandAttach).run newVolume crashAndAttach).get (by cases demandAttach <;> decide +kernel)

/-- The attach writes the header of the volume with a uniquifier of 200, before it has taken over the one that was there. -/
theorem attach_sets_uniquifier_back : ¬ ∃ demandAttach, ∀ s acts s', (volumeServer demandAttach).start s →
    (acts.countP VolumeAction.allocates) < 2 ^ 32 - 200 → (volumeServer demandAttach).run s acts = some s' →
    s'.Sound := by
  rintro ⟨demandAttach, claimed⟩
  have ran : (volumeServer demandAttach).run newVolume crashAndAttach = some (crashed demandAttach) :=
    (Option.some_get _).symm
  have sound := claimed newVolume crashAndAttach (crashed demandAttach) ⟨rfl, rfl⟩ (by decide +kernel) ran
  have issued : 200 ∈ (crashed demandAttach).handedOut := by cases demandAttach <;> decide +kernel
  have onDisk : (crashed demandAttach).disk.uniquifier = 200 := by cases demandAttach <;> decide +kernel
  have ahead := sound.ahead 200 issued
  rw [onDisk] at ahead
  exact Nat.lt_irrefl 200 ahead

end OpenAFS.Vol
