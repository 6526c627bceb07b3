import OpenAFS.Vol.VnodeAgree

namespace OpenAFS.Vol

open Function (update)
open Lib List

inductive VnodeAction where
  | attach (nextVnodeUnique : Nat) (readable : VnodeClass → Nat)
  | detach
  | allocVnode (type : UInt8) (unique : Nat) (header : Bool) (io : VnodeVolume.AllocIndex)
  | getVnode (c : VnodeClass) (bitNumber : Nat) (lock : LockType) (header : Bool) (io : VnodeVolume.LoadIndex)
  | modify (h : Handle) (vnp : Vnode)
  | putVnode (h : Handle) (io : VnodeVolume.StoreIndex)
  | vnodeWriteToRead (h : Handle) (io : VnodeVolume.StoreIndex)
  | evict (c : VnodeClass) (bitNumber : Nat)
  | forceOffline

namespace VnodeVolume

/-- What a caller may do: only a caller with the write lock changes the vnode, which remains one of its class. -/
def step (demandAttach : Bool) (s : VnodeVolume) : VnodeAction → Option VnodeVolume
  | .attach nextVnodeUnique readable =>
    if s.attached ∨ s.salvage then none else some (s.attach demandAttach nextVnodeUnique readable)
  | .detach => if s.held = [] then some s.detach else none
  | .allocVnode type unique header io =>
    if type = vNull then none else (s.allocVnode demandAttach type unique header io).map (·.2)
  | .getVnode c bitNumber lock header io => (s.getVnode demandAttach c bitNumber lock header io).map (·.2)
  | .modify h vnp =>
    if h ∈ s.held ∧ h.lock = .write ∧ vnp.disk.type ≠ vNull ∧ vnp.disk.vnodeMagic = h.class_.info.magic then
      some (s.setCached h vnp)
    else none
  | .putVnode h io => (s.putVnode demandAttach h io).map (·.2)
  | .vnodeWriteToRead h io => (s.vnodeWriteToRead demandAttach h io).map (·.2)
  | .evict c bitNumber =>
    if s.held.any fun h => h.class_ = c ∧ h.bitNumber = bitNumber then none
    else some (s.setIndex c ((s.index c).cached bitNumber none))
  | .forceOffline => some s.forceOffline

structure Start (s : VnodeVolume) : Prop where
  attached : s.attached = false
  inUse : s.inUse = false
  held : s.held = []

def deleted (s : VnodeVolume) (h : Handle) : Bool :=
  match (s.index h.class_).cache h.bitNumber with
  | some vnp => vnp.delete
  | none => false

/-- An attach can read all records in use; the store of a vnode to be deleted does not fail at the open or the seek when a
salvage was requested before, unless nothing of the vnode is on disk. -/
def Met (demandAttach : Bool) (s : VnodeVolume) : VnodeAction → Prop
  | .attach _ readable => ∀ c ∈ [VnodeClass.small, .large], ∀ r ∈ (s.index c).file.drop (readable c), r.type = vNull
  | .putVnode h io =>
    demandAttach ∧ s.salvage ∧ s.deleted h ∧ (io = .openFails ∨ io = .seekFails) →
      ((s.index h.class_).file.getD h.bitNumber .zero).type = vNull
  | _ => True

instance (demandAttach : Bool) (s : VnodeVolume) (a : VnodeAction) : Decidable (s.Met demandAttach a) := by
  cases a <;> unfold Met <;> infer_instance

def Holds (s : VnodeVolume) (c : VnodeClass) (n : Nat) : Prop := ∃ h ∈ s.held, h.class_ = c ∧ h.bitNumber = n

structure BitsSound (demandAttach : Bool) (s : VnodeVolume) : Prop where
  disk : s.attached = true → ∀ c n r, (s.index c).file[n]? = some r → r.type ≠ vNull → (s.index c).bit n = true
  sane : s.attached = true → ∀ c r, (s.index c).file[(s.index c).allocBitmapEntry.1]? = some r → r.type = vNull
  addled : ∀ type unique header io result s',
    s.allocVnode demandAttach type unique header io = some (result, s') → result ≠ .error .addled
  fresh : ∀ type unique header io n s',
    s.allocVnode demandAttach type unique header io = some (.ok n, s') → ¬ s.Holds (vnodeTypeToClass type) n
  failedAlloc : ∀ type unique header io error s', s.allocVnode demandAttach type unique header io = some (.error error, s') →
      ∀ c n, (s'.index c).bit n = (s.index c).bit n
  failedPut : ∀ h io error s', s.putVnode demandAttach h io = some (some error, s') →
    ∀ c n, (s'.index c).bit n = (s.index c).bit n

end VnodeVolume

def vnodeServer (demandAttach : Bool) : Machine VnodeVolume VnodeAction := ⟨VnodeVolume.Start, VnodeVolume.step demandAttach⟩

namespace VnodeVolume

variable {s s' : VnodeVolume} {c : VnodeClass} {n : Nat} {h : Handle}

def Apart (h g : Handle) : Prop :=
  h.class_ = g.class_ → h.bitNumber = g.bitNumber → h.lock = .read ∧ g.lock = .read

structure Agrees (s : VnodeVolume) : Prop where
  index : s.attached = true → ∀ c, (s.index c).Agrees
  held : ∀ h ∈ s.held, s.attached = true ∧ ∃ vnp, (s.index h.class_).cache h.bitNumber = some vnp ∧ vnp.disk.type ≠ vNull
  alone : s.held.Pairwise Apart
  live : s.inUse = true → s.attached = true

theorem Agrees.held_bit (agrees : s.Agrees) (here : h ∈ s.held) : (s.index h.class_).bit h.bitNumber = true := by
  rcases agrees.held h here with ⟨attached, vnp, cached, inUse⟩
  exact (agrees.index attached h.class_).cache h.bitNumber vnp cached inUse

theorem Agrees.not_holds (agrees : s.Agrees) (clear : (s.index c).bit n = false) : ¬ s.Holds c n := by
  rintro ⟨h, here, rfl, rfl⟩
  rw [agrees.held_bit here] at clear
  cases clear

@[simp] theorem setIndex_same (s : VnodeVolume) (c : VnodeClass) (ix : VnodeIndex) : (s.setIndex c ix).index c = ix := by
  exact Function.update_self c ix s.index

theorem setIndex_other (s : VnodeVolume) {c d : VnodeClass} (ix : VnodeIndex) (other : d ≠ c) :
    (s.setIndex c ix).index d = s.index d := by
  exact Function.update_of_ne other ix s.index

section

variable (agrees : s.Agrees)
include agrees

theorem Agrees.setIndex {ix : VnodeIndex} (new : s.attached = true → ix.Agrees)
    (keeps : ∀ n, s.Holds c n → ∃ vnp, ix.cache n = some vnp ∧ vnp.disk.type ≠ vNull) : (s.setIndex c ix).Agrees := by
  constructor
  · intro attached d
    by_cases same : d = c
    · subst same
      rw [setIndex_same]
      exact new attached
    · rw [setIndex_other s ix same]
      exact agrees.index attached d
  · intro h here
    constructor
    · exact (agrees.held h here).1
    by_cases same : h.class_ = c
    · subst same
      rw [setIndex_same]
      exact keeps h.bitNumber ⟨h, here, rfl, rfl⟩
    · rw [setIndex_other s ix same]
      exact (agrees.held h here).2
  · exact agrees.alone
  · exact agrees.live

theorem Agrees.keeps {ix : VnodeIndex} (cache : ix.cache = (s.index c).cache) :
    ∀ n, s.Holds c n → ∃ vnp, ix.cache n = some vnp ∧ vnp.disk.type ≠ vNull := by
  rintro n ⟨h, here, rfl, rfl⟩
  rw [cache]
  exact (agrees.held h here).2

theorem Agrees.keeps_cached {vnp : Option Vnode}
    (free : ¬ s.Holds c n ∨ ∃ v, vnp = some v ∧ v.disk.type ≠ vNull) :
    ∀ m, s.Holds c m → ∃ v, ((s.index c).cached n vnp).cache m = some v ∧ v.disk.type ≠ vNull := by
  intro m holds
  by_cases same : m = n
  · subst same
    rw [VnodeIndex.cached_same]
    exact free.resolve_left (not_not.mpr holds)
  · rw [VnodeIndex.cached_other _ _ same]
    rcases holds with ⟨h, here, rfl, rfl⟩
    exact (agrees.held h here).2

theorem Agrees.cached {vnp : Option Vnode}
    (has : ∀ v, vnp = some v → v.disk.type ≠ vNull → s.attached = true → (s.index c).bit n = true)
    (free : ¬ s.Holds c n ∨ ∃ v, vnp = some v ∧ v.disk.type ≠ vNull) :
    (s.setIndex c ((s.index c).cached n vnp)).Agrees := by
  apply agrees.setIndex
  · intro attached
    exact (agrees.index attached c).cached fun v same inUse => has v same inUse attached
  · exact agrees.keeps_cached free

theorem Agrees.requestSalvage : s.requestSalvage.2.Agrees :=
  ⟨agrees.index, agrees.held, agrees.alone, agrees.live⟩

theorem Agrees.forceOffline : s.forceOffline.Agrees := by
  unfold VnodeVolume.forceOffline
  split
  · exact ⟨agrees.index, agrees.held, agrees.alone, fun inUse => by cases inUse⟩
  · exact agrees

end

theorem forceOffline_index (s : VnodeVolume) : s.forceOffline.index = s.index ∧ s.forceOffline.held = s.held := by
  unfold forceOffline
  split
  · exact ⟨rfl, rfl⟩
  · exact ⟨rfl, rfl⟩

theorem Agrees.hold (agrees : s.Agrees) (attached : s.attached = true)
    (inUse : ∃ vnp, (s.index h.class_).cache h.bitNumber = some vnp ∧ vnp.disk.type ≠ vNull)
    (apart : ∀ g ∈ s.held, Apart h g) : ({ s with held := h :: s.held } : VnodeVolume).Agrees := by
  constructor
  · exact agrees.index
  · intro g here
    rcases List.mem_cons.mp here with rfl | before
    · exact ⟨attached, inUse⟩
    · exact agrees.held g before
  · exact List.pairwise_cons.mpr ⟨apart, agrees.alone⟩
  · exact agrees.live

section Allocating

variable {demandAttach : Bool} {type : UInt8} {unique : Nat} {header : Bool} {io : AllocIndex}
  {result : Except VnodeError Nat}

theorem Agrees.allocDone (agrees : s.Agrees) (attached : s.attached = true) (set : (s.index c).bit n = true)
    (free : ¬ s.Holds c n) (done : s.allocDone c type unique n = some (result, s')) :
    (type ≠ vNull → s'.Agrees) ∧ result = .ok n := by
  rcases done with ⟨rfl, rfl⟩
  refine ⟨fun inUse => ?_, rfl⟩
  have has : ∀ v, (some (⟨⟨type, c.info.magic, unique, 0⟩, false, false, false⟩ : Vnode)) = some v →
      v.disk.type ≠ vNull → s.attached = true → (s.index c).bit n = true := fun _ _ _ _ => set
  apply (agrees.cached has (.inl free)).hold (h := ⟨c, n, .write⟩) attached
  · rw [setIndex_same, VnodeIndex.cached_same]
    exact ⟨_, rfl, inUse⟩
  · intro g here sameClass sameBit
    exact absurd ⟨g, here, sameClass.symm, sameBit.symm⟩ free

theorem Agrees.allocFailed (agrees : s.Agrees) (attached : s.attached = true) {error : VnodeError}
    (failed : (s.setIndex c (s.index c).allocBitmapEntry.2).allocFailed demandAttach c (s.index c).allocBitmapEntry.1
      error = some (result, s')) :
    s'.Agrees ∧ result = .error error ∧ ∀ d m, (s'.index d).bit m = (s.index d).bit m := by
  unfold VnodeVolume.allocFailed at failed
  split at failed
  · rw [Option.some_inj, Prod.mk.injEq, setIndex_same] at failed
    rcases failed with ⟨rfl, rfl⟩
    have whole := (agrees.index attached c).whole
    rcases VnodeIndex.allocBitmapEntry_spec (s.index c) with ⟨clear, bits, file, cache⟩
    rcases VnodeIndex.freeBitmapEntry_spec (s.index c).allocBitmapEntry.1 (s.index c).allocBitmapEntry.2 with
      ⟨-, -, file', cache'⟩
    have same := VnodeIndex.bit_free_alloc (s.index c) whole
    generalize freed : ((s.index c).allocBitmapEntry.2.freeBitmapEntry (s.index c).allocBitmapEntry.1).2 = ix
      at file' cache' same
    have free := agrees.not_holds clear
    have whole' : 8 ∣ ix.bitmap.length := by
      rw [← freed, VnodeIndex.freeBitmapEntry_length]
      exact VnodeIndex.allocBitmapEntry_length _ whole
    have new : ix.Agrees := by
      constructor
      · exact whole'
      · intro m r found inUse
        rw [file', file] at found
        rw [same]
        exact (agrees.index attached c).disk m r found inUse
      · intro m vnp found inUse
        rw [cache', cache] at found
        rw [same]
        exact (agrees.index attached c).cache m vnp found inUse
    have indexes : ∀ d, d ≠ c → ((s.setIndex c (s.index c).allocBitmapEntry.2).setIndex c
        (ix.cached (s.index c).allocBitmapEntry.1 none)).index d = s.index d := by
      intro d other
      rw [setIndex_other _ _ other, setIndex_other _ _ other]
    refine ⟨?_, rfl, ?_⟩
    · apply Agrees.requestSalvage
      constructor
      · intro _ d
        by_cases here : d = c
        · subst here
          rw [setIndex_same]
          exact new.cached fun v absent => by cases absent
        · rw [indexes d here]
          exact agrees.index attached d
      · intro h here
        refine ⟨attached, ?_⟩
        by_cases same' : h.class_ = c
        · have other : h.bitNumber ≠ (s.index c).allocBitmapEntry.1 := by
            intro bad
            exact free ⟨h, here, same', bad⟩
          subst same'
          rw [setIndex_same, VnodeIndex.cached_other _ _ other, cache', cache]
          exact (agrees.held h here).2
        · rw [indexes _ same']
          exact (agrees.held h here).2
      · exact agrees.alone
      · exact agrees.live
    · intro d m
      show ((VnodeVolume.setIndex _ c _).index d).bit m = _
      by_cases here : d = c
      · subst here
        rw [setIndex_same]
        exact same m
      · rw [indexes d here]
  · cases failed

theorem Agrees.allocVnode (agrees : s.Agrees) (called : s.allocVnode demandAttach type unique header io = some (result, s')) :
    (type ≠ vNull → s'.Agrees) ∧ result ≠ .error .addled ∧ (∀ n, result = .ok n → ¬ s.Holds (vnodeTypeToClass type) n) ∧
      ∀ error, result = .error error → ∀ d m, (s'.index d).bit m = (s.index d).bit m := by
  unfold VnodeVolume.allocVnode at called
  simp only at called
  generalize vnodeTypeToClass type = c at called
  split at called
  · cases called
    exact ⟨fun _ => agrees, (fun bad => by cases bad), (fun _ bad => by cases bad), fun _ _ _ _ => rfl⟩
  split at called
  · cases called
    exact ⟨fun _ => agrees, (fun bad => by cases bad), (fun _ bad => by cases bad), fun _ _ _ _ => rfl⟩
  next online =>
  split at called
  · cases called
    refine ⟨fun _ => agrees.forceOffline, (fun bad => by cases bad), (fun _ bad => by cases bad), ?_⟩
    intro _ _ d m
    rw [(forceOffline_index s).1]
  have attached : s.attached = true := agrees.live (by simpa using online)
  have index := agrees.index attached c
  rcases VnodeIndex.allocBitmapEntry_spec (s.index c) with ⟨clear, bits, file, cache⟩
  have free : ¬ s.Holds c (s.index c).allocBitmapEntry.1 := agrees.not_holds clear
  have taken : (s.setIndex c (s.index c).allocBitmapEntry.2).Agrees :=
    agrees.setIndex (fun _ => index.allocBitmapEntry) (agrees.keeps cache)
  have set : (s.index c).allocBitmapEntry.2.bit (s.index c).allocBitmapEntry.1 = true := (bits _).mpr (.inr rfl)
  split at called
  · split at called
    · cases called
    rcases taken.allocDone attached (by rw [setIndex_same]; exact set) free called with ⟨agrees', rfl⟩
    refine ⟨agrees', (fun bad => by cases bad), ?_, fun _ bad => by cases bad⟩
    rintro _ ⟨⟩
    exact free
  split at called
  · next grown =>
    split at called
    · next disk found =>
      split at called
      · next bad =>
        rw [file] at found
        have set' := index.disk _ _ found bad
        rw [clear] at set'
        cases set'
      · rcases taken.allocDone attached (by rw [setIndex_same]; exact set) free called with ⟨agrees', rfl⟩
        refine ⟨agrees', (fun bad => by cases bad), ?_, fun _ bad => by cases bad⟩
        rintro _ ⟨⟩
        exact free
    next beyond =>
    rcases VnodeIndex.grow_bitmap (s.index c).allocBitmapEntry.2 (s.index c).allocBitmapEntry.1 grown with
      ⟨bitmap', cache'⟩
    have grownAgrees : ((s.setIndex c (s.index c).allocBitmapEntry.2).setIndex c
        ((s.index c).allocBitmapEntry.2.grow (s.index c).allocBitmapEntry.1 grown)).Agrees := by
      apply taken.setIndex
      · intro _
        exact index.allocBitmapEntry.grow grown
      · apply taken.keeps
        rw [setIndex_same]
        exact cache'
    have set' : (((s.setIndex c (s.index c).allocBitmapEntry.2).setIndex c
        ((s.index c).allocBitmapEntry.2.grow (s.index c).allocBitmapEntry.1 grown)).index c).bit
          (s.index c).allocBitmapEntry.1 = true := by
      rw [setIndex_same]
      unfold VnodeIndex.bit
      rw [bitmap']
      exact set
    rcases grownAgrees.allocDone attached set' free called with ⟨agrees', rfl⟩
    refine ⟨agrees', (fun bad => by cases bad), ?_, fun _ bad => by cases bad⟩
    rintro _ ⟨⟩
    exact free
  · rcases agrees.allocFailed attached called with ⟨agrees', rfl, same⟩
    exact ⟨fun _ => agrees', (fun bad => by cases bad), (fun _ bad => by cases bad), fun _ _ => same⟩

end Allocating

section Getting

variable {demandAttach : Bool} {lock : LockType} {header : Bool} {result : Option VnodeError}

theorem Agrees.getDone (agrees : s.Agrees) (attached : s.attached = true) {vnp : Vnode}
    (cached : (s.index c).cache n = some vnp) (done : s.getDone c n lock vnp = some (result, s')) : s'.Agrees := by
  unfold VnodeVolume.getDone at done
  split at done
  · cases done
  next alone =>
  split at done
  · cases done
    exact agrees
  next inUse =>
  cases done
  apply agrees.hold attached
  · exact ⟨vnp, cached, inUse⟩
  intro g here sameClass sameBit
  have reads : ¬ (g.lock = .write ∨ lock = .write) := by
    intro writes
    apply alone
    rw [any_eq_true]
    exact ⟨g, here, decide_eq_true ⟨sameClass.symm, sameBit.symm, writes⟩⟩
  constructor
  · show lock = .read
    cases lock with
    | read => rfl
    | write => exact absurd (.inr rfl) reads
  · cases mode : g.lock with
    | read => rfl
    | write => exact absurd (.inl mode) reads

theorem Agrees.vnLoad (agrees : s.Agrees) (io : LoadIndex) :
    (s.vnLoad demandAttach c n io).2.Agrees ∧ ∀ disk, (s.vnLoad demandAttach c n io).1 = .ok disk →
      (s.vnLoad demandAttach c n io).2 = s ∧ (s.index c).file[n]? = some disk ∧ disk.type ≠ vNull := by
  have salvage : (s.loadSalvage demandAttach).Agrees := by
    unfold loadSalvage
    split
    · exact agrees.requestSalvage
    · exact agrees.forceOffline
  unfold VnodeVolume.vnLoad
  cases io with
  | openFails => exact ⟨salvage, fun _ bad => by cases bad⟩
  | seekFails => exact ⟨salvage, fun _ bad => by cases bad⟩
  | badIget => exact ⟨agrees, fun _ bad => by cases bad⟩
  | readFails => exact ⟨agrees, fun _ bad => by cases bad⟩
  | eio => exact ⟨salvage, fun _ bad => by cases bad⟩
  | ok =>
    simp only
    split
    · exact ⟨agrees, fun _ bad => by cases bad⟩
    next disk found =>
    split
    · exact ⟨agrees, fun _ bad => by cases bad⟩
    next inUse =>
    split
    · split
      · exact ⟨salvage, fun _ bad => by cases bad⟩
      · exact ⟨agrees, fun _ bad => by cases bad⟩
    · refine ⟨agrees, ?_⟩
      rintro _ ⟨⟩
      exact ⟨rfl, found, inUse⟩

theorem Agrees.getVnode (agrees : s.Agrees) {io : LoadIndex}
    (called : s.getVnode demandAttach c n lock header io = some (result, s')) : s'.Agrees := by
  unfold VnodeVolume.getVnode at called
  split at called
  · cases called
    exact agrees
  split at called
  · cases called
    exact agrees
  next online =>
  have attached : s.attached = true := agrees.live (by simpa using online)
  split at called
  · cases called
    exact agrees.forceOffline
  split at called
  · next vnp cached => exact agrees.getDone attached cached called
  next absent =>
  rcases (agrees.vnLoad io : (s.vnLoad demandAttach c n io).2.Agrees ∧ _) with ⟨loaded, found⟩
  split at called
  · next error t result' =>
    cases called
    rw [result'] at loaded
    exact loaded
  next disk t result' =>
  rw [result'] at found
  rcases found disk rfl with ⟨same, there, inUse⟩
  have same : t = s := same
  rw [same] at called
  have cached : (s.setIndex c ((s.index c).cached n (some ⟨disk, false, false, false⟩))).Agrees :=
    agrees.cached (fun _ _ _ attached => (agrees.index attached c).disk n disk there inUse) (.inr ⟨_, rfl, inUse⟩)
  exact cached.getDone attached (by rw [setIndex_same, VnodeIndex.cached_same]) called

end Getting

section Putting

variable {demandAttach : Bool} {io : StoreIndex} {disk : DiskVnode} {error : Option VnodeError}

structure Stored (s s' : VnodeVolume) : Prop where
  held : s'.held = s.held
  attached : s'.attached = s.attached
  bitmap : ∀ c, (s'.index c).bitmap = (s.index c).bitmap
  cache : ∀ c, (s'.index c).cache = (s.index c).cache

theorem Stored.bit (stored : Stored s s') (c : VnodeClass) (n : Nat) : (s'.index c).bit n = (s.index c).bit n := by
  unfold VnodeIndex.bit
  rw [stored.bitmap]

theorem Agrees.write (agrees : s.Agrees) (set : (s.index c).bit n = true) :
    (s.setIndex c ((s.index c).write n disk)).Agrees ∧ Stored s (s.setIndex c ((s.index c).write n disk)) := by
  rcases VnodeIndex.write_bitmap (s.index c) n disk with ⟨bitmap, cache⟩
  constructor
  · apply agrees.setIndex
    · intro attached
      exact (agrees.index attached c).write fun _ => set
    · exact agrees.keeps cache
  refine ⟨rfl, rfl, ?_, ?_⟩
  · intro d
    by_cases same : d = c
    · rw [same, setIndex_same]
      exact bitmap
    · rw [setIndex_other _ _ same]
  intro d
  by_cases same : d = c
  · rw [same, setIndex_same]
    exact cache
  · rw [setIndex_other _ _ same]

theorem Stored.refl (s : VnodeVolume) : Stored s s := ⟨rfl, rfl, fun _ => rfl, fun _ => rfl⟩

theorem Stored.requestSalvage (s : VnodeVolume) : Stored s s.requestSalvage.2 :=
  ⟨rfl, rfl, fun _ => rfl, fun _ => rfl⟩

theorem Stored.forceOffline (stored : Stored s s') : Stored s s'.forceOffline := by
  unfold VnodeVolume.forceOffline
  split
  · exact ⟨stored.held, stored.attached, stored.bitmap, stored.cache⟩
  · exact stored

theorem Agrees.writeOut (agrees : s.Agrees) (set : (s.index h.class_).bit h.bitNumber = true)
    (called : s.writeOut demandAttach h disk io = some (error, s')) :
    s'.Agrees ∧ Stored s s' ∧ (s.inUse = true → error = none →
      (∀ r, (s'.index h.class_).file[h.bitNumber]? = some r → r.type ≠ vNull → r = disk) ∨
        (demandAttach = true ∧ s.salvage = true ∧ (io = .openFails ∨ io = .seekFails) ∧ s'.index = s.index)) := by
  have unwritten : ∀ failure, failure = StoreIndex.openFails ∨ failure = StoreIndex.seekFails →
      some s.requestSalvage = some (error, s') → demandAttach = true →
      s'.Agrees ∧ Stored s s' ∧ (s.inUse = true → error = none →
        (∀ r, (s'.index h.class_).file[h.bitNumber]? = some r → r.type ≠ vNull → r = disk) ∨
          (demandAttach = true ∧ s.salvage = true ∧ (failure = .openFails ∨ failure = .seekFails) ∧ s'.index = s.index)) := by
    intro failure failed asked demand
    rw [Option.some_inj] at asked
    have after : s' = s.requestSalvage.2 := by rw [asked]
    have reported : error = s.requestSalvage.1 := by rw [asked]
    rw [after]
    refine ⟨agrees.requestSalvage, .requestSalvage s, fun _ silent => .inr ⟨demand, ?_, failed, rfl⟩⟩
    rw [silent] at reported
    unfold VnodeVolume.requestSalvage at reported
    split at reported
    · next before => exact before
    · cases reported
  unfold VnodeVolume.writeOut at called
  split at called
  · unfold VnodeVolume.vnStore at called
    cases io with
    | openFails =>
      simp only at called
      split at called
      · next demand => exact unwritten _ (.inl rfl) called demand
      · cases called
    | seekFails =>
      simp only at called
      split at called
      · next demand => exact unwritten _ (.inr rfl) called demand
      · cases called
    | badIget =>
      cases called
      exact ⟨agrees, .refl s, fun _ bad => by cases bad⟩
    | short left =>
      simp only at called
      split at called
      · cases called
      cases called
      cases left with
      | some disk =>
        rcases (agrees.write set : (s.setIndex _ (VnodeIndex.write _ disk _)).Agrees ∧ _) with ⟨agrees', stored⟩
        exact ⟨agrees'.forceOffline, stored.forceOffline, fun _ bad => by cases bad⟩
      | none => exact ⟨agrees.forceOffline, (Stored.refl s).forceOffline, fun _ bad => by cases bad⟩
    | ok =>
      cases called
      rcases (agrees.write set : (s.setIndex _ (VnodeIndex.write _ disk _)).Agrees ∧ _) with ⟨agrees', stored⟩
      refine ⟨agrees', stored, fun _ _ => .inl ?_⟩
      intro r found inUse
      rw [setIndex_same] at found
      rcases VnodeIndex.write_found found inUse with ⟨-, same⟩ | ⟨other, -⟩
      · exact same
      · exact absurd rfl other
  · next offline =>
    split at called
    · cases called
      exact ⟨agrees.requestSalvage, .requestSalvage s, fun online => absurd online offline⟩
    split at called
    · cases called
      exact ⟨agrees, .refl s, fun online => absurd online offline⟩
    · cases called

theorem Agrees.release (agrees : s.Agrees) (h : Handle) : ({ s with held := s.held.erase h } : VnodeVolume).Agrees := by
  constructor
  · exact agrees.index
  · intro g here
    exact agrees.held g (mem_of_mem_erase here)
  · exact agrees.alone.sublist erase_sublist
  · exact agrees.live

theorem Apart.symm {g : Handle} (apart : Apart h g) : Apart g h := by
  intro sameClass sameBit
  exact (apart sameClass.symm sameBit.symm).symm

theorem Agrees.apart (agrees : s.Agrees) (here : h ∈ s.held) : ∀ g ∈ s.held.erase h, Apart h g := by
  have permuted := perm_cons_erase here
  exact (List.pairwise_cons.mp (agrees.alone.perm permuted fun apart => apart.symm)).1

theorem Agrees.writer_alone (agrees : s.Agrees) (here : h ∈ s.held) (writes : h.lock = .write) :
    ¬ ({ s with held := s.held.erase h } : VnodeVolume).Holds h.class_ h.bitNumber := by
  rintro ⟨g, other, sameClass, sameBit⟩
  have reads := (agrees.apart here g other sameClass.symm sameBit.symm).1
  rw [writes] at reads
  cases reads

theorem Agrees.setCached (agrees : s.Agrees) (set : (s.index h.class_).bit h.bitNumber = true) (vnp : Vnode)
    (free : ¬ s.Holds h.class_ h.bitNumber ∨ vnp.disk.type ≠ vNull) : (s.setCached h vnp).Agrees := by
  apply agrees.cached
  · intro _ _ _ _
    exact set
  · rcases free with free | inUse
    · exact .inl free
    · exact .inr ⟨vnp, rfl, inUse⟩

theorem setCached_index (s : VnodeVolume) (h : Handle) (vnp : Vnode) :
    ((s.setCached h vnp).index h.class_).file = (s.index h.class_).file ∧
      ∀ d, ((s.setCached h vnp).index d).bitmap = (s.index d).bitmap := by
  unfold VnodeVolume.setCached
  constructor
  · rw [setIndex_same]
    rfl
  intro d
  by_cases same : d = h.class_
  · rw [same, setIndex_same]
    rfl
  · rw [setIndex_other _ _ same]

theorem Agrees.putVnode (agrees : s.Agrees) (called : s.putVnode demandAttach h io = some (error, s')) :
    (s.Met demandAttach (.putVnode h io) → s'.Agrees) ∧ ∀ e, error = some e → ∀ c n, (s'.index c).bit n = (s.index c).bit n := by
  unfold VnodeVolume.putVnode at called
  split at called
  · cases called
  next vnp cached =>
  split at called
  · cases called
  next here =>
  have here : h ∈ s.held := not_not.mp here
  have released := agrees.release h
  simp only at called
  split at called
  · next changed =>
    have free := agrees.writer_alone here changed.1
    have set := agrees.held_bit here
    split at called
    · cases called
    next error' t written =>
    rcases released.writeOut (h := h) set written with ⟨agrees', stored, reported⟩
    have set' : (t.index h.class_).bit h.bitNumber = true := by
      rw [stored.bit]
      exact set
    have free' : ¬ t.Holds h.class_ h.bitNumber := by
      unfold Holds
      rw [stored.held]
      exact free
    generalize disk' : (if vnp.delete = true then DiskVnode.zero else vnp.disk) = disk at called reported
    have back := agrees'.setCached set' ⟨disk, false, false, false⟩ (.inl free')
    rcases setCached_index t h ⟨disk, false, false, false⟩ with ⟨file, bitmap⟩
    have bits : ∀ c n, ((t.setCached h ⟨disk, false, false, false⟩).index c).bit n = (s.index c).bit n := by
      intro c n
      unfold VnodeIndex.bit
      rw [bitmap c, stored.bitmap c]
    split at called
    · next freed =>
      rcases freed with ⟨online, deleted, silent⟩
      rw [if_pos deleted] at disk'
      split at called
      · next ix result =>
        cases called
        refine ⟨fun met => ?_, fun _ bad => by cases bad⟩
        have index := back.index (stored.attached.trans (agrees.held h here).1) h.class_
        have clear : ((t.setCached h ⟨disk, false, false, false⟩).index h.class_).cache h.bitNumber =
            some ⟨disk, false, false, false⟩ := by
          unfold VnodeVolume.setCached
          rw [setIndex_same, VnodeIndex.cached_same]
        have new := index.freeBitmapEntry (n := h.bitNumber) (by
            intro r found
            rw [file] at found
            by_contra inUse
            rcases reported online silent with recorded | ⟨demand, before, failed, same⟩
            · have zero := recorded r found inUse
              rw [zero, ← disk'] at inUse
              exact inUse rfl
            · rw [same] at found
              have marked : s.deleted h = true := by
                unfold VnodeVolume.deleted
                rw [cached]
                exact deleted
              have null := met ⟨demand, before, marked, failed⟩
              rw [getD_eq_getElem?_getD, found] at null
              exact inUse null) (by
            intro v found
            rw [clear, Option.some_inj] at found
            rw [← found, ← disk']
            rfl)
        rw [result] at new
        apply back.setIndex
        · intro _
          exact new
        apply back.keeps
        have cache := (VnodeIndex.freeBitmapEntry_spec h.bitNumber
          ((t.setCached h ⟨disk, false, false, false⟩).index h.class_)).2.2.2
        rw [result] at cache
        exact cache
      · cases called
        exact ⟨fun _ => back, fun _ _ => bits⟩
    · cases called
      exact ⟨fun _ => back, fun _ _ => bits⟩
  split at called
  · cases called
  · cases called
    exact ⟨fun _ => released, fun _ _ _ _ => rfl⟩

theorem Agrees.vnodeWriteToRead (agrees : s.Agrees)
    (called : s.vnodeWriteToRead demandAttach h io = some (error, s')) : s'.Agrees := by
  have reading : ∀ t : VnodeVolume, t.Agrees → h ∈ t.held →
      ({ t with held := { h with lock := .read } :: t.held.erase h } : VnodeVolume).Agrees := by
    intro t agrees here
    apply (agrees.release h).hold (h := { h with lock := .read })
    · exact (agrees.held h here).1
    · exact (agrees.held h here).2
    · intro g other sameClass sameBit
      exact ⟨rfl, (agrees.apart here g other sameClass sameBit).2⟩
  unfold VnodeVolume.vnodeWriteToRead at called
  split at called
  · cases called
  next vnp cached =>
  split at called
  · cases called
  next mine =>
  have here : h ∈ s.held := by
    by_contra absent
    exact mine (.inl absent)
  split at called
  · cases called
    exact agrees
  split at called
  · split at called
    · cases called
    next error' t written =>
    cases called
    have set := agrees.held_bit here
    rcases agrees.writeOut (h := h) set written with ⟨agrees', stored, -⟩
    have inUse : vnp.disk.type ≠ vNull := by
      rcases (agrees.held h here).2 with ⟨v, found, inUse⟩
      rw [cached, Option.some_inj] at found
      rw [found]
      exact inUse
    apply reading
    · exact agrees'.setCached (by rw [stored.bit]; exact set) _ (.inr inUse)
    · show h ∈ t.held
      rw [stored.held]
      exact here
  · cases called
    exact reading s agrees here

end Putting

variable {demandAttach : Bool} {a : VnodeAction}

theorem Agrees.attach (agrees : s.Agrees) {nextVnodeUnique : Nat} {readable : VnodeClass → Nat}
    (unattached : s.attached = false) (met : s.Met demandAttach (.attach nextVnodeUnique readable)) :
    (s.attach demandAttach nextVnodeUnique readable).Agrees := by
  have nobody : ∀ h, h ∉ s.held := by
    intro h here
    have attached := (agrees.held h here).1
    rw [unattached] at attached
    cases attached
  have offline : ∀ t : VnodeVolume, t.attached = s.attached → t.inUse = s.inUse → t.held = s.held → t.Agrees := by
    intro t attached inUse held
    constructor
    · intro attached'
      rw [attached, unattached] at attached'
      cases attached'
    · intro h here
      rw [held] at here
      exact absurd here (nobody h)
    · rw [held]
      exact agrees.alone
    · rw [attached, inUse]
      exact agrees.live
  unfold VnodeVolume.attach
  simp only
  split
  · next both =>
    rw [Bool.and_eq_true] at both
    constructor
    · intro _ c
      have ok : (VnodeIndex.getBitmap c.info.magic nextVnodeUnique (readable c)
          { s.index c with cache := fun _ => none }).1 = true := by
        cases c with
        | small => exact both.1
        | large => exact both.2
      apply VnodeIndex.getBitmap_agrees ok
      · intro n r found outside
        apply met c
        · cases c with
          | small => exact mem_cons_self
          | large => exact mem_cons_of_mem _ mem_cons_self
        · apply mem_of_getElem? (i := n - readable c)
          rw [getElem?_drop, Nat.add_sub_cancel' outside]
          exact found
      · intro n
        rfl
    · intro h here
      exact absurd here (nobody h)
    · exact agrees.alone
    · exact fun _ => rfl
  · split
    · exact offline _ rfl rfl rfl
    · exact offline _ rfl rfl rfl

theorem Agrees.step (agrees : s.Agrees) (met : s.Met demandAttach a) (taken : s.step demandAttach a = some s') : s'.Agrees := by
  cases a with
  | attach nextVnodeUnique readable =>
    rcases Option.ite_none_left_eq_some.mp taken with ⟨idle, same⟩
    cases same
    rw [not_or, Bool.not_eq_true] at idle
    exact agrees.attach idle.1 met
  | detach =>
    rcases Option.ite_none_right_eq_some.mp taken with ⟨nobody, same⟩
    cases same
    constructor
    · intro attached
      cases attached
    · intro h here
      rw [show s.detach.held = s.held from rfl, nobody] at here
      cases here
    · exact agrees.alone
    · intro inUse
      cases inUse
  | allocVnode type unique header io =>
    rcases Option.ite_none_left_eq_some.mp taken with ⟨inUse, called⟩
    rcases Option.map_eq_some_iff.mp called with ⟨⟨result, t⟩, done, rfl⟩
    exact (agrees.allocVnode done).1 inUse
  | getVnode c n lock header io =>
    rcases Option.map_eq_some_iff.mp taken with ⟨⟨result, t⟩, called, rfl⟩
    exact agrees.getVnode called
  | modify h vnp =>
    rcases Option.ite_none_right_eq_some.mp taken with ⟨⟨here, _, inUse, _⟩, same⟩
    cases same
    exact agrees.setCached (agrees.held_bit here) vnp (.inr inUse)
  | putVnode h io =>
    rcases Option.map_eq_some_iff.mp taken with ⟨⟨result, t⟩, called, rfl⟩
    exact (agrees.putVnode called).1 met
  | vnodeWriteToRead h io =>
    rcases Option.map_eq_some_iff.mp taken with ⟨⟨result, t⟩, called, rfl⟩
    exact agrees.vnodeWriteToRead called
  | evict c n =>
    rcases Option.ite_none_left_eq_some.mp taken with ⟨free, same⟩
    cases same
    apply agrees.cached
    · intro _ absent
      cases absent
    left
    rintro ⟨h, here, sameClass, sameBit⟩
    apply free
    rw [any_eq_true]
    exact ⟨h, here, decide_eq_true ⟨sameClass, sameBit⟩⟩
  | forceOffline =>
    cases taken
    exact agrees.forceOffline

theorem Start.agrees (start : s.Start) : s.Agrees := by
  constructor
  · intro attached
    rw [start.attached] at attached
    cases attached
  · intro h here
    rw [start.held] at here
    cases here
  · rw [start.held]
    exact List.Pairwise.nil
  · intro inUse
    rw [start.inUse] at inUse
    cases inUse

theorem Agrees.sound (agrees : s.Agrees) : s.BitsSound demandAttach := by
  constructor
  · intro attached c n r found inUse
    exact (agrees.index attached c).disk n r found inUse
  · intro attached c r found
    by_contra inUse
    have set := (agrees.index attached c).disk _ r found inUse
    rw [(VnodeIndex.allocBitmapEntry_spec (s.index c)).1] at set
    cases set
  · intro type unique header io result t called
    exact (agrees.allocVnode called).2.1
  · intro type unique header io n t called
    exact (agrees.allocVnode called).2.2.1 n rfl
  · intro type unique header io error t called
    exact (agrees.allocVnode called).2.2.2 error rfl
  · intro h io error t called
    exact (agrees.putVnode called).2 error rfl

end VnodeVolume

def oneVnode : VnodeVolume where
  index
    | .small => ⟨[⟨1, vSmall.magic, 1, 0⟩], [], 0, fun _ => none⟩
    | .large => ⟨[], [], 0, fun _ => none⟩
  attached := false
  inUse := false
  salvage := false
  held := []

def writer : Handle := ⟨.small, 0, .write⟩

def deleteAndAllocate : List VnodeAction :=
  [.attach 2 fun _ => 1, .getVnode .small 0 .write true .ok, .modify writer ⟨⟨1, vSmall.magic, 1, 0⟩, false, false, true⟩,
    .putVnode writer .badIget, .evict .small 0, .getVnode .small 0 .write true .ok,
    .modify writer ⟨⟨1, vSmall.magic, 1, 0⟩, false, false, true⟩, .putVnode writer .ok, .evict .small 0,
    .allocVnode 1 2 true (.ok 0), .modify writer ⟨⟨1, vSmall.magic, 2, 0⟩, true, false, false⟩,
    .vnodeWriteToRead writer .ok]

def allocatedAgain : VnodeVolume :=
  ((vnodeServer true).runWhere (VnodeVolume.Met true) oneVnode deleteAndAllocate).get (by decide +kernel)

def unread (demandAttach : Bool) : VnodeVolume :=
  ((vnodeServer demandAttach).run oneVnode [.attach 2 fun _ => 0]).get (by cases demandAttach <;> decide +kernel)

end OpenAFS.Vol
