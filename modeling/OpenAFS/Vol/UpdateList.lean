import Mathlib.Logic.Function.Basic
import OpenAFS.Lib.Machine

namespace OpenAFS.Vol.UpdateList

open Function (update update_self update_of_ne)
open Lib

def salvageInterval : UInt32 := 10 * 60
def updateListSize : Nat := 128
def maxUpdateSize : Nat := 524288

/-- Where `VScanUpdateList` is: not running, at the head of its loop, or in `VGetVolume_r` for a volume. -/
inductive Phase
  | idle
  | head
  | getting (id : Nat)

structure UpdateState where
  /-- The entries allocated, of which there are none while the pointer is `NULL`. -/
  updateList : List Nat
  (nUpdatedVolumes updateSize : Nat)
  /-- An entry was stored behind the array. -/
  overrun : Bool
  phase : Phase
  (i gap : Nat)
  now : UInt32
  dontSalvage : Nat → Bool
  updateTime : Nat → UInt32
  /-- The entries since the last scan began, in order, and which of them it has dropped. -/
  record : List (Nat × Bool)
  /-- The volumes whose headers were made to ask for a salvage, until a scan ends it. -/
  needing : Nat → Bool

namespace UpdateState

def store (s : UpdateState) (k id : Nat) : UpdateState :=
  { s with updateList := s.updateList.set k id, overrun := s.overrun || s.updateList.length ≤ k }

def append (s : UpdateState) (id : Nat) : UpdateState :=
  { s.store s.nUpdatedVolumes id with nUpdatedVolumes := s.nUpdatedVolumes + 1, record := s.record ++ [(id, false)] }

/-- `malloc`, or `realloc` that keeps what is there. -/
def grow (s : UpdateState) : UpdateState :=
  { s with updateList := s.updateList ++ List.replicate (s.updateSize - s.updateList.length) 0 }

/-- The end of `VAddToVolumeUpdateList_r`. -/
def put (s : UpdateState) (id : Nat) : UpdateState :=
  if s.updateList = [] then ({ s with updateSize := updateListSize }).grow.append id
  else if s.nUpdatedVolumes = s.updateSize then
    let s := { s with updateSize := 2 * s.updateSize }
    if maxUpdateSize < s.updateSize then s else s.grow.append id
  else s.append id

/-- `VAddToVolumeUpdateList_r`; `error` is that of `VSyncVolume_r`. -/
def add (s : UpdateState) (id : Nat) (time : UInt32) (error : Bool) : UpdateState :=
  let s := { s with updateTime := update s.updateTime id time }
  if s.dontSalvage id then
    let s := { s with dontSalvage := update s.dontSalvage id false }
    if error then s else { s.put id with needing := update s.needing id true }
  else s

/-- The entries in the array. -/
def live (s : UpdateState) : List Nat := s.updateList.take s.nUpdatedVolumes

/-- The entries that are on the list: in a scan, those before the gap and those not reached. -/
def entries (s : UpdateState) : List Nat :=
  match s.phase with
  | .idle => s.live
  | _ => s.live.take (s.i - s.gap) ++ s.live.drop s.i

def loopHead (s : UpdateState) : UpdateState :=
  if s.i < s.nUpdatedVolumes then
    let id := s.updateList.getD s.i 0
    -- The source stores it twice where there is a gap.
    { s.store (s.i - s.gap) id with phase := .getting id }
  else { s with nUpdatedVolumes := s.nUpdatedVolumes - s.gap, phase := .idle }

def dropEntry (s : UpdateState) (id : Nat) : UpdateState :=
  { s with gap := s.gap + 1, i := s.i + 1, phase := .head, needing := update s.needing id false,
           record := s.record.set s.i (id, true) }

/-- `VGetVolume_r` has returned an error, or the volume with its users. -/
def got (s : UpdateState) (id : Nat) (error : Bool) (nUsers : Nat) : UpdateState :=
  if error then s.dropEntry id
  else if nUsers = 1 ∧ salvageInterval < s.now - s.updateTime id then
    ({ s with dontSalvage := update s.dontSalvage id true }).dropEntry id
  else { s with i := s.i + 1, phase := .head }

end UpdateState

def kept (record : List (Nat × Bool)) : List Nat := (record.filter (!·.2)).map (·.1)

inductive Act
  | add (id : Nat) (time : UInt32) (error : Bool)
  /-- The flag becomes what the header of a volume says, or what a volume that goes offline writes. -/
  | header (id : Nat) (dontSalvage : Bool)
  | begin (now : UInt32)
  | head
  | got (error : Bool) (nUsers : Nat)

def updates : Machine UpdateState Act where
  start s := s.updateList = [] ∧ s.nUpdatedVolumes = 0 ∧ s.updateSize = 0 ∧ s.overrun = false ∧ s.phase = .idle ∧
    s.record = [] ∧ ∀ id, s.needing id = false
  step s
    | .add id time error => some (s.add id time error)
    | .header id flag => some { s with dontSalvage := update s.dontSalvage id flag }
    | .begin now => match s.phase with
      | .idle => some { s with phase := .head, i := 0, gap := 0, now, record := (kept s.record).map (·, false) }
      | _ => none
    | .head => match s.phase with
      | .head => some s.loopHead
      | _ => none
    | .got error nUsers => match s.phase with
      | .getting id => some (s.got id error nUsers)
      | _ => none

/-- No volume is put on the list when it has as many entries as it may get. -/
def Fits (s : UpdateState) : Act → Prop
  | .add id _ error => s.dontSalvage id → error = false → s.nUpdatedVolumes < maxUpdateSize
  | _ => True

/-- The scan has passed some entries and moved those it keeps to the front; the others lie ahead. -/
structure Scanning (live : List Nat) (i gap : Nat) (record passed : List (Nat × Bool)) : Prop where
  written : record = passed ++ (live.drop i).map (·, false)
  count : i = passed.length
  le : gap ≤ i
  inside : i ≤ live.length
  start : live.take (i - gap) = kept passed

structure Listed (live : List Nat) (phase : Phase) (i gap : Nat) (record : List (Nat × Bool)) (needing : Nat → Bool) : Prop where
  idle : phase = .idle → live = kept record
  scan : phase ≠ .idle → ∃ passed, Scanning live i gap record passed
  got : ∀ id, phase = .getting id → live[i]? = some id ∧ live[i - gap]? = some id
  needed : ∀ id, needing id → id ∈ kept record

structure Room (updateList : List Nat) (nUpdatedVolumes updateSize : Nat) (overrun : Bool) : Prop where
  inside : overrun = false
  length : updateList.length = updateSize
  fits : nUpdatedVolumes ≤ updateSize
  size : updateSize = 0 ∨ ∃ k ≤ 12, updateSize = updateListSize * 2 ^ k

structure Sound (s : UpdateState) : Prop where
  listed : Listed s.live s.phase s.i s.gap s.record s.needing
  room : Room s.updateList s.nUpdatedVolumes s.updateSize s.overrun

theorem kept_append (l l' : List (Nat × Bool)) : kept (l ++ l') = kept l ++ kept l' := by
  simp [kept]

theorem kept_fresh (l : List Nat) : kept (l.map (·, false)) = l := by
  simp [kept, List.filter_map, Function.comp_def]

theorem drop_set_same {l : List Nat} {k i id : Nat} (le : k ≤ i) (here : l[i]? = some id) : (l.set k id).drop i = l.drop i := by
  obtain rfl | lt := Nat.eq_or_lt_of_le le
  · obtain ⟨inside, rfl⟩ := List.getElem?_eq_some_iff.mp here
    rw [List.set_getElem_self]
  · exact List.drop_set_of_lt lt

namespace Listed

variable {live : List Nat} {phase : Phase} {i gap id : Nat} {record : List (Nat × Bool)} {needing : Nat → Bool}
  (listed : Listed live phase i gap record needing)
include listed

theorem append (id : Nat) : Listed (live ++ [id]) phase i gap (record ++ [(id, false)]) (update needing id true) := by
  refine ⟨fun idle => ?_, fun running => ?_, fun id' getting => ?_, fun id' need => ?_⟩
  · rw [listed.idle idle, kept_append]
    rfl
  · obtain ⟨passed, record, here, gap, inside, start⟩ := listed.scan running
    refine ⟨passed, ?_, here, gap, ?_, ?_⟩
    · rw [List.drop_append_of_le_length inside, record]
      simp
    · rw [List.length_append]
      exact Nat.le_add_right_of_le inside
    · rw [List.take_append_of_le_length (by omega), start]
  · obtain ⟨here, there⟩ := listed.got id' getting
    exact ⟨List.getElem?_append_left (List.getElem?_eq_some_iff.mp here).1 ▸ here,
      List.getElem?_append_left (List.getElem?_eq_some_iff.mp there).1 ▸ there⟩
  · by_cases same : id' = id
    · simp [kept, same]
    · rw [update_of_ne same] at need
      rw [kept_append]
      exact List.mem_append_left _ (listed.needed id' need)

theorem begin (idle : phase = .idle) : Listed live .head 0 0 ((kept record).map (·, false)) needing := by
  refine ⟨nofun, fun _ => ⟨[], ?_, rfl, Nat.le_refl 0, Nat.zero_le _, rfl⟩, nofun, ?_⟩
  · rw [listed.idle idle]
    rfl
  · rw [kept_fresh]
    exact listed.needed

theorem fetch (head : phase = .head) (here : live[i]? = some id) : Listed (live.set (i - gap) id) (.getting id) i gap record needing := by
  obtain ⟨passed, written, count, le, inside, start⟩ := listed.scan (by rw [head]; nofun)
  have same := drop_set_same (Nat.sub_le i gap) here
  have more := (List.getElem?_eq_some_iff.mp here).1
  refine ⟨nofun, fun _ => ⟨passed, by rw [same]; exact written, count, le, ?_, ?_⟩, fun id' getting => ?_, listed.needed⟩
  · rw [List.length_set]
    exact inside
  · rw [List.take_set_of_le (Nat.le_refl _), start]
  · cases getting
    have first := congrArg List.head? same
    rw [List.head?_drop, List.head?_drop, here] at first
    exact ⟨first, List.getElem?_set_self (by omega)⟩

theorem finish (head : phase = .head) (ended : live.length ≤ i) : Listed (live.take (live.length - gap)) .idle i gap record needing := by
  obtain ⟨passed, written, count, le, inside, start⟩ := listed.scan (by rw [head]; nofun)
  refine ⟨fun _ => ?_, fun running => absurd rfl running, nofun, listed.needed⟩
  rw [written, List.drop_eq_nil_of_le ended, List.map_nil, List.append_nil, ← start, Nat.le_antisymm inside ended]

theorem ahead (getting : phase = .getting id) :
    ∃ passed, Scanning live i gap record passed ∧ i < live.length ∧ record = passed ++ (id, false) :: (live.drop (i + 1)).map (·, false) := by
  obtain ⟨passed, scan⟩ := listed.scan (by rw [getting]; nofun)
  obtain ⟨inside, here⟩ := List.getElem?_eq_some_iff.mp (listed.got id getting).1
  refine ⟨passed, scan, inside, ?_⟩
  rw [scan.written, List.drop_eq_getElem_cons inside, here, List.map_cons]

theorem dropEntry (getting : phase = .getting id) :
    Listed live .head (i + 1) (gap + 1) (record.set i (id, true)) (update needing id false) := by
  obtain ⟨passed, scan, inside, before⟩ := listed.ahead getting
  have after : record.set i (id, true) = (passed ++ [(id, true)]) ++ (live.drop (i + 1)).map (·, false) := by
    rw [before, scan.count, List.set_append_right _ _ (Nat.le_refl _), Nat.sub_self, List.append_assoc]
    rfl
  refine ⟨nofun, fun _ => ⟨passed ++ [(id, true)], after, ?_, Nat.succ_le_succ scan.le, inside, ?_⟩, nofun, fun id' need => ?_⟩
  · rw [List.length_append, ← scan.count]
    rfl
  · rw [Nat.add_sub_add_right, scan.start, kept_append]
    exact (List.append_nil _).symm
  · have other : id' ≠ id := by
      rintro rfl
      simp at need
    rw [update_of_ne other] at need
    have was := listed.needed id' need
    rw [before, kept_append] at was
    rw [after, kept_append, kept_append]
    simpa [kept, other] using was

theorem keepEntry (getting : phase = .getting id) : Listed live .head (i + 1) gap record needing := by
  obtain ⟨passed, scan, inside, before⟩ := listed.ahead getting
  refine ⟨nofun, fun _ => ⟨passed ++ [(id, false)], ?_, ?_, Nat.le_succ_of_le scan.le, inside, ?_⟩, nofun, listed.needed⟩
  · rw [before, List.append_assoc]
    rfl
  · rw [List.length_append, ← scan.count]
    rfl
  · rw [Nat.succ_sub scan.le, List.take_add_one, (listed.got id getting).2, scan.start, kept_append]
    rfl

end Listed

variable {s : UpdateState}

theorem Room.length_live (room : Room s.updateList s.nUpdatedVolumes s.updateSize s.overrun) : s.live.length = s.nUpdatedVolumes := by
  have := room.length
  have := room.fits
  rw [UpdateState.live, List.length_take]
  omega

namespace Sound

variable (sound : Sound s)
include sound

theorem entries : s.entries = kept s.record := by
  unfold UpdateState.entries
  split
  · next idle => exact sound.listed.idle idle
  · next running =>
    obtain ⟨passed, scan⟩ := sound.listed.scan running
    rw [scan.written, scan.start, kept_append, kept_fresh]

theorem append (more : s.nUpdatedVolumes < s.updateSize) (id : Nat) :
    Sound { s.append id with needing := update s.needing id true } := by
  obtain ⟨inside, length, -, size⟩ := sound.room
  have room : s.nUpdatedVolumes < s.updateList.length := by omega
  have live : (s.append id).live = s.live ++ [id] := by
    change (s.updateList.set s.nUpdatedVolumes id).take (s.nUpdatedVolumes + 1) = _
    rw [List.take_add_one, List.take_set_of_le (Nat.le_refl _), List.getElem?_set_self room]
    rfl
  refine ⟨?_, ?_, ?_, more, size⟩
  · exact live ▸ sound.listed.append id
  · simp [UpdateState.append, UpdateState.store, inside, room]
  · simp [UpdateState.append, UpdateState.store, length]

theorem grow {size : Nat} (larger : s.updateSize ≤ size) (power : ∃ k ≤ 12, size = updateListSize * 2 ^ k) :
    Sound ({ s with updateSize := size }).grow := by
  obtain ⟨inside, length, fits, -⟩ := sound.room
  have live : ({ s with updateSize := size }).grow.live = s.live :=
    List.take_append_of_le_length (show s.nUpdatedVolumes ≤ s.updateList.length by omega)
  refine ⟨live ▸ sound.listed, inside, ?_, Nat.le_trans fits larger, .inr power⟩
  simp only [UpdateState.grow, List.length_append, List.length_replicate]
  omega

theorem put (few : s.nUpdatedVolumes < maxUpdateSize) (id : Nat) : Sound { s.put id with needing := update s.needing id true } ∧
    (s.put id).dontSalvage = s.dontSalvage ∧ (s.put id).nUpdatedVolumes = s.nUpdatedVolumes + 1 := by
  obtain ⟨-, length, fits, size⟩ := sound.room
  unfold UpdateState.put
  split
  · next null =>
    rw [null, List.length_nil] at length
    have grown := @grow s sound updateListSize (by omega) ⟨0, by decide, rfl⟩
    exact ⟨grown.append (by change s.nUpdatedVolumes < 128; omega) id, rfl, rfl⟩
  next some =>
  split
  · next last =>
    obtain none | ⟨k, small, power⟩ := size
    · exact absurd (List.length_eq_zero_iff.mp (length.trans none)) some
    have more : k < 12 := by
      refine Nat.lt_of_le_of_ne small ?_
      rintro rfl
      exact Nat.ne_of_lt few (last.trans power)
    have double : 2 * s.updateSize = updateListSize * 2 ^ (k + 1) := by
      rw [power, Nat.pow_succ]
      exact (Nat.mul_comm ..).trans (Nat.mul_assoc ..)
    have limit : 2 * s.updateSize ≤ maxUpdateSize := by
      rw [double]
      exact Nat.mul_le_mul_left updateListSize (Nat.pow_le_pow_right (n := 2) (by decide) (show k + 1 ≤ 12 by omega))
    have positive : 0 < s.updateSize := length ▸ List.length_pos_iff.mpr some
    dsimp only
    rw [if_neg (Nat.not_lt.mpr limit)]
    have grown := @grow s sound (2 * s.updateSize) (by omega) ⟨k + 1, more, double⟩
    exact ⟨grown.append (by change s.nUpdatedVolumes < 2 * s.updateSize; omega) id, rfl, rfl⟩
  · next space => exact ⟨sound.append (by omega) id, rfl, rfl⟩

theorem loopHead (head : s.phase = .head) : Sound s.loopHead := by
  obtain ⟨whole, length, fits, size⟩ := sound.room
  obtain ⟨passed, -, -, gap, -, -⟩ := sound.listed.scan (by rw [head]; nofun)
  have count := sound.room.length_live
  unfold UpdateState.loopHead
  split
  · next more =>
    dsimp only
    generalize read : s.updateList.getD s.i 0 = id
    have here : s.live[s.i]? = some id := by
      rw [UpdateState.live, List.getElem?_take_of_lt more, ← read, List.getD_eq_getElem?_getD,
        List.getElem?_eq_getElem (by omega), Option.getD_some]
    have live : (s.store (s.i - s.gap) id).live = s.live.set (s.i - s.gap) id := by
      simp [UpdateState.live, UpdateState.store, List.take_set]
    refine ⟨live ▸ sound.listed.fetch head here, ?_, ?_, fits, size⟩
    · simp [UpdateState.store, whole, show s.i - s.gap < s.updateList.length by omega]
    · simp [UpdateState.store, length]
  · next none =>
    have live : s.updateList.take (s.nUpdatedVolumes - s.gap) = s.live.take (s.live.length - s.gap) := by
      rw [count, UpdateState.live, List.take_take, Nat.min_eq_left (Nat.sub_le ..)]
    refine ⟨?_, whole, length, Nat.le_trans (Nat.sub_le ..) fits, size⟩
    change Listed (s.updateList.take (s.nUpdatedVolumes - s.gap)) .idle _ _ _ _
    rw [live]
    exact sound.listed.finish head (by omega)

theorem step {a : Act} {s' : UpdateState} (fits : Fits s a) (taken : updates.step s a = some s') : Sound s' := by
  obtain ⟨listed, room⟩ := sound
  cases a with
  | add id time error =>
    cases taken
    unfold UpdateState.add
    dsimp only
    split
    · next set =>
      split
      · exact ⟨listed, room⟩
      · next synced =>
        have quiet : Sound { s with updateTime := update s.updateTime id time, dontSalvage := update s.dontSalvage id false } := ⟨listed, room⟩
        exact (quiet.put (fits set (by simpa using synced)) id).1
    · exact ⟨listed, room⟩
  | header id flag =>
    cases taken
    exact ⟨listed, room⟩
  | begin now =>
    simp only [updates] at taken
    split at taken <;> cases taken
    next idle => exact ⟨listed.begin idle, room⟩
  | head =>
    simp only [updates] at taken
    split at taken <;> cases taken
    next head => exact Sound.loopHead ⟨listed, room⟩ head
  | got error nUsers =>
    simp only [updates] at taken
    split at taken <;> cases taken
    next id getting =>
    unfold UpdateState.got
    split
    · exact ⟨listed.dropEntry getting, room⟩
    split
    · exact ⟨listed.dropEntry getting, room⟩
    · exact ⟨listed.keepEntry getting, room⟩

end Sound

theorem sound_of_reached (reached : updates.ReachWhere Fits s) : Sound s := by
  apply reached.invariant ?_ fun s a s' sound fits taken => sound.step fits taken
  rintro s ⟨list, none, size, inside, idle, record, needing⟩
  refine ⟨⟨fun _ => ?_, fun running => absurd idle running, fun id getting => ?_, fun id need => ?_⟩, inside, ?_, ?_, .inl size⟩
  · simp [UpdateState.live, list, record, kept]
  · rw [idle] at getting
    nomatch getting
  · rw [needing] at need
    nomatch need
  · rw [list, size]
    rfl
  · omega

/-- The entries on the list are, in order, those of the record that no scan has dropped, the array holds them, and every
volume whose header asks for a salvage is among them. -/
theorem updates_listed (reached : updates.ReachWhere Fits s) :
    s.entries = kept s.record ∧ (∀ id, s.needing id → id ∈ s.entries) ∧ s.overrun = false ∧
      s.nUpdatedVolumes ≤ s.updateList.length := by
  have sound := sound_of_reached reached
  refine ⟨sound.entries, ?_, sound.room.inside, sound.room.length ▸ sound.room.fits⟩
  rw [sound.entries]
  exact sound.listed.needed

/-- Nothing is on the list, and one volume after the other needs a salvage. -/
def untouched : UpdateState := ⟨[], 0, 0, false, .idle, 0, 0, 0, fun _ => true, fun _ => 0, [], fun _ => false⟩

theorem updates_listed_one : (untouched.add 7 0 false).entries = [7] :=
  (updates_listed (.step (a := .add 7 0 false) (.start ⟨rfl, rfl, rfl, rfl, rfl, rfl, fun _ => rfl⟩) (fun _ _ => by decide) rfl)).1

theorem updates_filled (n : Nat) (limit : n ≤ maxUpdateSize) :
    ∃ s, updates.ReachWhere Fits s ∧ s.nUpdatedVolumes = n ∧ ∀ id, n ≤ id → s.dontSalvage id = true := by
  induction n with
  | zero => exact ⟨untouched, .start ⟨rfl, rfl, rfl, rfl, rfl, rfl, fun _ => rfl⟩, rfl, fun _ _ => rfl⟩
  | succ n ih =>
    obtain ⟨s, reached, rfl, flags⟩ := ih (Nat.le_of_lt limit)
    refine ⟨_, .step (a := .add s.nUpdatedVolumes 0 false) reached (fun _ _ => limit) rfl, ?_⟩
    have sound := sound_of_reached reached
    have quiet : Sound { s with updateTime := update s.updateTime s.nUpdatedVolumes 0, dontSalvage := update s.dontSalvage s.nUpdatedVolumes false } :=
      ⟨sound.listed, sound.room⟩
    obtain ⟨-, kept, next⟩ := quiet.put limit s.nUpdatedVolumes
    unfold UpdateState.add
    dsimp only
    rw [if_pos (flags _ (Nat.le_refl _)), if_neg Bool.false_ne_true]
    refine ⟨next, fun id later => ?_⟩
    dsimp only
    rw [kept]
    dsimp only
    rw [update_of_ne (by omega)]
    exact flags id (by omega)

/-- With all its entries in use the list loses the next volume, and the one after it is stored behind the array. -/
theorem full_list_overruns : ∃ s, updates.Reach s ∧ s.overrun = true := by
  obtain ⟨s, reached, count, flags⟩ := updates_filled maxUpdateSize (Nat.le_refl _)
  obtain ⟨-, length, least, size⟩ := (sound_of_reached reached).room
  have full : s.updateSize = maxUpdateSize := by
    obtain none | ⟨k, small, power⟩ := size
    · omega
    have most := Nat.mul_le_mul_left updateListSize (Nat.pow_le_pow_right (n := 2) (by decide) small)
    exact Nat.le_antisymm (power ▸ most) (by omega)
  rw [full] at length
  have some : s.updateList ≠ [] := List.ne_nil_of_length_pos (length ▸ by decide)
  refine ⟨_, .step (a := .add (maxUpdateSize + 1) 0 false)
    (.step (a := .add maxUpdateSize 0 false) (reached.mono fun _ _ _ => trivial) trivial rfl) trivial rfl, ?_⟩
  have flag : s.dontSalvage 524288 = true := flags _ (Nat.le_refl _)
  have flag' : s.dontSalvage 524289 = true := flags _ (Nat.le_succ _)
  simp [UpdateState.add, UpdateState.put, UpdateState.append, UpdateState.store, flag, flag', some, count, full, length, maxUpdateSize]

end OpenAFS.Vol.UpdateList
