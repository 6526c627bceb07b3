import OpenAFS.Lib.Machine
import OpenAFS.Afs.Checking

namespace OpenAFS.Afs

open Function (update update_self update_of_ne)
open Lib Option

/-- Where `afs_Daemon` is in its loop: before `afs_CheckCallbacks`, before the test of `lastCBSlotBump`, before
`afs_BumpBase`, and before the check after it. -/
inductive Pc where
  | top
  | checked
  | bumping
  | bumped
  deriving DecidableEq, Repr

/-- `lastTop` is when the loop was last at its top; `downAtCheck` is what the last check saw of a vcache: read-only, and
all servers of its volume down. -/
structure Client where
  q : CbQueue
  lastCBSlotBump : Nat
  pc : Pc
  lastTop : Nat
  downAtCheck : Nat → Bool

inductive Action where
  | grant (v expirationTime start server : Nat) (avp : Option Nat)
  | invalidate (v : Nat)
  | newVCache (v volume server : Nat) (readOnly : Bool)
  | flushCBs
  | flushServerCBs (srvp : Nat)
  | setVolume (volume : Nat) (tvp : Option Volume)
  | setDown (server : Nat) (down : Bool)
  | tick
  | daemon
  deriving DecidableEq, Repr

namespace CbQueue

def down (s : CbQueue) (v : Nat) : Bool :=
  match s.checkedVolume v with
  | some tvp => !s.anyUp tvp
  | none => false

def slotChain (C : VCaches) (s : CbQueue) (i : Nat) : List Nat :=
  walk s.links.prev (head i) C.CBQ_LIMIT (s.links.prev (head i))

end CbQueue

namespace Client

def daemon (C : VCaches) (m : Client) : Client :=
  match m.pc with
  | .top =>
    { m with q := (m.q.checkCallbacks C 20).2, pc := .checked, lastTop := m.q.now, downAtCheck := m.q.down }
  | .checked =>
    if m.lastCBSlotBump + CBHTSLOTLEN < m.q.now then { m with lastCBSlotBump := m.q.now, pc := .bumping }
    else { m with pc := .top }
  | .bumping => { m with q := m.q.bumpBase.2, pc := if m.q.bumpBase.1 ≠ 0 then .bumped else .top }
  | .bumped => { m with q := (m.q.checkCallbacks C 20).2, pc := .top, downAtCheck := m.q.down }

/-- An expiration time is in the future of its start, and does not decrease while the vcache is queued. -/
def step (C : VCaches) (m : Client) : Action → Option Client
  | .grant v expirationTime start server avp =>
    if v ∈ C.cells ∧ expirationTime ≠ 0 ∧ CBHash expirationTime ≤ CBHTSIZE ∧ start ≤ m.q.now ∧
        (m.q.links.next v ≠ 0 → (m.q.vcache v).cbExpires ≤ expirationTime + start) then
      some { m with q := m.q.grant v expirationTime start server avp }
    else none
  | .invalidate v => if v ∈ C.cells then some { m with q := (m.q.clearStatd v).dequeueCallback v } else none
  | .newVCache v volume server readOnly =>
    if v ∈ C.cells then
      some { m with
        q := (m.q.setVCache v ⟨0, false, readOnly, server, volume⟩).dequeueCallback v
        downAtCheck := update m.downAtCheck v false }
    else none
  | .flushCBs => some { m with q := m.q.flushCBs C }
  | .flushServerCBs srvp => some { m with q := m.q.flushServerCBs C srvp }
  | .setVolume volume tvp => some { m with q.findVolume := update m.q.findVolume volume tvp }
  | .setDown server down => some { m with q.isDown := update m.q.isDown server down }
  | .tick => if m.q.now + 1 ≤ m.lastTop + 20 then some { m with q.now := m.q.now + 1 } else none
  | .daemon => some (m.daemon C)

end Client

structure Client.Start (m : Client) : Prop where
  links : m.q.links = (List.range CBHTSIZE).foldl (fun l i => l.QInit (head i)) ⟨fun _ => 0, fun _ => 0⟩
  base : m.q.base = 0
  basetime : m.q.basetime = m.q.now
  statd : ∀ v, (m.q.vcache v).statd = false
  bump : m.lastCBSlotBump = m.q.now
  pc : m.pc = .top
  lastTop : m.lastTop = m.q.now

def client (C : VCaches) : Machine Client Action where
  start := Client.Start
  step := Client.step C

namespace Client

variable {C : VCaches} {m m' : Client} {place : Nat → Option Nat}

def ahead (s : CbQueue) (i : Nat) : Nat := (i + CBHTSIZE - s.base) % CBHTSIZE

structure Timely (C : VCaches) (m : Client) (place : Nat → Option Nat) : Prop where
  parked : m.q.Parked C place
  base : m.q.base < CBHTSIZE
  basetime : m.q.basetime ≤ m.q.now + 19
  turn : m.lastTop ≤ m.q.now ∧ m.q.now ≤ m.lastTop + 20
  bump : m.lastCBSlotBump ≤ m.q.now
  behind : m.lastTop < m.q.basetime + 256
  bumped : m.pc ≠ .bumping → m.lastCBSlotBump < m.q.basetime + 108
  regular : m.lastTop ≤ m.lastCBSlotBump + if m.pc = .checked then 148 else 128
  marked : ∀ v ∈ C.cells, (m.q.vcache v).statd = true → place v ≠ none
  later : ∀ v i, place v = some i → i ≠ m.q.base → m.q.basetime + 127 * ahead m.q i ≤ (m.q.vcache v).cbExpires + 32
  arrived : ∀ v, place v = some m.q.base → (m.q.vcache v).statd = true →
    m.lastTop ≤ (m.q.vcache v).cbExpires + 160 ∨ m.downAtCheck v = true

theorem Start.timely (h : m.Start) : m.Timely C fun _ => none := by
  have init := Placed.init (C := C) (l := ⟨fun _ => 0, fun _ => 0⟩) fun _ _ => ⟨rfl, rfl⟩
  rw [← h.links] at init
  constructor
  · exact ⟨_, init⟩
  · rw [h.base]
    exact CbQueue.size_pos
  · rw [h.basetime]
    omega
  · rw [h.lastTop]
    omega
  · rw [h.bump]
  · rw [h.lastTop, h.basetime]
    omega
  · intro _
    rw [h.bump, h.basetime]
    omega
  · rw [h.lastTop, h.bump]
    omega
  · intro v _ statd
    rw [h.statd v] at statd
    cases statd
  · intro v i slotted
    cases slotted
  · intro v slotted
    cases slotted

theorem Timely.thinner (h : m.Timely C place) {q : CbQueue} {place' : Nat → Option Nat} {down : Nat → Bool}
    (thinner : CbQueue.Thinner C m.q q place place') (same : ∀ v, place' v ≠ none → down v = m.downAtCheck v) :
    Timely C { m with q := q, downAtCheck := down } place' := by
  have kept : ∀ v i, place' v = some i → place v = some i ∧ q.vcache v = m.q.vcache v := by
    intro v i slotted
    rcases thinner.each v with ⟨slot, equal⟩ | ⟨off, -⟩
    · exact ⟨slot.symm.trans slotted, equal⟩
    · rw [off] at slotted
      cases slotted
  constructor
  · exact thinner.parked
  · exact thinner.base ▸ h.base
  · show q.basetime ≤ q.now + 19
    rw [thinner.basetime, thinner.now]
    exact h.basetime
  · exact thinner.now.symm ▸ h.turn
  · exact thinner.now.symm ▸ h.bump
  · exact thinner.basetime.symm ▸ h.behind
  · exact thinner.basetime.symm ▸ h.bumped
  · exact h.regular
  · intro v inside statd
    rcases thinner.each v with ⟨slot, equal⟩ | ⟨-, cleared⟩
    · rw [slot]
      exact h.marked v inside (equal ▸ statd)
    · exact absurd (cleared.symm.trans statd) Bool.false_ne_true
  · intro v i slotted away
    rcases kept v i slotted with ⟨slotted', equal⟩
    show q.basetime + 127 * ((i + CBHTSIZE - q.base) % CBHTSIZE) ≤ (q.vcache v).cbExpires + 32
    rw [thinner.basetime, thinner.base, equal]
    exact h.later v i slotted' (thinner.base ▸ away)
  · intro v slotted statd
    rcases kept v _ slotted with ⟨slotted', equal⟩
    show m.lastTop ≤ (q.vcache v).cbExpires + 160 ∨ down v = true
    rw [same v (slotted ▸ some_ne_none _), equal]
    exact h.arrived v (thinner.base ▸ slotted') (equal ▸ statd)

theorem ahead_slot (s : CbQueue) (hash : Nat) : ahead s ((hash + s.base) % CBHTSIZE) ≤ hash := by
  unfold ahead CBHTSIZE at *
  omega

theorem grant_vcache (s : CbQueue) (v expirationTime start server : Nat) (avp : Option Nat) :
    (s.grant v expirationTime start server avp).vcache = update s.vcache v
        { s.vcache v with cbExpires := expirationTime + start, statd := true, callback := server } ∧
      (s.grant v expirationTime start server avp).base = s.base ∧
      (s.grant v expirationTime start server avp).basetime = s.basetime ∧
      (s.grant v expirationTime start server avp).now = s.now := by
  rcases CbQueue.raiseVolume_same (v := v) (s := s.setVCache v
    { s.vcache v with cbExpires := expirationTime + start, statd := true, callback := server }) avp with
    ⟨-, base, basetime, vcache, now⟩
  unfold CbQueue.grant CbQueue.queueCallback
  simp only
  split
  · exact ⟨vcache, base, basetime, now⟩
  · exact ⟨vcache, base, basetime, now⟩

variable {v i : Nat} {s : CbQueue}

theorem Timely.grant (h : m.Timely C place) {expirationTime start server : Nat} {avp : Option Nat}
    (inside : v ∈ C.cells) (rises : m.q.links.next v ≠ 0 → (m.q.vcache v).cbExpires ≤ expirationTime + start)
    (past : start ≤ m.q.now) (soon : m.q.now ≤ start + 13) :
    Timely C { m with q := m.q.grant v expirationTime start server avp }
      (if place v = none then update place v (some ((CBHash expirationTime + m.q.base) % CBHTSIZE)) else place) := by
  rcases grant_vcache m.q v expirationTime start server avp with ⟨vcache, base, basetime, now⟩
  have parked := CbQueue.queueCallback_parked (s := m.q.setVCache v
    { m.q.vcache v with cbExpires := expirationTime + start, statd := true, callback := server })
    h.parked inside (CBHash expirationTime) avp
  have hash : 127 * CBHash expirationTime ≤ expirationTime := by
    unfold CBHash
    omega
  have granted : (update m.q.vcache v
      { m.q.vcache v with cbExpires := expirationTime + start, statd := true, callback := server } v).cbExpires =
        expirationTime + start := by
    rw [update_self]
  have risen : place v ≠ none → (m.q.vcache v).cbExpires ≤ expirationTime + start := by
    intro queued
    apply rises
    rcases h.parked with ⟨chain, placed⟩
    exact fun zero => queued ((placed.next_eq_zero inside).mp zero)
  constructor
  · exact parked
  · exact base.symm ▸ h.base
  · show (m.q.grant v expirationTime start server avp).basetime ≤ (m.q.grant v expirationTime start server avp).now + 19
    rw [basetime, now]
    exact h.basetime
  · exact now.symm ▸ h.turn
  · exact now.symm ▸ h.bump
  · exact basetime.symm ▸ h.behind
  · exact basetime.symm ▸ h.bumped
  · exact h.regular
  · intro w known statd
    by_cases this : w = v
    · subst this
      by_cases off : place w = none
      · rw [if_pos off, update_self]
        exact some_ne_none _
      · rw [if_neg off]
        exact off
    have before : (m.q.vcache w).statd = true := by
      rw [← update_of_ne this
        { m.q.vcache v with cbExpires := expirationTime + start, statd := true, callback := server } m.q.vcache,
        ← vcache]
      exact statd
    by_cases off : place v = none
    · rw [if_pos off, update_of_ne this]
      exact h.marked w known before
    · rw [if_neg off]
      exact h.marked w known before
  · intro w i slotted away
    show (m.q.grant v expirationTime start server avp).basetime + 127 *
      ((i + CBHTSIZE - (m.q.grant v expirationTime start server avp).base) % CBHTSIZE) ≤
      ((m.q.grant v expirationTime start server avp).vcache w).cbExpires + 32
    rw [basetime, base, vcache]
    have away' : i ≠ m.q.base := base ▸ away
    by_cases this : w = v
    · subst this
      by_cases off : place w = none
      · rw [if_pos off, update_self] at slotted
        have near := ahead_slot m.q (CBHash expirationTime)
        rw [Option.some.inj slotted] at near
        unfold ahead at near
        have early := h.basetime
        omega
      · rw [if_neg off] at slotted
        have late := h.later w i slotted away'
        have more := risen off
        unfold ahead at late
        omega
    · rw [update_of_ne this]
      apply h.later w i _ away'
      by_cases off : place v = none
      · rw [if_pos off, update_of_ne this] at slotted
        exact slotted
      · rw [if_neg off] at slotted
        exact slotted
  · intro w slotted statd
    show m.lastTop ≤ ((m.q.grant v expirationTime start server avp).vcache w).cbExpires + 160 ∨ m.downAtCheck w = true
    have statd' : ((m.q.grant v expirationTime start server avp).vcache w).statd = true := statd
    rw [vcache] at statd' ⊢
    by_cases this : w = v
    · subst this
      have turn := h.turn
      omega
    rw [update_of_ne this] at statd' ⊢
    apply h.arrived w _ statd'
    have slotted' : (if place v = none then update place v (some ((CBHash expirationTime + m.q.base) % CBHTSIZE))
        else place) w = some m.q.base := base ▸ slotted
    by_cases off : place v = none
    · rw [if_pos off, update_of_ne this] at slotted'
      exact slotted'
    · rw [if_neg off] at slotted'
      exact slotted'

theorem check_kept {secs : Nat} (kept : s.clears secs v = false) :
    s.now + secs ≤ (s.checked secs v).cbExpires ∨ s.down v = true := by
  by_cases soon : (s.vcache v).cbExpires < s.now + secs
  · unfold CbQueue.clears at kept
    unfold CbQueue.checked CbQueue.clears CbQueue.down
    rw [decide_eq_true soon, Bool.true_and] at kept ⊢
    rw [kept, if_neg Bool.false_ne_true, if_pos soon]
    cases volume : s.checkedVolume v with
    | none =>
      rw [volume] at kept
      cases kept
    | some tvp =>
      rw [volume] at kept
      by_cases later : s.now + secs < tvp.expireTime
      · left
        show s.now + secs ≤ (if s.now + secs < tvp.expireTime then _ else _ : VCache).cbExpires
        rw [if_pos later]
        exact Nat.le_of_lt later
      · right
        simpa [later] using kept
  · left
    rw [(CbQueue.checked_late soon).2]
    exact Nat.le_of_not_lt soon

theorem otherSlot_late {cbExpires : Nat} (moved : s.otherSlot cbExpires = some i) : s.basetime + 127 * ahead s i ≤ cbExpires := by
  unfold CbQueue.otherSlot at moved
  rw [ite_none_right_eq_some] at moved
  rcases moved with ⟨⟨late, -, -⟩, slot⟩
  have near := ahead_slot s (CBHash (cbExpires - s.basetime))
  rw [Option.some.inj slot] at near
  have hash : CBHash (cbExpires - s.basetime) * 128 ≤ cbExpires - s.basetime := Nat.div_mul_le_self ..
  omega

theorem otherSlot_ne_base {cbExpires : Nat} : s.otherSlot cbExpires ≠ some s.base := by
  unfold CbQueue.otherSlot
  intro moved
  rw [ite_none_right_eq_some] at moved
  exact moved.1.2.2 (Option.some.inj moved.2)

def placesAfter (s : CbQueue) (secs : Nat) (place : Nat → Option Nat) (v : Nat) : Option Nat :=
  if place v = some s.base then s.placeAfter secs v else place v

theorem Timely.check (h : m.Timely C place) (pc : Pc) (lastTop : Nat) (turn : m.lastTop ≤ lastTop ∧ lastTop ≤ m.q.now)
    (behind : lastTop < m.q.basetime + 256) (bumped : m.lastCBSlotBump < m.q.basetime + 108)
    (regular : lastTop ≤ m.lastCBSlotBump + if pc = .checked then 148 else 128) :
    Timely C { m with q := (m.q.checkCallbacks C 20).2, pc := pc, lastTop := lastTop, downAtCheck := m.q.down }
      (placesAfter m.q 20 place) := by
  rcases CbQueue.checkCallbacks_spec 20 h.parked h.base with ⟨l, looped, parked⟩
  rw [looped]
  constructor
  · exact parked
  · exact h.base
  · exact h.basetime
  · have before := h.turn
    exact ⟨turn.2, by show m.q.now ≤ lastTop + 20; omega⟩
  · exact h.bump
  · exact behind
  · exact fun _ => bumped
  · exact regular
  · intro v inside statd
    replace statd : (if place v = some m.q.base then m.q.checked 20 v else m.q.vcache v).statd = true := statd
    unfold placesAfter
    by_cases slotted : place v = some m.q.base
    · rw [if_pos slotted] at statd ⊢
      unfold CbQueue.placeAfter
      cases moved : m.q.otherSlot (m.q.checked 20 v).cbExpires with
      | some slot => exact some_ne_none slot
      | none =>
        cases gone : m.q.clears 20 v with
        | false => exact some_ne_none _
        | true =>
          unfold CbQueue.checked at statd
          rw [gone, if_pos rfl] at statd
          cases statd
    · rw [if_neg slotted] at statd ⊢
      exact h.marked v inside statd
  · intro v i slotted away
    show m.q.basetime + 127 * ahead m.q i ≤ (if place v = some m.q.base then m.q.checked 20 v else m.q.vcache v).cbExpires + 32
    unfold placesAfter at slotted
    by_cases was : place v = some m.q.base
    · rw [if_pos was] at slotted ⊢
      unfold CbQueue.placeAfter at slotted
      cases moved : m.q.otherSlot (m.q.checked 20 v).cbExpires with
      | some slot =>
        rw [moved] at slotted
        have late := otherSlot_late moved
        rw [Option.some.inj slotted] at late
        omega
      | none =>
        rw [moved] at slotted
        cases gone : m.q.clears 20 v with
        | false =>
          rw [gone] at slotted
          exact absurd (Option.some.inj slotted).symm away
        | true =>
          rw [gone] at slotted
          cases slotted
    · rw [if_neg was] at slotted ⊢
      exact h.later v i slotted away
  · intro v slotted statd
    replace slotted : placesAfter m.q 20 place v = some m.q.base := slotted
    show lastTop ≤ (if place v = some m.q.base then m.q.checked 20 v else m.q.vcache v).cbExpires + 160 ∨ m.q.down v = true
    unfold placesAfter at slotted
    by_cases was : place v = some m.q.base
    · rw [if_pos was] at slotted ⊢
      unfold CbQueue.placeAfter at slotted
      cases moved : m.q.otherSlot (m.q.checked 20 v).cbExpires with
      | some slot =>
        rw [moved] at slotted
        exact absurd (moved.trans slotted) otherSlot_ne_base
      | none =>
        rw [moved] at slotted
        cases gone : m.q.clears 20 v with
        | false =>
          rcases check_kept gone with fresh | down
          · left
            omega
          · exact Or.inr down
        | true =>
          rw [gone] at slotted
          cases slotted
    · rw [if_neg was] at slotted
      exact absurd slotted was

theorem ahead_bump (small : s.base < CBHTSIZE) (slot : i < CBHTSIZE) (away : i ≠ s.base) : ahead s i = ahead s.bump i + 1 := by
  show (i + CBHTSIZE - s.base) % CBHTSIZE = (i + CBHTSIZE - (s.base + 1) % CBHTSIZE) % CBHTSIZE + 1
  unfold CBHTSIZE at *
  omega

def bumpedPlace (s : CbQueue) (place : Nat → Option Nat) (v : Nat) : Option Nat :=
  if place v = some s.base then some ((s.base + 1) % CBHTSIZE) else place v

theorem Timely.bumpOnce (h : m.Timely C place) (pc : m.pc = .bumping)
    (due : m.q.basetime + (CBHTSLOTLEN - 20) ≤ m.q.now) : Timely C { m with q := m.q.bump } (bumpedPlace m.q place) := by
  replace due : m.q.basetime + 108 ≤ m.q.now := due
  constructor
  · exact CbQueue.bump_parked h.parked h.base
  · exact Nat.mod_lt _ CbQueue.size_pos
  · show m.q.basetime + 127 ≤ m.q.now + 19
    omega
  · exact h.turn
  · exact h.bump
  · have behind := h.behind
    show m.lastTop < m.q.basetime + 127 + 256
    omega
  · exact fun other => absurd pc other
  · exact h.regular
  · intro v inside statd
    unfold bumpedPlace
    by_cases was : place v = some m.q.base
    · rw [if_pos was]
      exact some_ne_none _
    · rw [if_neg was]
      exact h.marked v inside statd
  · intro v i slotted away
    show m.q.basetime + 127 + 127 * ahead m.q.bump i ≤ (m.q.vcache v).cbExpires + 32
    unfold bumpedPlace at slotted
    by_cases was : place v = some m.q.base
    · rw [if_pos was] at slotted
      exact absurd (Option.some.inj slotted).symm away
    rw [if_neg was] at slotted
    have other : i ≠ m.q.base := fun same => was (same ▸ slotted)
    rcases h.parked with ⟨chain, placed⟩
    have nearer := ahead_bump h.base (placed.known v i slotted).1 other
    have late := h.later v i slotted other
    omega
  · intro v slotted statd
    replace slotted : bumpedPlace m.q place v = some ((m.q.base + 1) % CBHTSIZE) := slotted
    unfold bumpedPlace at slotted
    by_cases was : place v = some m.q.base
    · exact h.arrived v was statd
    -- it comes to the base from the next slot, which was a whole slot ahead
    rw [if_neg was] at slotted
    have other : (m.q.base + 1) % CBHTSIZE ≠ m.q.base := fun same => was (same ▸ slotted)
    rcases h.parked with ⟨chain, placed⟩
    have nearer := ahead_bump h.base (placed.known v _ slotted).1 other
    have late := h.later v _ slotted other
    have behind := h.behind
    left
    show m.lastTop ≤ (m.q.vcache v).cbExpires + 160
    omega

theorem Timely.bumpAll (h : m.Timely C place) (pc : m.pc = .bumping) : ∃ place',
    Timely C { m with q := m.q.bumpBase.2, pc := if m.q.bumpBase.1 ≠ 0 then .bumped else .top } place' ∧
      (∀ v, place' v = none ↔ place v = none) ∧ m.q.bumpBase.2.vcache = m.q.vcache := by
  have all := CbQueue.bumpBase_induct (s := m.q)
    (P := fun q => ∃ place', Timely C { m with q := q } place' ∧ ∀ v, place' v = none ↔ place v = none) ?_ ?_
  · rcases all with ⟨⟨place', timely, same⟩, due, now, vcache⟩
    replace due : m.q.bumpBase.2.now < m.q.bumpBase.2.basetime + 108 := due
    have bump := timely.bump
    have regular := h.regular
    rw [pc] at regular
    replace regular : m.lastTop ≤ m.lastCBSlotBump + 128 := regular
    refine ⟨place', ?_, same, vcache⟩
    constructor
    · exact timely.parked
    · exact timely.base
    · exact timely.basetime
    · exact timely.turn
    · exact timely.bump
    · exact timely.behind
    · intro _
      exact Nat.lt_of_le_of_lt bump due
    · by_cases again : m.q.bumpBase.1 ≠ 0
      · rw [if_pos again]
        exact regular
      · rw [if_neg again]
        exact regular
    · exact timely.marked
    · exact timely.later
    · exact timely.arrived
  · rintro q ⟨place', timely, same⟩ due
    refine ⟨_, timely.bumpOnce pc due, ?_⟩
    intro v
    rw [← same v]
    show bumpedPlace q place' v = none ↔ _
    unfold bumpedPlace
    by_cases was : place' v = some q.base
    · rw [if_pos was, was]
      constructor
      · intro wrong
        cases wrong
      · intro wrong
        cases wrong
    · rw [if_neg was]
  · exact ⟨place, h, fun _ => Iff.rfl⟩

theorem mem_slotChain (parked : s.Parked C place) (small : i < CBHTSIZE) (v : Nat) : v ∈ s.slotChain C i ↔ place v = some i := by
  rcases parked with ⟨chain, placed⟩
  unfold CbQueue.slotChain
  rw [placed.walk_eq small (placed.length_le small), List.mem_reverse]
  exact placed.on i small v

theorem nodup_slotChain (parked : s.Parked C place) (small : i < CBHTSIZE) : (s.slotChain C i).Nodup := by
  rcases parked with ⟨chain, placed⟩
  unfold CbQueue.slotChain
  rw [placed.walk_eq small (placed.length_le small), List.nodup_reverse]
  exact placed.queues.once _ (head_mem small)

theorem exists_slotChain (parked : s.Parked C place) (v : Nat) : (∃ i < CBHTSIZE, v ∈ s.slotChain C i) ↔ place v ≠ none := by
  constructor
  · rintro ⟨i, small, inside⟩ off
    rw [mem_slotChain parked small, off] at inside
    cases inside
  intro queued
  cases slotted : place v with
  | none => exact absurd slotted queued
  | some i =>
    have small : i < CBHTSIZE := by
      rcases parked with ⟨chain, placed⟩
      exact (placed.known v i slotted).1
    exact ⟨i, small, (mem_slotChain parked small v).mpr slotted⟩

/-- A check clears nothing that it queues again, and a callback is queued soon after the time its duration counts
from. -/
def Met (C : VCaches) (m : Client) : Action → Prop
  | .grant _ _ start _ _ => m.q.now ≤ start + 13
  | .daemon => m.pc = .top ∨ m.pc = .bumped → ∀ v ∈ m.q.slotChain C m.q.base, m.q.clears 20 v = true →
    m.q.basetime < (m.q.vcache v).cbExpires → (CBHash ((m.q.vcache v).cbExpires - m.q.basetime) + m.q.base) % CBHTSIZE = m.q.base
  | _ => True

instance : ∀ m a, Decidable (Met C m a)
  | m, .grant _ _ start _ _ => inferInstanceAs (Decidable (m.q.now ≤ start + 13))
  | m, .daemon => inferInstanceAs (Decidable (m.pc = .top ∨ m.pc = .bumped → ∀ v ∈ m.q.slotChain C m.q.base,
      m.q.clears 20 v = true → m.q.basetime < (m.q.vcache v).cbExpires →
        (CBHash ((m.q.vcache v).cbExpires - m.q.basetime) + m.q.base) % CBHTSIZE = m.q.base))
  | _, .invalidate _ => isTrue trivial
  | _, .newVCache .. => isTrue trivial
  | _, .flushCBs => isTrue trivial
  | _, .flushServerCBs _ => isTrue trivial
  | _, .setVolume .. => isTrue trivial
  | _, .setDown .. => isTrue trivial
  | _, .tick => isTrue trivial

def Marked (m : Client) (place : Nat → Option Nat) : Prop := ∀ v, place v ≠ none → (m.q.vcache v).statd = true

theorem Marked.thinner (marked : m.Marked place) {q : CbQueue} {place' : Nat → Option Nat}
    (thinner : CbQueue.Thinner C m.q q place place') {down : Nat → Bool} :
    Marked { m with q := q, downAtCheck := down } place' := by
  intro v queued
  rcases thinner.each v with ⟨slot, same⟩ | ⟨off, -⟩
  · show (q.vcache v).statd = true
    rw [same]
    exact marked v (slot ▸ queued)
  · exact absurd off queued

theorem Marked.check (marked : m.Marked place) (timely : m.Timely C place)
    (met : ∀ v ∈ m.q.slotChain C m.q.base, m.q.clears 20 v = true → m.q.basetime < (m.q.vcache v).cbExpires →
      (CBHash ((m.q.vcache v).cbExpires - m.q.basetime) + m.q.base) % CBHTSIZE = m.q.base)
    {pc : Pc} {lastTop : Nat} : Marked
      { m with q := (m.q.checkCallbacks C 20).2, pc := pc, lastTop := lastTop, downAtCheck := m.q.down }
      (placesAfter m.q 20 place) := by
  rcases CbQueue.checkCallbacks_spec 20 timely.parked timely.base with ⟨l, looped, -⟩
  rw [looped]
  intro v queued
  show (if place v = some m.q.base then m.q.checked 20 v else m.q.vcache v).statd = true
  unfold placesAfter at queued
  by_cases was : place v = some m.q.base
  · rw [if_pos was] at queued ⊢
    have statd := marked v (was ▸ some_ne_none _)
    cases gone : m.q.clears 20 v with
    | true =>
      -- it was cleared, so the slot of its time is the base and it is off the queue
      apply absurd _ queued
      have stays := met v ((mem_slotChain timely.parked timely.base v).mpr was) gone
      unfold CbQueue.placeAfter CbQueue.checked CbQueue.otherSlot
      rw [gone, if_pos rfl, if_neg]
      · rfl
      · exact fun moved => moved.2.2 (stays moved.1)
    | false =>
      unfold CbQueue.checked
      rw [gone, if_neg Bool.false_ne_true]
      split
      · split
        · split
          · exact statd
          · exact statd
        · exact statd
      · exact statd
  · rw [if_neg was] at queued ⊢
    exact marked v queued

theorem Start.marked : m.Marked fun _ => none := fun _ queued => absurd rfl queued

theorem timely_step (timely : m.Timely C place) (marked : m.Marked place) {a : Action} (met : Met C m a)
    (taken : Client.step C m a = some m') : ∃ place', m'.Timely C place' ∧ m'.Marked place' := by
  cases a with
  | grant v expirationTime start server avp =>
    simp only [step, ite_none_right_eq_some, Option.some.injEq] at taken
    rcases taken with ⟨⟨inside, -, -, past, rises⟩, rfl⟩
    refine ⟨_, timely.grant inside rises past met, ?_⟩
    intro w queued
    show ((m.q.grant v expirationTime start server avp).vcache w).statd = true
    rw [(grant_vcache m.q v expirationTime start server avp).1]
    by_cases this : w = v
    · subst this
      rw [update_self]
    rw [update_of_ne this]
    apply marked w
    by_cases off : place v = none
    · rw [if_pos off, update_of_ne this] at queued
      exact queued
    · rw [if_neg off] at queued
      exact queued
  | invalidate v =>
    simp only [step, ite_none_right_eq_some, Option.some.injEq] at taken
    rcases taken with ⟨inside, rfl⟩
    have thinner := (CbQueue.Thinner.dequeue timely.parked inside { m.q.vcache v with statd := false } rfl).1
    exact ⟨_, timely.thinner thinner fun _ _ => rfl, marked.thinner thinner⟩
  | newVCache v volume server readOnly =>
    simp only [step, ite_none_right_eq_some, Option.some.injEq] at taken
    rcases taken with ⟨inside, rfl⟩
    have thinner := (CbQueue.Thinner.dequeue timely.parked inside ⟨0, false, readOnly, server, volume⟩ rfl).1
    refine ⟨_, timely.thinner thinner ?_, marked.thinner thinner⟩
    intro w queued
    apply update_of_ne
    rintro rfl
    exact queued (update_self ..)
  | flushCBs =>
    cases taken
    rcases CbQueue.flushCBs_spec timely.parked with ⟨parked, base, basetime, now, cleared⟩
    have turn := timely.turn
    have bump := timely.bump
    refine ⟨fun _ => none, ?_, fun _ queued => absurd rfl queued⟩
    constructor
    · exact parked
    · exact base.symm ▸ CbQueue.size_pos
    · show (m.q.flushCBs C).basetime ≤ (m.q.flushCBs C).now + 19
      omega
    · exact now.symm ▸ turn
    · exact now.symm ▸ bump
    · show m.lastTop < (m.q.flushCBs C).basetime + 256
      omega
    · intro _
      show m.lastCBSlotBump < (m.q.flushCBs C).basetime + 108
      omega
    · exact timely.regular
    · intro v inside statd
      exact absurd ((cleared v inside).symm.trans statd) Bool.false_ne_true
    · intro v i slotted
      cases slotted
    · intro v slotted
      cases slotted
  | flushServerCBs srvp =>
    cases taken
    rcases CbQueue.flushServerCBs_thinner timely.parked srvp with ⟨place', thinner⟩
    exact ⟨place', timely.thinner thinner fun _ _ => rfl, marked.thinner thinner⟩
  | setVolume volume tvp =>
    cases taken
    exact ⟨place, ⟨timely.parked, timely.base, timely.basetime, timely.turn, timely.bump, timely.behind, timely.bumped,
      timely.regular, timely.marked, timely.later, timely.arrived⟩, marked⟩
  | setDown server down =>
    cases taken
    exact ⟨place, ⟨timely.parked, timely.base, timely.basetime, timely.turn, timely.bump, timely.behind, timely.bumped,
      timely.regular, timely.marked, timely.later, timely.arrived⟩, marked⟩
  | tick =>
    simp only [step, ite_none_right_eq_some, Option.some.injEq] at taken
    rcases taken with ⟨soon, rfl⟩
    have turn := timely.turn
    have bump := timely.bump
    have basetime := timely.basetime
    refine ⟨place, ⟨timely.parked, timely.base, ?_, ?_, ?_, timely.behind, timely.bumped, timely.regular,
      timely.marked, timely.later, timely.arrived⟩, marked⟩
    · show m.q.basetime ≤ m.q.now + 1 + 19
      omega
    · show m.lastTop ≤ m.q.now + 1 ∧ m.q.now + 1 ≤ m.lastTop + 20
      omega
    · show m.lastCBSlotBump ≤ m.q.now + 1
      omega
  | daemon =>
    cases taken
    have turn := timely.turn
    have regular := timely.regular
    unfold daemon
    cases pc : m.pc with
    | top =>
      have bumped := timely.bumped (by rw [pc]; exact Pc.noConfusion)
      rw [pc] at regular
      replace regular : m.lastTop ≤ m.lastCBSlotBump + 128 := regular
      refine ⟨_, timely.check .checked m.q.now ⟨turn.1, Nat.le_refl _⟩ ?_ bumped ?_, marked.check timely (met (Or.inl pc))⟩
      · omega
      · show m.q.now ≤ m.lastCBSlotBump + 148
        omega
    | checked =>
      have bumped := timely.bumped (by rw [pc]; exact Pc.noConfusion)
      refine ⟨place, ?_⟩
      simp only
      by_cases due : m.lastCBSlotBump + CBHTSLOTLEN < m.q.now
      · rw [if_pos due]
        refine ⟨⟨timely.parked, timely.base, timely.basetime, timely.turn, Nat.le_refl _, timely.behind, ?_, ?_,
          timely.marked, timely.later, timely.arrived⟩, marked⟩
        · exact fun other => absurd rfl other
        · show m.lastTop ≤ m.q.now + 128
          omega
      rw [if_neg due]
      refine ⟨⟨timely.parked, timely.base, timely.basetime, timely.turn, timely.bump, timely.behind, fun _ => bumped,
        ?_, timely.marked, timely.later, timely.arrived⟩, marked⟩
      show m.lastTop ≤ m.lastCBSlotBump + 128
      unfold CBHTSLOTLEN at due
      omega
    | bumping =>
      rcases timely.bumpAll pc with ⟨place', timely', same, vcache⟩
      refine ⟨place', timely', ?_⟩
      intro v queued
      show (m.q.bumpBase.2.vcache v).statd = true
      rw [vcache]
      exact marked v fun off => queued ((same v).mpr off)
    | bumped =>
      have bumped := timely.bumped (by rw [pc]; exact Pc.noConfusion)
      rw [pc] at regular
      exact ⟨_, timely.check .top m.lastTop ⟨Nat.le_refl _, turn.1⟩ timely.behind bumped regular,
        marked.check timely (met (Or.inr pc))⟩

/-- What is promised of the queue: a vcache is on one chain if it has its status and on none if not, no bump drops one,
the loop is not cut short, and no status is kept for more than 180 seconds past its callback unless the last check saw
the servers down. -/
structure Sound (C : VCaches) (m : Client) : Prop where
  once : ∀ i < CBHTSIZE, (m.q.slotChain C i).Nodup ∧ ∀ j < CBHTSIZE, ∀ v, v ∈ m.q.slotChain C i → v ∈ m.q.slotChain C j → i = j
  queued : ∀ v ∈ C.cells, (m.q.vcache v).statd = true → ∃ i < CBHTSIZE, v ∈ m.q.slotChain C i
  cleared : ∀ v ∈ C.cells, (m.q.vcache v).statd = false → ∀ i < CBHTSIZE, v ∉ m.q.slotChain C i
  bump : ∀ i < CBHTSIZE, ∀ v ∈ m.q.slotChain C i, ∃ j < CBHTSIZE, v ∈ m.q.bumpBase.2.slotChain C j
  loop : ∀ secs, (m.q.checkCallbacks C secs).1 = false
  fresh : ∀ v ∈ C.cells, (m.q.vcache v).statd = true → m.q.now ≤ (m.q.vcache v).cbExpires + 180 ∨ m.downAtCheck v = true

theorem Timely.fresh (timely : m.Timely C place) (inside : v ∈ C.cells)
    (statd : (m.q.vcache v).statd = true) : m.q.now ≤ (m.q.vcache v).cbExpires + 180 ∨ m.downAtCheck v = true := by
  have turn := timely.turn
  have behind := timely.behind
  cases slotted : place v with
  | none => exact absurd slotted (timely.marked v inside statd)
  | some i =>
    by_cases this : i = m.q.base
    · rcases timely.arrived v (this ▸ slotted) statd with recent | down
      · left
        omega
      · exact Or.inr down
    -- a slot after the base comes to it in time
    rcases timely.parked with ⟨chain, placed⟩
    have small := (placed.known v i slotted).1
    have late := timely.later v i slotted this
    have nearer := ahead_bump timely.base small this
    left
    omega

theorem bumpBase_keeps (parked : s.Parked C place) (small : s.base < CBHTSIZE) : ∃ place',
    s.bumpBase.2.Parked C place' ∧ ∀ v, place' v = none ↔ place v = none := by
  have all := CbQueue.bumpBase_induct (s := s) (P := fun q => q.base < CBHTSIZE ∧ ∃ place', q.Parked C place' ∧
    ∀ v, place' v = none ↔ place v = none) ?_ ⟨small, place, parked, fun _ => Iff.rfl⟩
  · exact all.1.2
  rintro q ⟨small, place', parked, same⟩ _
  refine ⟨Nat.mod_lt _ CbQueue.size_pos, _, CbQueue.bump_parked parked small, ?_⟩
  intro v
  rw [← same v]
  by_cases was : place' v = some q.base
  · rw [if_pos was, was]
    constructor
    · intro wrong
      cases wrong
    · intro wrong
      cases wrong
  · rw [if_neg was]

theorem Timely.sound (timely : m.Timely C place) (marked : m.Marked place) : m.Sound C := by
  have parked := timely.parked
  constructor
  · intro i small
    refine ⟨nodup_slotChain parked small, ?_⟩
    intro j small' v one two
    rw [mem_slotChain parked small] at one
    rw [mem_slotChain parked small', one] at two
    exact Option.some.inj two
  · intro v inside statd
    exact (exists_slotChain parked v).mpr (timely.marked v inside statd)
  · intro v inside cleared i small member
    have queued := (exists_slotChain parked v).mp ⟨i, small, member⟩
    exact absurd (cleared.symm.trans (marked v queued)) Bool.false_ne_true
  · intro i small v member
    rcases bumpBase_keeps parked timely.base with ⟨place', parked', same⟩
    have queued := (exists_slotChain parked v).mp ⟨i, small, member⟩
    exact (exists_slotChain parked' v).mpr fun off => queued ((same v).mp off)
  · intro secs
    rcases CbQueue.checkCallbacks_spec secs parked timely.base with ⟨l, looped, -⟩
    rw [looped]
  · exact fun v inside statd => timely.fresh inside statd

end Client

def oneVCache : VCaches := ⟨[200], 1, 0, by decide, by decide⟩

def fresh (now : Nat) : Client :=
  ⟨⟨(List.range CBHTSIZE).foldl (fun l i => l.QInit (head i)) ⟨fun _ => 0, fun _ => 0⟩, 0, now,
    fun _ => ⟨0, false, false, 0, 0⟩, fun _ => none, fun _ => false, now⟩, now, .top, now, fun _ => false⟩

theorem fresh_start (now : Nat) : (fresh now).Start := ⟨rfl, rfl, rfl, fun _ => rfl, rfl, rfl, rfl⟩

def hourly : List Action :=
  [.daemon, .daemon, .grant 200 3600 1000 7 none] ++ List.replicate 20 .tick ++ [.daemon, .daemon]

def afterHourly : Client := ((client oneVCache).runWhere (Client.Met oneVCache) (fresh 1000) hourly).get (by decide +kernel)

def AtOnce (m : Client) : Action → Prop
  | .grant _ _ start _ _ => m.q.now = start
  | _ => True

instance : ∀ m a, Decidable (AtOnce m a)
  | m, .grant _ _ start _ _ => inferInstanceAs (Decidable (m.q.now = start))
  | _, .daemon => isTrue trivial
  | _, .invalidate _ => isTrue trivial
  | _, .newVCache .. => isTrue trivial
  | _, .flushCBs => isTrue trivial
  | _, .flushServerCBs _ => isTrue trivial
  | _, .setVolume .. => isTrue trivial
  | _, .setDown .. => isTrue trivial
  | _, .tick => isTrue trivial

def shortGrant : List Action :=
  (List.replicate 6 ([Action.daemon, .daemon] ++ List.replicate 20 .tick)).flatten ++
    [.daemon, .daemon, .grant 200 20 1120 7 none] ++ List.replicate 5 .tick ++ [.daemon]

def afterShort : Client := ((client oneVCache).runWhere AtOnce (fresh 1000) shortGrant).get (by decide +kernel)

end OpenAFS.Afs
