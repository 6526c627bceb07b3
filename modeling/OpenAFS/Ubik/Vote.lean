import OpenAFS.Ubik.Types

namespace OpenAFS.Ubik

structure VoteState where
  lastYesTime : Int := 0
  lastYesHost : Nat := noHost
  lastYesClaim : Int := 0
  lastYesState : Bool := false
  lowestTime : Int := 0
  lowestHost : Nat := noHost
  syncTime : Int := 0
  syncHost : Nat := 0
  dbVersion : UbikVersion := ⟨0, 0⟩
  dbTid : UbikTid := ⟨0, 0⟩
  deriving DecidableEq, Repr

def uvoteInit (now : Int) : VoteState := { lastYesTime := now }

def uvoteShouldIRun (ubikHost : Nat) (now : Int) (v : VoteState) : Bool :=
  if bigTime + v.lastYesTime < now then true
  else if v.lastYesState ∧ v.lastYesHost ≠ ubikHost then false
  else if v.lastYesHost < ubikHost then false
  else true

/-- `uvote_GetSyncSite`: 0, or the host last voted for while its claim to be sync site lasts. -/
def uvoteGetSyncSite (now : Int) (v : VoteState) : Nat :=
  if v.lastYesState = false then 0
  else if smallTime + v.lastYesClaim < now then 0
  else v.lastYesHost

/-- `ubikGetPrimaryInterfaceAddr`, for callers known by their primary address. -/
def ubikGetPrimaryInterfaceAddr (servers : List UbikServer) (addr : Nat) : Nat :=
  match servers.find? (fun ts => ts.addr = addr) with
  | some ts => ts.addr
  | none => 0

/-- What `SVOTE_Beacon` does: the vote it returns, the statics it leaves, and whether it went
    on to `urecovery_CheckTid`. -/
structure BeaconReply where
  vote : Int
  state : VoteState
  checkTid : Bool
  deriving DecidableEq, Repr

/-- The first two tests of `SVOTE_Beacon`: who is the lowest host heard from. -/
def noteLowest (ubikHost : Nat) (amIClone : Bool) (now : Int) (otherHost : Nat) (isClone : Bool) (v : VoteState) : VoteState :=
  let v := if isClone = false ∧ (otherHost ≤ v.lowestHost ∨ v.lowestTime + bigTime < now)
    then { v with lowestTime := now, lowestHost := otherHost } else v
  if amIClone = false ∧ (ubikHost ≤ v.lowestHost ∨ v.lowestTime + bigTime < now)
    then { v with lowestTime := now, lowestHost := ubikHost } else v

def noteSync (now : Int) (otherHost : Nat) (astate : Bool) (v : VoteState) : VoteState :=
  if astate then { v with syncHost := otherHost, syncTime := now }
  else if v.syncTime + bigTime < now then { v with syncHost := 0 }
  else v

def noteOnlyServer (ubikHost : Nat) (servers : List UbikServer) (otherHost : Nat) (v : VoteState) : VoteState :=
  if v.lastYesHost = noHost ∧ otherHost = ubikHost ∧
      (servers.filter (fun ts => ts.addr ≠ otherHost ∧ ts.isClone = false)).length = 0
    then { v with lastYesHost := otherHost } else v

/-- Whether the promise to the host last voted for allows a yes to `otherHost`. -/
def mayVote (now : Int) (otherHost : Nat) (v : VoteState) : Prop :=
  v.lastYesTime + bigTime < now ∨ otherHost = v.lastYesHost

instance (now : Int) (otherHost : Nat) (v : VoteState) : Decidable (mayVote now otherHost v) :=
  inferInstanceAs (Decidable (_ ∨ _))

def voteYes (now : Int) (otherHost : Nat) (astate : Bool) (astart : Int) (avers : UbikVersion)
    (atid : UbikTid) (v : VoteState) : VoteState :=
  { v with lastYesTime := now, lastYesClaim := astart, lastYesHost := otherHost, lastYesState := astate,
           dbVersion := avers, dbTid := atid }

/-- The part of `SVOTE_Beacon` after the caller is known. -/
def voteOn (ubikHost : Nat) (amIClone : Bool) (servers : List UbikServer) (now : Int) (otherHost : Nat)
    (isClone : Bool) (astate : Bool) (astart : Int) (avers : UbikVersion) (atid : UbikTid) (v : VoteState) :
    BeaconReply :=
  let v := noteSync now otherHost astate (noteLowest ubikHost amIClone now otherHost isClone v)
  if astate = false ∧ (v.lowestHost ≠ otherHost ∨ (v.syncHost ≠ 0 ∧ v.syncHost ≠ otherHost)) then ⟨0, v, false⟩
  else
    let v := if astate then noteOnlyServer ubikHost servers otherHost v else v
    if isClone then ⟨0, v, false⟩
    else if mayVote now otherHost v then ⟨now, voteYes now otherHost astate astart avers atid v, true⟩
    else ⟨0, v, false⟩

/-- `SVOTE_Beacon`. `rxcall` is the peer's address, or `none` when the server asks itself. -/
def svoteBeacon (ubikHost : Nat) (amIClone : Bool) (servers : List UbikServer) (now : Int)
    (rxcall : Option Nat) (astate : Bool) (astart : Int) (avers : UbikVersion) (atid : UbikTid)
    (v : VoteState) : BeaconReply :=
  match rxcall with
  | some peer =>
    let otherHost := ubikGetPrimaryInterfaceAddr servers peer
    if otherHost = 0 then ⟨0, v, false⟩
    else voteOn ubikHost amIClone servers now otherHost (servers.any fun ts => ts.addr = otherHost ∧ ts.isClone)
      astate astart avers atid v
  | none => voteOn ubikHost amIClone servers now ubikHost amIClone astate astart avers atid v

structure LastYes where
  time : Int
  host : Nat
  claim : Int
  state : Bool
  dbVersion : UbikVersion
  dbTid : UbikTid

def VoteState.lastYes (v : VoteState) : LastYes :=
  ⟨v.lastYesTime, v.lastYesHost, v.lastYesClaim, v.lastYesState, v.dbVersion, v.dbTid⟩

@[simp] theorem noteLowest_lastYes (ubikHost : Nat) (amIClone : Bool) (now : Int) (otherHost : Nat)
    (isClone : Bool) (v : VoteState) :
    (noteLowest ubikHost amIClone now otherHost isClone v).lastYes = v.lastYes := by
  unfold noteLowest
  dsimp only
  split <;> split <;> rfl

@[simp] theorem noteSync_lastYes (now : Int) (otherHost : Nat) (astate : Bool) (v : VoteState) :
    (noteSync now otherHost astate v).lastYes = v.lastYes := by
  unfold noteSync
  split
  · rfl
  · split <;> rfl

theorem noteOnlyServer_of_other {ubikHost : Nat} {servers : List UbikServer} {otherHost : Nat}
    (other : ∃ ts ∈ servers, ts.addr ≠ ubikHost ∧ ts.isClone = false) (v : VoteState) :
    noteOnlyServer ubikHost servers otherHost v = v := by
  unfold noteOnlyServer
  split
  · rename_i only
    obtain ⟨-, rfl, empty⟩ := only
    obtain ⟨ts, mem, differs, voter⟩ := other
    have kept := List.eq_nil_of_length_eq_zero empty
    have gone := List.filter_eq_nil_iff.mp kept ts mem
    exact absurd (decide_eq_true (And.intro differs voter)) gone
  · rfl

theorem mayVote_congr {now : Int} {otherHost : Nat} {v v' : VoteState} (same : v'.lastYes = v.lastYes) :
    mayVote now otherHost v' ↔ mayVote now otherHost v := by
  have time : v'.lastYesTime = v.lastYesTime := congrArg LastYes.time same
  have host : v'.lastYesHost = v.lastYesHost := congrArg LastYes.host same
  unfold mayVote
  rw [time, host]

theorem voteOn_cases {ubikHost : Nat} {servers : List UbikServer}
    (other : ∃ ts ∈ servers, ts.addr ≠ ubikHost ∧ ts.isClone = false)
    (amIClone : Bool) (now : Int) (otherHost : Nat) (isClone astate : Bool) (astart : Int)
    (avers : UbikVersion) (atid : UbikTid) (v : VoteState) :
    let reply := voteOn ubikHost amIClone servers now otherHost isClone astate astart avers atid v
    (reply.vote = 0 ∧ reply.checkTid = false ∧ reply.state.lastYes = v.lastYes) ∨
    (reply.vote = now ∧ reply.checkTid = true ∧ isClone = false ∧ mayVote now otherHost v ∧
      reply.state.lastYes = ⟨now, otherHost, astart, astate, avers, atid⟩) := by
  intro reply
  have same : (noteSync now otherHost astate (noteLowest ubikHost amIClone now otherHost isClone v)).lastYes =
      v.lastYes := by simp
  simp only [reply, voteOn, noteOnlyServer_of_other other, ite_self]
  split
  · exact .inl ⟨rfl, rfl, same⟩
  cases isClone with
  | true => exact .inl ⟨rfl, rfl, same⟩
  | false =>
    simp only [Bool.false_eq_true, ite_false]
    split
    · rename_i allowed
      exact .inr ⟨rfl, rfl, trivial, (mayVote_congr same).mp allowed, rfl⟩
    · exact .inl ⟨rfl, rfl, same⟩

theorem uvoteGetSyncSite_eq {now : Int} {v : VoteState} {h : Nat} (found : uvoteGetSyncSite now v = h)
    (some : h ≠ 0) : v.lastYesState = true ∧ v.lastYesHost = h ∧ now ≤ smallTime + v.lastYesClaim := by
  unfold uvoteGetSyncSite at found
  split at found
  · exact absurd found.symm some
  rename_i state
  split at found
  · exact absurd found.symm some
  · rename_i fresh
    exact ⟨by simpa using state, found, Int.not_lt.mp fresh⟩

end OpenAFS.Ubik
