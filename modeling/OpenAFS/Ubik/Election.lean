import OpenAFS.Lib.Machine
import OpenAFS.Ubik.ServerList

namespace OpenAFS.Ubik

open Lib

namespace Election

structure BeaconMsg where
  src : Nat
  dst : Nat
  syncsite : Bool
  startTime : Int
  version : UbikVersion
  tid : UbikTid
  deriving DecidableEq, Repr

structure VoteMsg where
  voter : Nat
  host : Nat
  time : Int
  deriving DecidableEq, Repr

/-- All servers, the beacons on their way, and every yes vote cast so far: a vote may be counted however
    late it arrives. -/
structure World where
  clock : Nat → Int
  site : Nat → Site
  beacons : List BeaconMsg
  votes : List VoteMsg

inductive Action where
  | tick (clock : Nat → Int)
  /-- `ubeacon_Interact` starts a collection; the database version and tid are what the beacons carry. -/
  | ask (h : Nat) (version : UbikVersion) (tid : UbikTid)
  | beacon (m : BeaconMsg)
  | lose (m : BeaconMsg)
  /-- The call to `peer` ends with `code`: a vote, or an error code (or no) that is not positive. -/
  | reply (h peer : Nat) (code : Int)
  | finish (h : Nat) (version : UbikVersion)
  | amSyncSite (h : Nat)
  | restart (h : Nat)
  /-- Another module changes what the server list says of the other servers. -/
  | flags (h : Nat) (servers : List UbikServer)

def startSite (cell : Cell) (h : Nat) (now : Int) : Site :=
  { ubeaconInitServerListByInfo h (cell.info h) with vote := uvoteInit now }

def World.setSite (w : World) (h : Nat) (s : Site) : World := { w with site := Function.update w.site h s }

def beaconsOf (h : Nat) (r : Round) (version : UbikVersion) : List BeaconMsg :=
  r.pending.map fun peer => ⟨h, peer, r.syncsite, r.startTime, version, r.tid⟩

/-- Clocks that have not gone backwards and differ by no more than the allowed skew. -/
def ClocksFollow (cell : Cell) (before after : Nat → Int) : Prop :=
  (∀ h ∈ cell.hosts, before h ≤ after h) ∧ ∀ h ∈ cell.hosts, ∀ k ∈ cell.hosts, after h ≤ after k + maxSkew

instance (cell : Cell) (before after : Nat → Int) : Decidable (ClocksFollow cell before after) :=
  inferInstanceAs (Decidable (_ ∧ _))

def voteAt (w : World) (m : BeaconMsg) : BeaconReply :=
  let s := w.site m.dst
  svoteBeacon s.ubikHost s.amIClone s.servers (w.clock m.dst) (some m.src) m.syncsite m.startTime m.version m.tid
    s.vote

def cast (voter host : Nat) (reply : BeaconReply) : List VoteMsg :=
  if reply.checkTid then [⟨voter, host, reply.vote⟩] else []

def step (cell : Cell) (w : World) : Action → Option World
  | .tick clock => if ClocksFollow cell w.clock clock then some { w with clock := clock } else none
  | .ask h version tid =>
    let s := w.site h
    if h ∈ cell.hosts ∧ s.round = none ∧ s.servers ≠ [] ∧ uvoteShouldIRun s.ubikHost (w.clock h) s.vote then
      let asked := ubeaconAsk (w.clock h) tid s
      some { w.setSite h asked with
             beacons := w.beacons ++ (asked.round.toList.flatMap fun r => beaconsOf h r version) }
    else none
  | .beacon m =>
    if m.dst ∈ cell.hosts ∧ m ∈ w.beacons then
      let reply := voteAt w m
      some { w.setSite m.dst { w.site m.dst with vote := reply.state } with
             beacons := w.beacons.erase m
             votes := w.votes ++ cast m.dst m.src reply }
    else none
  | .lose m => some { w with beacons := w.beacons.erase m }
  | .reply h peer code =>
    let s := w.site h
    match s.round, s.servers.find? (fun ts => ts.addr = peer) with
    | some r, some ts =>
      if h ∈ cell.hosts ∧ peer ∈ r.pending ∧ (code ≤ 0 ∨ ⟨peer, h, code⟩ ∈ w.votes) then
        some (w.setSite h (ubeaconReply (w.clock h) peer code s r ts))
      else none
    | _, _ => none
  | .finish h version =>
    let s := w.site h
    match s.round with
    | some r =>
      if h ∈ cell.hosts ∧ r.pending = [] then
        some { w.setSite h (ubeaconFinish (w.clock h) version s r) with
               votes := w.votes ++ cast h h (ownVote (w.clock h) version s r) }
      else none
    | none => none
  | .amSyncSite h =>
    if h ∈ cell.hosts then some (w.setSite h (afterAmSyncSite (w.clock h) (w.site h))) else none
  | .restart h => if h ∈ cell.hosts then some (w.setSite h (startSite cell h (w.clock h))) else none
  | .flags h servers =>
    if h ∈ cell.hosts ∧ servers.map fixedPart = (w.site h).servers.map fixedPart then
      some (w.setSite h { w.site h with servers := servers })
    else none

def Start (cell : Cell) (w : World) : Prop :=
  (∀ h ∈ cell.hosts, w.site h = startSite cell h (w.clock h)) ∧ ClocksFollow cell w.clock w.clock ∧
  w.beacons = [] ∧ w.votes = []

def machine (cell : Cell) : Machine World Action := ⟨Start cell, step cell⟩

def freshWorld (cell : Cell) (now : Int) : World := ⟨fun _ => now, fun h => startSite cell h now, [], []⟩

theorem freshWorld_start (cell : Cell) (now : Int) : (machine cell).start (freshWorld cell now) :=
  ⟨fun _ _ => rfl, ⟨fun _ _ => Int.le_refl _, fun _ _ _ _ => by simp [freshWorld, maxSkew]⟩, rfl, rfl⟩

theorem freshWorld_reach (cell : Cell) (now : Int) : (machine cell).Reach (freshWorld cell now) :=
  .start (freshWorld_start cell now)

def World.passes (w : World) (h : Nat) : Prop := ubeaconAmSyncSite (w.clock h) (w.site h) = true

instance (w : World) (h : Nat) : Decidable (w.passes h) := inferInstanceAs (Decidable (_ = true))

def World.syncSiteAt (w : World) (v : Nat) : Nat := uvoteGetSyncSite (w.clock v) (w.site v).vote

end Election

end OpenAFS.Ubik
