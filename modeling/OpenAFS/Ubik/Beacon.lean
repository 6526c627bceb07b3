import Mathlib.Data.List.Induction
import OpenAFS.Ubik.Vote

namespace OpenAFS.Ubik

open List

structure Round where
  startTime : Int
  syncsite : Bool
  pending : List Nat
  yesVotes : Nat := 0
  oldestYesVote : Int := 0x7fffffff
  tid : UbikTid
  deriving DecidableEq, Repr

structure Site where
  ubikHost : Nat
  amIClone : Bool
  amIMagic : Bool
  nServers : Nat
  servers : List UbikServer
  vote : VoteState := {}
  amSyncSite : Bool := false
  syncSiteUntil : Int := 0
  round : Option Round := none
  deriving DecidableEq, Repr

/-- Locals of the loop of `ubeacon_InitServerListCommon`. -/
structure ListInit where
  servers : List UbikServer := []
  magicHost : Nat
  magicServer : Option Nat := none
  nServers : Nat := 0

def newServer (entry : Nat × Bool) : UbikServer := { addr := entry.1, isClone := entry.2, up := true }

def addServer (l : ListInit) (entry : Nat × Bool) : ListInit :=
  let ts := newServer entry
  if entry.2 then { l with servers := ts :: l.servers }
  else if l.magicHost = 0 ∨ entry.1 < l.magicHost then
    { servers := ts :: l.servers, magicHost := entry.1, magicServer := some entry.1, nServers := l.nServers + 1 }
  else { l with servers := ts :: l.servers, nServers := l.nServers + 1 }

/-- `ubeacon_InitServerListByInfo`: the site `ame` of a cell with these servers, each with its clone flag. -/
def ubeaconInitServerListByInfo (ame : Nat) (info : List (Nat × Bool)) : Site :=
  let amIClone := info.any fun e => e.1 = ame ∧ e.2
  let l := (info.filter fun e => e.1 ≠ ame).foldl addServer { magicHost := if amIClone then 0 else ame }
  let nServers := l.nServers + if amIClone then 0 else 1
  let alone := l.servers.isEmpty ∨ (nServers = 1 ∧ amIClone = false)
  { ubikHost := ame
    amIClone := amIClone
    amIMagic := !amIClone && l.magicServer.isNone
    nServers := nServers
    servers := l.servers.map fun ts => if l.magicServer = some ts.addr then { ts with magic := true } else ts
    amSyncSite := alone
    syncSiteUntil := if alone then 0x7fffffff else 0 }

def ubeaconAmSyncSite (now : Int) (s : Site) : Bool :=
  if s.nServers = 1 ∧ s.amIClone = false then true
  else if s.amSyncSite = false ∨ s.amIClone then false
  else if s.syncSiteUntil ≤ now then false
  else true

/-- What `ubeacon_AmSyncSite` leaves of the local state: an expired mandate is given up. -/
def afterAmSyncSite (now : Int) (s : Site) : Site :=
  if s.nServers = 1 ∧ s.amIClone = false then s
  else if s.amSyncSite = false ∨ s.amIClone then s
  else if s.syncSiteUntil ≤ now then { s with amSyncSite := false }
  else s

def ubeaconAsk (now : Int) (tid : UbikTid) (s : Site) : Site :=
  { afterAmSyncSite now s with
    round := some
      { startTime := now, syncsite := ubeaconAmSyncSite now s, tid := tid,
        pending := (s.servers.filter fun ts => ts.up ∧ ts.addr ≠ s.ubikHost).map UbikServer.addr } }

def noteReply (now : Int) (code : Int) (ts : UbikServer) : UbikServer :=
  let ts := { ts with lastBeaconSent := now }
  if 0 < code then { ts with lastVoteTime := code, lastVote := true, up := true, beaconSinceDown := true }
  else if code = 0 then { ts with lastVoteTime := now, lastVote := false, beaconSinceDown := true }
  else { ts with up := false, beaconSinceDown := false }

def countReply (code : Int) (ts : UbikServer) (r : Round) : Round :=
  if 0 < code then
    { r with oldestYesVote := if code < r.oldestYesVote then code else r.oldestYesVote
             yesVotes := r.yesVotes + (if ts.isClone then 0 else 2) + (if ts.magic then 1 else 0) }
  else r

def ubeaconReply (now : Int) (peer : Nat) (code : Int) (s : Site) (r : Round) (ts : UbikServer) : Site :=
  { s with
    servers := s.servers.map fun ts => if ts.addr = peer then noteReply now code ts else ts
    round := some { countReply code ts r with pending := r.pending.erase peer } }

def countOwn (amIMagic : Bool) (code : Int) (r : Round) : Round :=
  if code ≠ 0 then
    { r with oldestYesVote := if code < r.oldestYesVote then code else r.oldestYesVote
             yesVotes := r.yesVotes + 2 + (if amIMagic then 1 else 0) }
  else r

/-- The vote a server casts on its own beacon at the end of a collection. -/
def ownVote (now : Int) (version : UbikVersion) (s : Site) (r : Round) : BeaconReply :=
  svoteBeacon s.ubikHost s.amIClone s.servers now none (ubeaconAmSyncSite now s) r.startTime version r.tid s.vote

def ubeaconFinish (now : Int) (version : UbikVersion) (s : Site) (r : Round) : Site :=
  let own := ownVote now version s r
  let counted := countOwn s.amIMagic own.vote r
  if s.nServers < counted.yesVotes then
    { s with vote := own.state, round := none, amSyncSite := true,
             syncSiteUntil := counted.oldestYesVote + smallTime }
  else { s with vote := own.state, round := none, amSyncSite := false }

def nonClones (info : List (Nat × Bool)) : List Nat :=
  (info.filter fun e => e.2 = false).map Prod.fst

structure ListInit.Met (ame : Nat) (amIClone : Bool) (info : List (Nat × Bool)) (l : ListInit) : Prop where
  entries : l.servers = (info.map newServer).reverse
  count : l.nServers = (nonClones info).length
  chosen : ∀ m, l.magicServer = some m → m ∈ nonClones info ∧ l.magicHost = m ∧ (∀ v ∈ nonClones info, m ≤ v) ∧
    (amIClone = false → m < ame)
  unchosen : l.magicServer = none → (amIClone = true → l.magicHost = 0 ∧ nonClones info = []) ∧
    (amIClone = false → l.magicHost = ame ∧ ∀ v ∈ nonClones info, ame ≤ v)

theorem nonClones_append (info : List (Nat × Bool)) (e : Nat × Bool) :
    nonClones (info ++ [e]) = nonClones info ++ if e.2 then [] else [e.1] := by
  obtain ⟨addr, clone⟩ := e
  cases clone <;> simp [nonClones]

theorem addServer_met {ame : Nat} {amIClone : Bool} {info : List (Nat × Bool)} {l : ListInit}
    (met : l.Met ame amIClone info) {e : Nat × Bool} (valid : e.1 ≠ 0) (known : ∀ v ∈ nonClones info, v ≠ 0)
    (me : ame ≠ 0) (differs : e.1 ≠ ame) : (addServer l e).Met ame amIClone (info ++ [e]) := by
  obtain ⟨addr, clone⟩ := e
  have entries : (addServer l (addr, clone)).servers = ((info ++ [(addr, clone)]).map newServer).reverse := by
    have head : (addServer l (addr, clone)).servers = newServer (addr, clone) :: l.servers := by
      unfold addServer
      split
      · rfl
      · split <;> rfl
    rw [head, met.entries, map_append, reverse_append]
    rfl
  cases clone with
  | true =>
    refine ⟨entries, ?_, ?_, ?_⟩ <;> simp only [addServer, nonClones_append, if_true, append_nil]
    · exact met.count
    · exact met.chosen
    · exact met.unchosen
  | false =>
    have grown : nonClones (info ++ [(addr, false)]) = nonClones info ++ [addr] := by simp [nonClones_append]
    have count : (addServer l (addr, false)).nServers = (nonClones (info ++ [(addr, false)])).length := by
      simp only [addServer, Bool.false_eq_true, if_false, grown, length_append, length_singleton]
      split <;> simp [met.count]
    refine ⟨entries, count, ?_, ?_⟩ <;> simp only [addServer, grown, Bool.false_eq_true, if_false]
    · intro m
      split
      · rename_i better
        intro chosen
        cases Option.some.inj chosen
        cases picked : l.magicServer with
        | none =>
          obtain ⟨clone, voter⟩ := met.unchosen picked
          cases amIClone with
          | true =>
            obtain ⟨-, empty⟩ := clone rfl
            simp [empty]
          | false =>
            obtain ⟨host, least⟩ := voter rfl
            have below : addr < ame := by rw [host] at better; omega
            refine ⟨by simp, rfl, ?_, fun _ => below⟩
            intro v mem
            rcases List.mem_append.mp mem with old | new
            · exact Nat.le_trans (Nat.le_of_lt below) (least v old)
            · simp only [mem_singleton] at new; omega
        | some m =>
          obtain ⟨inside, host, least, own⟩ := met.chosen m picked
          have below : addr < m := by
            have := known m inside
            omega
          refine ⟨by simp, rfl, ?_, fun voter => Nat.lt_trans below (own voter)⟩
          intro v mem
          rcases List.mem_append.mp mem with old | new
          · exact Nat.le_trans (Nat.le_of_lt below) (least v old)
          · simp only [mem_singleton] at new; omega
      · rename_i worse
        intro chosen
        obtain ⟨inside, host, least, own⟩ := met.chosen m chosen
        refine ⟨by simp [inside], host, ?_, own⟩
        intro v mem
        rcases List.mem_append.mp mem with old | new
        · exact least v old
        · simp only [mem_singleton] at new; omega
    · split
      · intro impossible; cases impossible
      rename_i worse
      intro unpicked
      obtain ⟨clone, voter⟩ := met.unchosen unpicked
      refine ⟨fun own => absurd (.inl (clone own).1) worse, fun own => ⟨(voter own).1, ?_⟩⟩
      have host := (voter own).1
      intro v mem
      rcases List.mem_append.mp mem with old | new
      · exact (voter own).2 v old
      · simp only [mem_singleton] at new; omega

theorem foldl_addServer_met {ame : Nat} (amIClone : Bool) {info : List (Nat × Bool)} (me : ame ≠ 0)
    (valid : ∀ e ∈ info, e.1 ≠ 0) (differs : ∀ e ∈ info, e.1 ≠ ame) :
    (info.foldl addServer { magicHost := if amIClone then 0 else ame }).Met ame amIClone info := by
  induction info using List.reverseRecOn with
  | nil =>
    refine ⟨rfl, rfl, ?_, ?_⟩
    · intro m chosen; cases chosen
    · intro _; cases amIClone <;> simp [nonClones]
  | append_singleton info e ih =>
    rw [foldl_append, foldl_cons, foldl_nil]
    have known : ∀ v ∈ nonClones info, v ≠ 0 := by
      intro v mem
      obtain ⟨e, inside, rfl⟩ := List.mem_map.mp mem
      exact valid e (mem_append_left _ (List.mem_filter.mp inside).1)
    exact addServer_met
      (ih (fun e mem => valid e (mem_append_left _ mem)) fun e mem => differs e (mem_append_left _ mem))
      (valid e (by simp)) known me (differs e (by simp))

end OpenAFS.Ubik
