import OpenAFS.Ubik.Election

namespace OpenAFS.Ubik.Election

open Lib List

variable {cell : Cell}

def Promised (v : VoteState) (m : VoteMsg) : Prop :=
  m.time ≤ v.lastYesTime ∧ (v.lastYesHost = m.host ∨ v.lastYesHost = noHost ∨ m.time + bigTime < v.lastYesTime)

def Backed (cell : Cell) (votes : List VoteMsg) (h : Nat) (since : Int) : Prop :=
  ∃ backers ⊆ cell.voters.toFinset, cell.voters.length < ∑ v ∈ backers, cell.weight v ∧
    ∀ v ∈ backers, ∃ t, since ≤ t ∧ ⟨v, h, t⟩ ∈ votes

structure RoundBacked (cell : Cell) (votes : List VoteMsg) (h : Nat) (r : Round) : Prop where
  once : r.pending.Nodup
  others : h ∉ r.pending
  counted : ∃ backers ⊆ cell.voters.toFinset, (∀ v ∈ backers, v ∉ r.pending ∧ v ≠ h) ∧
    r.yesVotes = ∑ v ∈ backers, cell.weight v ∧ ∀ v ∈ backers, ∃ t, r.oldestYesVote ≤ t ∧ ⟨v, h, t⟩ ∈ votes

structure Inv (cell : Cell) (w : World) : Prop where
  facts : ∀ h ∈ cell.hosts, cell.SiteFacts h (w.site h)
  skew : ∀ h ∈ cell.hosts, ∀ k ∈ cell.hosts, w.clock h ≤ w.clock k + maxSkew
  past : ∀ h ∈ cell.hosts, (w.site h).vote.lastYesTime ≤ w.clock h
  voter : ∀ m ∈ w.votes, m.voter ∈ cell.hosts ∧ m.host ≠ noHost
  promised : ∀ m ∈ w.votes, Promised (w.site m.voter).vote m
  apart : ∀ m ∈ w.votes, ∀ m' ∈ w.votes, m.voter = m'.voter → m.host ≠ m'.host →
    m.time + bigTime < m'.time ∨ m'.time + bigTime < m.time
  round : ∀ h ∈ cell.hosts, ∀ r, (w.site h).round = some r → RoundBacked cell w.votes h r
  lease : ∀ h ∈ cell.hosts, (w.site h).amSyncSite = true → Backed cell w.votes h ((w.site h).syncSiteUntil - smallTime)

variable {votes new : List VoteMsg} {h : Nat} {r : Round} {now : Int} {v : VoteState} {w : World} {s : Site}
  {ts : UbikServer}

theorem Backed.mono {votes' : List VoteMsg} (sub : ∀ m ∈ votes, m ∈ votes') {since : Int}
    (backed : Backed cell votes h since) : Backed cell votes' h since := by
  obtain ⟨backers, voters, heavy, voted⟩ := backed
  refine ⟨backers, voters, heavy, fun v inside => ?_⟩
  obtain ⟨t, late, cast⟩ := voted v inside
  exact ⟨t, late, sub _ cast⟩

theorem RoundBacked.mono {votes' : List VoteMsg} (sub : ∀ m ∈ votes, m ∈ votes')
    (backed : RoundBacked cell votes h r) : RoundBacked cell votes' h r := by
  obtain ⟨once, others, backers, voters, done, sum, voted⟩ := backed
  refine ⟨once, others, backers, voters, done, sum, fun v inside => ?_⟩
  obtain ⟨t, late, cast⟩ := voted v inside
  exact ⟨t, late, sub _ cast⟩

inductive VoteMove (now : Int) (h : Nat) (v v' : VoteState) : List VoteMsg → Prop
  | keep (same : v'.lastYes = v.lastYes) : VoteMove now h v v' []
  | yes {k : Nat} {claim : Int} {state : Bool} {version : UbikVersion} {tid : UbikTid} (valid : k ≠ noHost)
      (allowed : mayVote now k v) (set : v'.lastYes = ⟨now, k, claim, state, version, tid⟩) :
      VoteMove now h v v' [⟨h, k, now⟩]
  | restart (time : v'.lastYesTime = now) (host : v'.lastYesHost = noHost) : VoteMove now h v v' []

theorem VoteMove.past {v' : VoteState} (move : VoteMove now h v v' new)
    (past : v.lastYesTime ≤ now) : v.lastYesTime ≤ v'.lastYesTime ∧ v'.lastYesTime ≤ now := by
  cases move with
  | keep same =>
    have time : v'.lastYesTime = v.lastYesTime := congrArg LastYes.time same
    omega
  | yes _ _ set =>
    have time : v'.lastYesTime = now := congrArg LastYes.time set
    omega
  | restart time _ => omega

theorem VoteMove.promised {v' : VoteState}
    (move : VoteMove now h v v' new) (past : v.lastYesTime ≤ now) {m : VoteMsg} (valid : m.host ≠ noHost)
    (made : Promised v m ∨ m ∈ new) : Promised v' m := by
  cases move with
  | keep same =>
    have host : v'.lastYesHost = v.lastYesHost := congrArg LastYes.host same
    have time : v'.lastYesTime = v.lastYesTime := congrArg LastYes.time same
    rcases made with made | impossible
    · unfold Promised at made ⊢
      rw [host, time]
      exact made
    · cases impossible
  | @yes k _ _ _ _ known allowed set =>
    have host : v'.lastYesHost = k := congrArg LastYes.host set
    have time : v'.lastYesTime = now := congrArg LastYes.time set
    unfold Promised
    rw [host, time]
    rcases made with ⟨before, kept⟩ | new
    · refine ⟨by omega, ?_⟩
      rcases allowed with waited | same
      · exact .inr (.inr (by omega))
      rw [← same] at kept
      rcases kept with kept | lost | waited
      · exact .inl kept
      · exact absurd lost known
      · exact .inr (.inr (by omega))
    · cases List.mem_singleton.mp new
      exact ⟨Int.le_refl _, .inl rfl⟩
  | restart time host =>
    rcases made with ⟨before, -⟩ | impossible
    · exact ⟨by omega, .inr (.inl host)⟩
    · cases impossible

theorem VoteMove.apart {now : Int} {h : Nat} {v v' : VoteState} {new : List VoteMsg} (move : VoteMove now h v v' new)
    (past : v.lastYesTime ≤ now) {m m' : VoteMsg} (kept : Promised v m) (cast : m' ∈ new) (differs : m.host ≠ m'.host) :
    m.time + bigTime < m'.time := by
  cases move with
  | keep _ => cases cast
  | restart _ _ => cases cast
  | yes known allowed _ =>
    cases List.mem_singleton.mp cast
    obtain ⟨before, kept⟩ := kept
    rcases allowed with waited | same
    · simp only
      omega
    rcases kept with kept | lost | waited
    · exact absurd (kept.symm.trans same.symm) differs
    · exact absurd (same.trans lost) known
    · simp only
      omega

theorem Inv.move {w' : World} (inv : Inv cell w) (mem : h ∈ cell.hosts)
    (clock : w'.clock = w.clock) (site : w'.site = Function.update w.site h s) (votes : w'.votes = w.votes ++ new)
    (facts : cell.SiteFacts h s) (move : VoteMove (w.clock h) h (w.site h).vote s.vote new)
    (round : ∀ r, s.round = some r → RoundBacked cell (w.votes ++ new) h r)
    (lease : s.amSyncSite = true → Backed cell (w.votes ++ new) h (s.syncSiteUntil - smallTime)) : Inv cell w' := by
  have grow : ∀ m ∈ w.votes, m ∈ w.votes ++ new := fun m inside => mem_append_left _ inside
  have own : ∀ m ∈ new, m.voter = h ∧ m.host ≠ noHost := by
    intro m cast
    cases move with
    | keep _ => cases cast
    | restart _ _ => cases cast
    | yes known _ _ =>
      cases List.mem_singleton.mp cast
      exact ⟨rfl, known⟩
  have at_h : w'.site h = s := by rw [site, Function.update_self]
  have elsewhere : ∀ k, k ≠ h → w'.site k = w.site k := fun k differs => by
    rw [site, Function.update_of_ne differs]
  constructor
  · intro k inside
    by_cases same : k = h
    · rw [same, at_h]
      exact facts
    · rw [elsewhere k same]
      exact inv.facts k inside
  · rw [clock]
    exact inv.skew
  · intro k inside
    rw [clock]
    by_cases same : k = h
    · rw [same, at_h]
      exact (move.past (inv.past h mem)).2
    · rw [elsewhere k same]
      exact inv.past k inside
  · intro m cast
    rw [votes] at cast
    rcases List.mem_append.mp cast with old | fresh
    · exact inv.voter m old
    · exact ⟨(own m fresh).1 ▸ mem, (own m fresh).2⟩
  · intro m cast
    rw [votes] at cast
    by_cases same : m.voter = h
    · rw [same, at_h]
      have made : Promised (w.site h).vote m ∨ m ∈ new := by
        rcases List.mem_append.mp cast with old | fresh
        · exact .inl (same ▸ inv.promised m old)
        · exact .inr fresh
      have valid : m.host ≠ noHost := by
        rcases List.mem_append.mp cast with old | fresh
        · exact (inv.voter m old).2
        · exact (own m fresh).2
      exact move.promised (inv.past h mem) valid made
    · rw [elsewhere _ same]
      rcases List.mem_append.mp cast with old | fresh
      · exact inv.promised m old
      · exact absurd (own m fresh).1 same
  · have later : ∀ m ∈ w.votes, ∀ m' ∈ new, m.voter = m'.voter → m.host ≠ m'.host → m.time + bigTime < m'.time := by
      intro m old m' fresh voter differs
      have kept : Promised (w.site h).vote m := by
        have := inv.promised m old
        rwa [voter, (own m' fresh).1] at this
      exact move.apart (inv.past h mem) kept fresh differs
    intro m cast m' cast' voter differs
    rw [votes] at cast cast'
    rcases List.mem_append.mp cast with old | fresh
    · rcases List.mem_append.mp cast' with old' | fresh'
      · exact inv.apart m old m' old' voter differs
      · exact .inl (later m old m' fresh' voter differs)
    rcases List.mem_append.mp cast' with old' | fresh'
    · exact .inr (later m' old' m fresh voter.symm differs.symm)
    cases move with
    | keep _ => cases fresh
    | restart _ _ => cases fresh
    | yes _ _ _ =>
      cases List.mem_singleton.mp fresh
      cases List.mem_singleton.mp fresh'
      exact absurd rfl differs
  · intro k inside r running
    rw [votes]
    by_cases same : k = h
    · subst same
      rw [at_h] at running
      exact round r running
    · rw [elsewhere k same] at running
      exact (inv.round k inside r running).mono grow
  · intro k inside sync
    rw [votes]
    by_cases same : k = h
    · subst same
      rw [at_h] at sync ⊢
      exact lease sync
    · rw [elsewhere k same] at sync ⊢
      exact (inv.lease k inside sync).mono grow

theorem startSite_quiet (mem : h ∈ cell.hosts) (now : Int) :
    (startSite cell h now).amSyncSite = false ∧ (startSite cell h now).round = none := by
  have facts := Cell.siteFacts_start mem
  refine ⟨?_, rfl⟩
  have several := cell.several
  obtain ⟨ts, inside, -⟩ := facts.other
  have crowd : (ubeaconInitServerListByInfo h (cell.info h)).nServers ≠ 1 := by
    rw [facts.count]
    omega
  change decide _ = false
  rw [decide_eq_false_iff_not]
  rintro (empty | ⟨single, -⟩)
  · rw [Cell.startServers_eq] at inside
    obtain ⟨ts', inside', -⟩ := List.mem_map.mp inside
    have none : (cell.listInit h).servers = [] := List.isEmpty_iff.mp empty
    rw [none] at inside'
    cases inside'
  · exact crowd single

theorem startSite_facts (mem : h ∈ cell.hosts) (now : Int) : cell.SiteFacts h (startSite cell h now) :=
  (Cell.siteFacts_start mem).congr rfl rfl rfl rfl rfl

theorem inv_start (start : Start cell w) : Inv cell w := by
  obtain ⟨sites, clocks, -, votes⟩ := start
  constructor
  · intro h mem
    rw [sites h mem]
    exact startSite_facts mem _
  · exact clocks.2
  · intro h mem
    rw [sites h mem]
    exact Int.le_refl _
  · simp [votes]
  · simp [votes]
  · simp [votes]
  · intro h mem r running
    rw [sites h mem, (startSite_quiet mem _).2] at running
    cases running
  · intro h mem sync
    rw [sites h mem, (startSite_quiet mem _).1] at sync
    cases sync

theorem afterAmSyncSite_cases (now : Int) (s : Site) :
    afterAmSyncSite now s = s ∨ afterAmSyncSite now s = { s with amSyncSite := false } := by
  unfold afterAmSyncSite
  split
  · exact .inl rfl
  split
  · exact .inl rfl
  · split
    · exact .inr rfl
    · exact .inl rfl

theorem Inv.afterAmSyncSite (inv : Inv cell w) (mem : h ∈ cell.hosts) (now : Int) :
    Inv cell (w.setSite h (afterAmSyncSite now (w.site h))) := by
  rcases afterAmSyncSite_cases now (w.site h) with same | gone
  · rw [same]
    exact inv.move mem rfl rfl (append_nil _).symm (inv.facts h mem) (.keep rfl)
      (by simpa using inv.round h mem) (by simpa using inv.lease h mem)
  · rw [gone]
    exact inv.move mem rfl rfl (append_nil _).symm ((inv.facts h mem).congr rfl rfl rfl rfl rfl)
      (.keep rfl) (by simpa using inv.round h mem) (by simp)

theorem primary_cases (servers : List UbikServer) (addr : Nat) : ubikGetPrimaryInterfaceAddr servers addr = 0 ∨
      (ubikGetPrimaryInterfaceAddr servers addr = addr ∧ ∃ ts ∈ servers, ts.addr = addr) := by
  unfold ubikGetPrimaryInterfaceAddr
  cases found : servers.find? (fun ts => ts.addr = addr) with
  | none => exact .inl rfl
  | some ts =>
    have named := find?_some found
    simp only [decide_eq_true_eq] at named
    exact .inr ⟨named, ts, mem_of_find?_eq_some found, named⟩

theorem SiteFacts.exists_other (facts : cell.SiteFacts h s) : ∃ ts ∈ s.servers, ts.addr ≠ s.ubikHost ∧ ts.isClone = false := by
  obtain ⟨ts, inside, clone⟩ := facts.other
  refine ⟨ts, inside, ?_, clone⟩
  rw [facts.host]
  exact (facts.entries ts inside).other

def VoteOutcome (now : Int) (voter host : Nat) (claim : Int) (state : Bool) (v : VoteState) (reply : BeaconReply) : Prop :=
  (cast voter host reply = [] ∧ reply.state.lastYes = v.lastYes) ∨
  (cast voter host reply = [⟨voter, host, now⟩] ∧ host ≠ noHost ∧ mayVote now host v ∧
    ∃ version tid, reply.state.lastYes = ⟨now, host, claim, state, version, tid⟩)

theorem VoteOutcome.move {voter host : Nat} {claim : Int} {state : Bool}
    {reply : BeaconReply} (outcome : VoteOutcome now voter host claim state v reply) :
    VoteMove now voter v reply.state (cast voter host reply) := by
  rcases outcome with ⟨none, same⟩ | ⟨one, valid, allowed, version, tid, set⟩
  · rw [none]
    exact .keep same
  · rw [one]
    exact .yes valid allowed set

theorem voteOn_outcome (facts : cell.SiteFacts h s) (now : Int) {host : Nat}
    (valid : host ≠ noHost) (isClone astate : Bool) (astart : Int) (avers : UbikVersion) (atid : UbikTid)
    (voter : Nat) :
    VoteOutcome now voter host astart astate s.vote
      (voteOn s.ubikHost s.amIClone s.servers now host isClone astate astart avers atid s.vote) := by
  rcases voteOn_cases (SiteFacts.exists_other facts) s.amIClone now host isClone astate astart avers atid s.vote with
    ⟨-, silent, same⟩ | ⟨vote, spoke, -, allowed, set⟩
  · exact .inl ⟨by simp [cast, silent], same⟩
  · exact .inr ⟨by simp [cast, spoke, vote], valid, allowed, avers, atid, set⟩

theorem voteAt_outcome (inv : Inv cell w) {m : BeaconMsg} (mem : m.dst ∈ cell.hosts) :
    VoteOutcome (w.clock m.dst) m.dst m.src m.startTime m.syncsite (w.site m.dst).vote (voteAt w m) := by
  have facts := inv.facts m.dst mem
  unfold voteAt svoteBeacon
  dsimp only
  rcases primary_cases (w.site m.dst).servers m.src with unknown | ⟨found, ts, inside, named⟩
  · rw [unknown, if_pos rfl]
    exact .inl ⟨rfl, rfl⟩
  have valid := (facts.entries ts inside).valid
  rw [named] at valid
  rw [found, if_neg valid.1]
  exact voteOn_outcome facts _ valid.2 ..

theorem ownVote_outcome (inv : Inv cell w) (mem : h ∈ cell.hosts) (version : UbikVersion) (r : Round) :
    VoteOutcome (w.clock h) h h r.startTime (ubeaconAmSyncSite (w.clock h) (w.site h)) (w.site h).vote
      (ownVote (w.clock h) version (w.site h) r) := by
  have facts := inv.facts h mem
  have valid : h ≠ noHost := by
    obtain ⟨e, listed, own⟩ := List.mem_map.mp (cell.listed h mem).2
    exact own ▸ (cell.valid h mem e listed).2
  have outcome := voteOn_outcome facts (w.clock h) valid (w.site h).amIClone
    (ubeaconAmSyncSite (w.clock h) (w.site h)) r.startTime version r.tid h
  simpa only [ownVote, svoteBeacon, facts.host] using outcome

@[simp] theorem noteReply_fixedPart (now code : Int) (ts : UbikServer) : fixedPart (noteReply now code ts) = fixedPart ts := by
  unfold noteReply
  split
  · rfl
  · split <;> rfl

theorem noteReplies_fixedPart (now code : Int) (peer : Nat) (servers : List UbikServer) :
    (servers.map fun ts => if ts.addr = peer then noteReply now code ts else ts).map fixedPart = servers.map fixedPart := by
  rw [map_map]
  apply map_congr_left
  intro ts _
  simp only [Function.comp]
  split
  · exact noteReply_fixedPart now code ts
  · rfl

theorem RoundBacked.asked (facts : cell.SiteFacts h s) (votes : List VoteMsg) (startTime : Int)
    (syncsite : Bool) (tid : UbikTid) :
    RoundBacked cell votes h
      { startTime := startTime, syncsite := syncsite, tid := tid,
        pending := (s.servers.filter fun ts => ts.up ∧ ts.addr ≠ s.ubikHost).map UbikServer.addr } := by
  refine ⟨facts.distinct.sublist (List.filter_sublist.map _), ?_, ∅, by simp, by simp, by simp, by simp⟩
  intro inside
  obtain ⟨ts, kept, own⟩ := List.mem_map.mp inside
  exact (facts.entries ts (List.mem_filter.mp kept).1).other own

theorem answer_weight (facts : cell.EntryFacts h ts) :
    (if ts.isClone then 0 else 2) + (if ts.magic then 1 else 0) = if ts.addr ∈ cell.voters then cell.weight ts.addr else 0 := by
  by_cases voter : ts.addr ∈ cell.voters
  · have clone := facts.clone.mpr voter
    by_cases magic : ts.addr = cell.magicHost
    · simp [voter, clone, facts.magic.mpr magic, Cell.weight, ← magic]
    · have plain : ts.magic = false := by simpa using mt facts.magic.mp magic
      simp [voter, clone, plain, Cell.weight, magic]
  have clone : ts.isClone = true := by simpa using mt facts.clone.mp voter
  have plain : ts.magic = false := by
    have differs : ts.addr ≠ cell.magicHost := fun same => voter (same ▸ Cell.magicHost_mem)
    simpa using mt facts.magic.mp differs
  simp [voter, clone, plain]

theorem RoundBacked.reply {peer : Nat} {code : Int}
    (backed : RoundBacked cell votes h r) (facts : cell.EntryFacts h ts) (addr : ts.addr = peer)
    (waited : peer ∈ r.pending) (answer : code ≤ 0 ∨ ⟨peer, h, code⟩ ∈ votes) :
    RoundBacked cell votes h { countReply code ts r with pending := r.pending.erase peer } := by
  obtain ⟨once, others, backers, voters, done, sum, voted⟩ := backed
  have erased : ∀ v, v ∉ r.pending → v ∉ r.pending.erase peer := fun v out inside => out (mem_of_mem_erase inside)
  have peerGone : peer ∉ r.pending.erase peer := once.not_mem_erase
  refine ⟨once.erase peer, erased h others, ?_⟩
  by_cases yes : 0 < code
  · have known : ⟨peer, h, code⟩ ∈ votes := answer.resolve_left (by omega)
    have counts := answer_weight facts
    have least : (countReply code ts r).oldestYesVote ≤ code ∧ (countReply code ts r).oldestYesVote ≤ r.oldestYesVote := by
      simp only [countReply, if_pos yes]
      split <;> omega
    have total : (countReply code ts r).yesVotes = r.yesVotes + if ts.addr ∈ cell.voters then cell.weight ts.addr else 0 := by
      simp only [countReply, if_pos yes]
      omega
    by_cases voter : ts.addr ∈ cell.voters
    · have fresh : peer ∉ backers := fun inside => (done peer inside).1 waited
      refine ⟨insert peer backers, ?_, ?_, ?_, ?_⟩
      · exact Finset.insert_subset (List.mem_toFinset.mpr (addr ▸ voter)) voters
      · intro v inside
        rcases Finset.mem_insert.mp inside with rfl | old
        · exact ⟨peerGone, addr ▸ facts.other⟩
        · exact ⟨erased v (done v old).1, (done v old).2⟩
      · rw [Finset.sum_insert fresh, ← sum, ← addr, Nat.add_comm, total, if_pos voter]
      · intro v inside
        rcases Finset.mem_insert.mp inside with rfl | old
        · exact ⟨code, least.1, known⟩
        · obtain ⟨t, late, cast⟩ := voted v old
          exact ⟨t, Int.le_trans least.2 late, cast⟩
    · refine ⟨backers, voters, fun v inside => ⟨erased v (done v inside).1, (done v inside).2⟩, ?_, ?_⟩
      · rw [total, if_neg voter]
        exact sum
      · intro v inside
        obtain ⟨t, late, cast⟩ := voted v inside
        exact ⟨t, Int.le_trans least.2 late, cast⟩
  · have same : countReply code ts r = r := by simp [countReply, yes]
    rw [same]
    exact ⟨backers, voters, fun v inside => ⟨erased v (done v inside).1, (done v inside).2⟩, sum, voted⟩

theorem ownVote_cases (facts : cell.SiteFacts h s) (now : Int) (version : UbikVersion) (r : Round) :
    (ownVote now version s r).vote = 0 ∨
      ((ownVote now version s r).vote = now ∧ (ownVote now version s r).checkTid = true ∧ h ∈ cell.voters ∧
        2 + (if s.amIMagic then 1 else 0) = cell.weight h) := by
  rcases voteOn_cases (SiteFacts.exists_other facts) s.amIClone now s.ubikHost s.amIClone (ubeaconAmSyncSite now s) r.startTime version r.tid
    s.vote with ⟨none, -⟩ | ⟨vote, spoke, clone, -⟩
  · exact .inl none
  refine .inr ⟨vote, spoke, facts.clone.mp clone, ?_⟩
  by_cases magic : h = cell.magicHost
  · simp [facts.magic.mpr magic, Cell.weight, magic]
  · have plain : s.amIMagic = false := by simpa using mt facts.magic.mp magic
    simp [plain, Cell.weight, magic]

theorem RoundBacked.finish (facts : cell.SiteFacts h s) (backed : RoundBacked cell votes h r) (now : Int) (version : UbikVersion)
    (enough : s.nServers < (countOwn s.amIMagic (ownVote now version s r).vote r).yesVotes) :
    Backed cell (votes ++ cast h h (ownVote now version s r)) h
      (countOwn s.amIMagic (ownVote now version s r).vote r).oldestYesVote := by
  obtain ⟨-, -, backers, voters, done, sum, voted⟩ := backed
  rw [facts.count] at enough
  by_cases silent : (ownVote now version s r).vote = 0
  · have same : countOwn s.amIMagic (ownVote now version s r).vote r = r := by simp [countOwn, silent]
    rw [same] at enough ⊢
    refine ⟨backers, voters, by omega, fun v inside => ?_⟩
    obtain ⟨t, late, cast⟩ := voted v inside
    exact ⟨t, late, mem_append_left _ cast⟩
  obtain ⟨vote, spoke, voter, counts⟩ := (ownVote_cases facts now version r).resolve_left silent
  have fresh : h ∉ backers := fun inside => (done h inside).2 rfl
  have total : (countOwn s.amIMagic (ownVote now version s r).vote r).yesVotes = r.yesVotes + cell.weight h := by
    simp only [countOwn, if_pos silent]
    omega
  have least : (countOwn s.amIMagic (ownVote now version s r).vote r).oldestYesVote ≤ (ownVote now version s r).vote ∧
      (countOwn s.amIMagic (ownVote now version s r).vote r).oldestYesVote ≤ r.oldestYesVote := by
    simp only [countOwn, if_pos silent]
    split <;> omega
  refine ⟨insert h backers, Finset.insert_subset (List.mem_toFinset.mpr voter) voters, ?_, ?_⟩
  · rw [Finset.sum_insert fresh]
    omega
  intro v inside
  rcases Finset.mem_insert.mp inside with rfl | old
  · exact ⟨_, least.1, mem_append_right _ (by simp [cast, spoke])⟩
  · obtain ⟨t, late, cast⟩ := voted v old
    exact ⟨t, Int.le_trans least.2 late, mem_append_left _ cast⟩

theorem Inv.tick (inv : Inv cell w) {clock : Nat → Int} (follow : ClocksFollow cell w.clock clock) :
    Inv cell { w with clock := clock } where
  facts := inv.facts
  skew := follow.2
  past h mem := Int.le_trans (inv.past h mem) (follow.1 h mem)
  voter := inv.voter
  promised := inv.promised
  apart := inv.apart
  round := inv.round
  lease := inv.lease

theorem Inv.beaconsChange (inv : Inv cell w) (beacons : List BeaconMsg) : Inv cell { w with beacons := beacons } where
  facts := inv.facts
  skew := inv.skew
  past := inv.past
  voter := inv.voter
  promised := inv.promised
  apart := inv.apart
  round := inv.round
  lease := inv.lease

theorem Inv.ask (inv : Inv cell w) (mem : h ∈ cell.hosts) (tid : UbikTid) (beacons : List BeaconMsg) :
    Inv cell { w.setSite h (ubeaconAsk (w.clock h) tid (w.site h)) with beacons := beacons } := by
  have facts := inv.facts h mem
  have opened : ∀ r, (ubeaconAsk (w.clock h) tid (w.site h)).round = some r → RoundBacked cell (w.votes ++ []) h r := by
    intro r running
    cases running
    rw [append_nil]
    exact .asked facts w.votes ..
  rcases afterAmSyncSite_cases (w.clock h) (w.site h) with same | gone
  · refine inv.move mem rfl rfl (append_nil _).symm ?_ ?_ opened ?_ <;> simp only [ubeaconAsk, same]
    · exact facts.congr rfl rfl rfl rfl rfl
    · exact .keep rfl
    · simpa using inv.lease h mem
  refine inv.move mem rfl rfl (append_nil _).symm ?_ ?_ opened ?_ <;> simp only [ubeaconAsk, gone]
  · exact facts.congr rfl rfl rfl rfl rfl
  · exact .keep rfl
  · intro impossible
    cases impossible

theorem Inv.beacon (inv : Inv cell w) {m : BeaconMsg} (mem : m.dst ∈ cell.hosts) (beacons : List BeaconMsg) :
    Inv cell { w.setSite m.dst { w.site m.dst with vote := (voteAt w m).state } with
      beacons := beacons, votes := w.votes ++ cast m.dst m.src (voteAt w m) } :=
  have grow : ∀ v ∈ w.votes, v ∈ w.votes ++ cast m.dst m.src (voteAt w m) :=
    fun _ inside => mem_append_left _ inside
  inv.move mem rfl rfl rfl ((inv.facts m.dst mem).congr rfl rfl rfl rfl rfl) (voteAt_outcome inv mem).move
    (fun r running => (inv.round m.dst mem r running).mono grow)
    (fun sync => (inv.lease m.dst mem sync).mono grow)

theorem Inv.reply (inv : Inv cell w) {peer : Nat} (mem : h ∈ cell.hosts) {code : Int} (running : (w.site h).round = some r)
    (found : (w.site h).servers.find? (fun ts => ts.addr = peer) = some ts) (waited : peer ∈ r.pending)
    (answer : code ≤ 0 ∨ ⟨peer, h, code⟩ ∈ w.votes) :
    Inv cell (w.setSite h (ubeaconReply (w.clock h) peer code (w.site h) r ts)) := by
  have facts := inv.facts h mem
  have entry := facts.entries ts (mem_of_find?_eq_some found)
  have addr : ts.addr = peer := by simpa using find?_some found
  refine inv.move mem rfl rfl (append_nil _).symm ?_ ?_ ?_ ?_
  · exact facts.congr rfl rfl rfl rfl (noteReplies_fixedPart ..)
  · exact .keep rfl
  · intro r' later
    cases later
    rw [append_nil]
    exact (inv.round h mem r running).reply entry addr waited answer
  · simpa [ubeaconReply] using inv.lease h mem

theorem Inv.finish (inv : Inv cell w) (mem : h ∈ cell.hosts) (version : UbikVersion) (running : (w.site h).round = some r) :
    Inv cell { w.setSite h (ubeaconFinish (w.clock h) version (w.site h) r) with
      votes := w.votes ++ cast h h (ownVote (w.clock h) version (w.site h) r) } := by
  have facts := inv.facts h mem
  refine inv.move mem rfl rfl rfl ?_ ?_ ?_ ?_ <;> unfold ubeaconFinish <;> dsimp only
  · split
    · exact facts.congr rfl rfl rfl rfl rfl
    · exact facts.congr rfl rfl rfl rfl rfl
  · split
    · exact (ownVote_outcome inv mem version r).move
    · exact (ownVote_outcome inv mem version r).move
  · intro r' later
    split at later <;> cases later
  · split
    · rename_i enough
      intro _
      have backed := (inv.round h mem r running).finish facts (w.clock h) version enough
      simpa using backed
    · intro impossible
      cases impossible

theorem Inv.restart (inv : Inv cell w) (mem : h ∈ cell.hosts) : Inv cell (w.setSite h (startSite cell h (w.clock h))) := by
  obtain ⟨noMandate, noRound⟩ := startSite_quiet mem (w.clock h)
  refine inv.move mem rfl rfl (append_nil _).symm ?_ ?_ ?_ ?_
  · exact startSite_facts mem _
  · exact .restart rfl rfl
  · simp [noRound]
  · simp [noMandate]

theorem Inv.flags (inv : Inv cell w) (mem : h ∈ cell.hosts) {servers : List UbikServer}
    (fixed : servers.map fixedPart = (w.site h).servers.map fixedPart) :
    Inv cell (w.setSite h { w.site h with servers := servers }) :=
  inv.move mem rfl rfl (append_nil _).symm ((inv.facts h mem).congr rfl rfl rfl rfl fixed)
    (.keep rfl) (by simpa using inv.round h mem) (by simpa using inv.lease h mem)

theorem Inv.step {w' : World} {a : Action} (inv : Inv cell w) (taken : step cell w a = some w') : Inv cell w' := by
  cases a with
  | tick clock =>
    obtain ⟨follow, taken⟩ := Option.ite_none_right_eq_some.mp taken
    cases taken
    exact inv.tick follow
  | ask h version tid =>
    simp only [Election.step, Option.ite_none_right_eq_some, Option.some.injEq] at taken
    obtain ⟨⟨mem, -⟩, rfl⟩ := taken
    exact inv.ask mem tid _
  | beacon m =>
    simp only [Election.step, Option.ite_none_right_eq_some, Option.some.injEq] at taken
    obtain ⟨⟨mem, -⟩, rfl⟩ := taken
    exact inv.beacon mem _
  | lose m =>
    cases taken
    exact inv.beaconsChange _
  | reply h peer code =>
    simp only [Election.step] at taken
    split at taken
    · rename_i r ts running found
      obtain ⟨⟨mem, waited, answer⟩, taken⟩ := Option.ite_none_right_eq_some.mp taken
      cases taken
      exact inv.reply mem running found waited answer
    · cases taken
  | finish h version =>
    simp only [Election.step] at taken
    split at taken
    · rename_i r running
      obtain ⟨⟨mem, -⟩, taken⟩ := Option.ite_none_right_eq_some.mp taken
      cases taken
      exact inv.finish mem version running
    · cases taken
  | amSyncSite h =>
    obtain ⟨mem, taken⟩ := Option.ite_none_right_eq_some.mp taken
    cases taken
    exact inv.afterAmSyncSite mem _
  | restart h =>
    obtain ⟨mem, taken⟩ := Option.ite_none_right_eq_some.mp taken
    cases taken
    exact inv.restart mem
  | flags h servers =>
    obtain ⟨⟨mem, fixed⟩, taken⟩ := Option.ite_none_right_eq_some.mp taken
    cases taken
    exact inv.flags mem fixed

theorem inv_reach {guard : World → Action → Prop} (reached : (machine cell).ReachWhere guard w) : Inv cell w := by
  have base : ∀ s, (machine cell).start s → Inv cell s := fun _ start => inv_start start
  have keep : ∀ s a s', Inv cell s → guard s a → (machine cell).step s a = some s' → Inv cell s' :=
    fun _ _ _ inv _ taken => inv.step taken
  exact reached.invariant base keep

theorem Inv.backings_apart (inv : Inv cell w) {a b : Nat} (differs : a ≠ b) {since since' : Int}
    (left : Backed cell w.votes a since) (right : Backed cell w.votes b since') :
    ∃ v ∈ cell.hosts, since + bigTime < w.clock v ∨ since' + bigTime < w.clock v := by
  obtain ⟨backers, voters, heavy, voted⟩ := left
  obtain ⟨backers', voters', heavy', voted'⟩ := right
  have total := @Cell.sum_weight cell
  obtain ⟨v, inside, inside'⟩ := exists_common_of_weight cell.weight voters voters' (by omega)
  obtain ⟨t, late, cast⟩ := voted v inside
  obtain ⟨t', late', cast'⟩ := voted' v inside'
  have mem := (inv.voter _ cast).1
  have before := (inv.promised _ cast).1
  have before' := (inv.promised _ cast').1
  have now := inv.past v mem
  refine ⟨v, mem, ?_⟩
  rcases inv.apart _ cast _ cast' rfl differs with earlier | later
  · left
    simp only at earlier before'
    omega
  · right
    simp only at later before
    omega

theorem amSyncSite_of_passes (inv : Inv cell w) (mem : h ∈ cell.hosts) (passes : w.passes h) :
    (w.site h).amSyncSite = true ∧ w.clock h < (w.site h).syncSiteUntil := by
  have count := (inv.facts h mem).count
  have several := cell.several
  unfold World.passes ubeaconAmSyncSite at passes
  split at passes
  · rename_i single
    omega
  split at passes
  · cases passes
  rename_i mandate
  split at passes
  · cases passes
  · rename_i lasting
    exact ⟨by simpa using fun off => mandate (.inl off), Int.not_le.mp lasting⟩

/-- At no moment do two servers of a cell both pass `ubeacon_AmSyncSite`. -/
theorem one_sync_site {w : World} (reached : (machine cell).Reach w) {a b : Nat} (ha : a ∈ cell.hosts)
    (hb : b ∈ cell.hosts) (differs : a ≠ b) : ¬ (w.passes a ∧ w.passes b) := by
  rintro ⟨passesA, passesB⟩
  have inv := inv_reach reached
  obtain ⟨mandateA, untilA⟩ := amSyncSite_of_passes inv ha passesA
  obtain ⟨mandateB, untilB⟩ := amSyncSite_of_passes inv hb passesB
  obtain ⟨v, mem, far⟩ := inv.backings_apart differs (inv.lease a ha mandateA) (inv.lease b hb mandateB)
  have skewA := inv.skew v mem a ha
  have skewB := inv.skew v mem b hb
  simp only [maxSkew, smallTime, bigTime] at *
  omega

def threeServers : Cell := .ofVoters [1, 2, 3] (by decide) (by decide) (by decide)

def electLowest : List Action :=
  [.tick fun _ => 80, .ask 1 ⟨0, 0⟩ ⟨0, 0⟩, .beacon ⟨1, 2, false, 80, ⟨0, 0⟩, ⟨0, 0⟩⟩,
   .lose ⟨1, 3, false, 80, ⟨0, 0⟩, ⟨0, 0⟩⟩, .reply 1 2 80, .reply 1 3 (-1), .finish 1 ⟨0, 0⟩]

def elected : World := ((machine threeServers).run (freshWorld threeServers 0) electLowest).get (by decide +kernel)

theorem elected_reach : (machine threeServers).Reach elected :=
  (freshWorld_reach threeServers 0).run (Option.some_get _).symm

theorem one_sync_site_elected : elected.passes 1 ∧ ¬ (elected.passes 1 ∧ elected.passes 2) :=
  ⟨by decide +kernel, one_sync_site elected_reach (by decide) (by decide) (by decide)⟩

/-- While a server passes `ubeacon_AmSyncSite`, voters of more than half of the weight refuse every other candidate. -/
theorem sync_site_promised (reached : (machine cell).Reach w) (mem : h ∈ cell.hosts) (passes : w.passes h) :
    ∃ backers ⊆ cell.voters.toFinset, cell.voters.length < ∑ v ∈ backers, cell.weight v ∧
      ∀ v ∈ backers, ∀ other, other ≠ h → other ≠ noHost → ¬ mayVote (w.clock v) other (w.site v).vote := by
  have inv := inv_reach reached
  obtain ⟨mandate, lasting⟩ := amSyncSite_of_passes inv mem passes
  obtain ⟨backers, voters, heavy, voted⟩ := inv.lease h mem mandate
  refine ⟨backers, voters, heavy, fun v inside other differs known => ?_⟩
  obtain ⟨t, late, cast⟩ := voted v inside
  have here := (inv.voter _ cast).1
  have skew := inv.skew v here h mem
  have past := inv.past v here
  obtain ⟨since, kept⟩ := inv.promised _ cast
  dsimp only at since kept
  simp only [maxSkew, smallTime, bigTime] at *
  rintro (expired | rfl)
  · simp only [bigTime] at expired
    omega
  rcases kept with same | restarted | turned
  · exact differs same
  · exact known restarted
  · omega

theorem sync_site_promised_elected :
    ∃ backers ⊆ threeServers.voters.toFinset, threeServers.voters.length < ∑ v ∈ backers, threeServers.weight v ∧
      ∀ v ∈ backers, ∀ other, other ≠ 1 → other ≠ noHost → ¬ mayVote (elected.clock v) other (elected.site v).vote :=
  sync_site_promised elected_reach (by decide) (by decide +kernel)

end OpenAFS.Ubik.Election
