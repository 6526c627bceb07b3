import OpenAFS.Ubik.ElectionSafety

namespace OpenAFS.Ubik.Election

open Lib List

variable {cell : Cell}

def Claims (cell : Cell) (w : World) (host : Nat) (start : Int) : Prop :=
  (∃ v ∈ cell.hosts, (w.site v).vote.lastYesState = true ∧ (w.site v).vote.lastYesHost = host ∧
    (w.site v).vote.lastYesClaim = start ∧ w.clock v ≤ smallTime + start) ∨
  ∃ m ∈ w.beacons, m.dst ∈ cell.hosts ∧ m.syncsite = true ∧ m.src = host ∧ m.startTime = start ∧ w.clock m.dst ≤ smallTime + start

def openClaims (cell : Cell) (w : World) : List (Nat × Int) :=
  ((cell.hosts.filter fun v => (w.site v).vote.lastYesState ∧ w.clock v ≤ smallTime + (w.site v).vote.lastYesClaim).map
    fun v => ((w.site v).vote.lastYesHost, (w.site v).vote.lastYesClaim)) ++
  (w.beacons.filter fun m => m.dst ∈ cell.hosts ∧ m.syncsite ∧ w.clock m.dst ≤ smallTime + m.startTime).map
    fun m => (m.src, m.startTime)

variable {w w' : World} {host h : Nat} {start : Int} {s : Site}

theorem mem_openClaims : (host, start) ∈ openClaims cell w ↔ Claims cell w host start := by
  simp only [openClaims, Claims, mem_append, mem_map, mem_filter, decide_eq_true_eq, Prod.mk.injEq]
  constructor
  · rintro (⟨v, ⟨inside, state, lasts⟩, rfl, rfl⟩ | ⟨m, ⟨flying, inside, state, lasts⟩, rfl, rfl⟩)
    · exact .inl ⟨v, inside, state, rfl, rfl, lasts⟩
    · exact .inr ⟨m, flying, inside, state, rfl, rfl, lasts⟩
  · rintro (⟨v, inside, state, rfl, rfl, lasts⟩ | ⟨m, flying, inside, state, rfl, rfl, lasts⟩)
    · exact .inl ⟨v, ⟨inside, state, lasts⟩, rfl, rfl⟩
    · exact .inr ⟨m, ⟨flying, inside, state, lasts⟩, rfl, rfl⟩

/-- When `voter` turns from another host to `host`, none of the claims that its last yes may have backed
    is left. A server that has restarted may have backed anyone's. -/
def MayTurn (cell : Cell) (w : World) (voter host : Nat) : Prop :=
  (w.site voter).vote.lastYesHost = host ∨
  ∀ c ∈ openClaims cell w, c.1 ≠ host → ((w.site voter).vote.lastYesHost = c.1 ∨ (w.site voter).vote.lastYesHost = noHost) →
    (w.site voter).vote.lastYesTime + smallTime ≤ c.2

instance (cell : Cell) (w : World) (voter host : Nat) : Decidable (MayTurn cell w voter host) :=
  inferInstanceAs (Decidable (_ ∨ _))

def TurnsInTime (cell : Cell) (w : World) : Action → Prop
  | .beacon m => (voteAt w m).checkTid = true → MayTurn cell w m.dst m.src
  | .finish h version =>
    ∀ r ∈ (w.site h).round, (ownVote (w.clock h) version (w.site h) r).checkTid = true → MayTurn cell w h h
  | _ => True

instance (cell : Cell) (w : World) : (a : Action) → Decidable (TurnsInTime cell w a)
  | .beacon _ => inferInstanceAs (Decidable (_ → _))
  | .finish _ _ => inferInstanceAs (Decidable (∀ r ∈ _, _ → _))
  | .tick _ | .ask _ _ _ | .lose _ | .reply _ _ _ | .amSyncSite _ | .restart _ | .flags _ _ => isTrue trivial

def Claimed (cell : Cell) (votes : List VoteMsg) (host : Nat) (start : Int) : Prop :=
  ∃ backers ⊆ cell.voters.toFinset, cell.voters.length < ∑ v ∈ backers, cell.weight v ∧
    ∀ v ∈ backers, ∃ t, start < t + smallTime ∧ ⟨v, host, t⟩ ∈ votes ∧
      ∀ m ∈ votes, m.voter = v → m.host ≠ host → m.time + bigTime < t

structure ClaimInv (cell : Cell) (w : World) : Prop where
  remembered : ∀ h ∈ cell.hosts, (w.site h).vote.lastYesHost ≠ noHost →
    ⟨h, (w.site h).vote.lastYesHost, (w.site h).vote.lastYesTime⟩ ∈ w.votes
  began : ∀ h ∈ cell.hosts, ∀ r, (w.site h).round = some r → r.startTime ≤ w.clock h
  claimed : ∀ host start, Claims cell w host start → Claimed cell w.votes host start

theorem claimed_of_passes (inv : Inv cell w) (mem : h ∈ cell.hosts) (passes : w.passes h)
    (past : start ≤ w.clock h) : Claimed cell w.votes h start := by
  obtain ⟨mandate, lasting⟩ := amSyncSite_of_passes inv mem passes
  obtain ⟨backers, voters, heavy, voted⟩ := inv.lease h mem mandate
  refine ⟨backers, voters, heavy, fun v inside => ?_⟩
  obtain ⟨t, late, cast⟩ := voted v inside
  refine ⟨t, by omega, cast, fun m gone voter differs => ?_⟩
  have known := (inv.voter m gone).1
  have now := Int.le_trans (inv.promised m gone).1 (inv.past _ known)
  have skew := inv.skew _ known h mem
  rcases inv.apart m gone _ cast voter differs with before | after
  · exact before
  · simp only [maxSkew, smallTime, bigTime] at *
    omega

theorem Claimed.vote (inv : Inv cell w) (known : ClaimInv cell w) {voter other : Nat}
    (mem : voter ∈ cell.hosts) (valid : host ≠ noHost) (turns : MayTurn cell w voter host)
    (open' : Claims cell w other start) (now : Int) :
    Claimed cell (w.votes ++ [⟨voter, host, now⟩]) other start := by
  obtain ⟨backers, voters, heavy, voted⟩ := known.claimed other start open'
  refine ⟨backers, voters, heavy, fun v inside => ?_⟩
  obtain ⟨t, late, cast, kept⟩ := voted v inside
  refine ⟨t, late, mem_append_left _ cast, fun m said own differs => ?_⟩
  rcases List.mem_append.mp said with old | new
  · exact kept m old own differs
  cases List.mem_singleton.mp new
  subst own
  exfalso
  have made := (inv.promised _ cast).1
  simp only at made
  have lastYes := known.remembered voter mem
  by_cases again : (w.site voter).vote.lastYesHost = host
  · have before := kept _ (lastYes (again ▸ valid)) rfl (again ▸ differs)
    simp only [bigTime] at before
    omega
  by_cases same : (w.site voter).vote.lastYesHost = other ∨ (w.site voter).vote.lastYesHost = noHost
  · have waited := (turns.resolve_left again) _ (mem_openClaims.mpr open') differs.symm same
    omega
  simp only [not_or] at same
  have before := kept _ (lastYes same.2) rfl same.1
  simp only [bigTime] at before
  omega

theorem Claimed.same {votes : List VoteMsg} (claimed : Claimed cell votes host start)
    (voter : Nat) (now : Int) : Claimed cell (votes ++ [⟨voter, host, now⟩]) host start := by
  obtain ⟨backers, voters, heavy, voted⟩ := claimed
  refine ⟨backers, voters, heavy, fun v inside => ?_⟩
  obtain ⟨t, late, cast, kept⟩ := voted v inside
  refine ⟨t, late, mem_append_left _ cast, fun m said own differs => ?_⟩
  rcases List.mem_append.mp said with old | new
  · exact kept m old own differs
  · cases List.mem_singleton.mp new
    exact absurd rfl differs

theorem ClaimInv.move (known : ClaimInv cell w) {new : List VoteMsg}
    (clock : w'.clock = w.clock) (site : w'.site = Function.update w.site h s) (votes : w'.votes = w.votes ++ new)
    (remembered : s.vote.lastYesHost ≠ noHost → ⟨h, s.vote.lastYesHost, s.vote.lastYesTime⟩ ∈ w.votes ++ new)
    (began : ∀ r, s.round = some r → r.startTime ≤ w.clock h)
    (keep : ∀ host start, Claims cell w host start → Claimed cell (w.votes ++ new) host start)
    (own : h ∈ cell.hosts → s.vote.lastYesState = true → w.clock h ≤ smallTime + s.vote.lastYesClaim →
      Claimed cell (w.votes ++ new) s.vote.lastYesHost s.vote.lastYesClaim)
    (sent : ∀ m ∈ w'.beacons, m ∈ w.beacons ∨
      (m.syncsite = true → Claimed cell (w.votes ++ new) m.src m.startTime)) : ClaimInv cell w' := by
  have at_h : w'.site h = s := by rw [site, Function.update_self]
  have elsewhere : ∀ k, k ≠ h → w'.site k = w.site k := fun k differs => by
    rw [site, Function.update_of_ne differs]
  constructor
  · intro k inside voted
    rw [votes]
    by_cases same : k = h
    · subst same
      rw [at_h] at voted ⊢
      exact remembered voted
    · rw [elsewhere k same] at voted ⊢
      exact mem_append_left _ (known.remembered k inside voted)
  · intro k inside r running
    rw [clock]
    by_cases same : k = h
    · subst same
      rw [at_h] at running
      exact began r running
    · rw [elsewhere k same] at running
      exact known.began k inside r running
  · rintro host start (⟨v, inside, state, rfl, rfl, lasts⟩ | ⟨m, flying, inside, state, rfl, rfl, lasts⟩) <;>
      rw [clock] at lasts <;> rw [votes]
    · by_cases same : v = h
      · subst same
        rw [at_h] at state lasts ⊢
        exact own inside state lasts
      · rw [elsewhere v same] at state lasts ⊢
        exact keep _ _ (.inl ⟨v, inside, state, rfl, rfl, lasts⟩)
    · rcases sent m flying with old | backed
      · exact keep _ _ (.inr ⟨m, old, inside, state, rfl, rfl, lasts⟩)
      · exact backed state

theorem ClaimInv.vote (inv : Inv cell w) (known : ClaimInv cell w) (mem : h ∈ cell.hosts)
    {claim : Int} {state : Bool} {reply : BeaconReply}
    (clock : w'.clock = w.clock) (site : w'.site = Function.update w.site h s)
    (votes : w'.votes = w.votes ++ cast h host reply) (vote : s.vote = reply.state)
    (beacons : ∀ m ∈ w'.beacons, m ∈ w.beacons)
    (outcome : VoteOutcome (w.clock h) h host claim state (w.site h).vote reply)
    (turns : reply.checkTid = true → MayTurn cell w h host)
    (backed : state = true → w.clock h ≤ smallTime + claim → Claimed cell w.votes host claim)
    (began : ∀ r, s.round = some r → r.startTime ≤ w.clock h) : ClaimInv cell w' := by
  rcases outcome with ⟨none, same⟩ | ⟨one, valid, -, version, tid, set⟩
  · have host' : s.vote.lastYesHost = (w.site h).vote.lastYesHost := vote ▸ congrArg LastYes.host same
    have time' : s.vote.lastYesTime = (w.site h).vote.lastYesTime := vote ▸ congrArg LastYes.time same
    have claim' : s.vote.lastYesClaim = (w.site h).vote.lastYesClaim := vote ▸ congrArg LastYes.claim same
    have state' : s.vote.lastYesState = (w.site h).vote.lastYesState := vote ▸ congrArg LastYes.state same
    rw [none] at votes
    refine known.move clock site votes ?_ began ?_ ?_ (fun m flying => .inl (beacons m flying))
    · rw [host', time', append_nil]
      exact known.remembered h mem
    · rw [append_nil]
      exact known.claimed
    · rw [host', claim', state', append_nil]
      exact fun _ on lasts => known.claimed _ _ (.inl ⟨h, mem, on, rfl, rfl, lasts⟩)
  have host' : s.vote.lastYesHost = host := vote ▸ congrArg LastYes.host set
  have time' : s.vote.lastYesTime = w.clock h := vote ▸ congrArg LastYes.time set
  have claim' : s.vote.lastYesClaim = claim := vote ▸ congrArg LastYes.claim set
  have state' : s.vote.lastYesState = state := vote ▸ congrArg LastYes.state set
  have spoke : reply.checkTid = true := by
    by_contra silent
    simp [cast, silent] at one
  rw [one] at votes
  refine known.move clock site votes ?_ began ?_ ?_ (fun m flying => .inl (beacons m flying))
  · intro _
    rw [host', time']
    exact mem_append_right _ (List.mem_singleton.mpr rfl)
  · intro other start open'
    exact .vote inv known mem valid (turns spoke) open' _
  · rw [host', claim', state']
    exact fun _ on lasts => (backed on lasts).same _ _

theorem ClaimInv.quiet (known : ClaimInv cell w) (mem : h ∈ cell.hosts)
    (clock : w'.clock = w.clock) (site : w'.site = Function.update w.site h s) (votes : w'.votes = w.votes)
    (vote : s.vote = (w.site h).vote) (began : ∀ r, s.round = some r → r.startTime ≤ w.clock h)
    (sent : ∀ m ∈ w'.beacons, m ∈ w.beacons ∨ (m.syncsite = true → Claimed cell w.votes m.src m.startTime)) :
    ClaimInv cell w' := by
  refine known.move clock site (votes.trans (append_nil _).symm) ?_ began ?_ ?_ ?_ <;> rw [append_nil]
  · rw [vote]
    exact known.remembered h mem
  · exact known.claimed
  · rw [vote]
    exact fun _ on lasts => known.claimed _ _ (.inl ⟨h, mem, on, rfl, rfl, lasts⟩)
  · exact sent

theorem ClaimInv.tick (known : ClaimInv cell w) {clock : Nat → Int}
    (follow : ClocksFollow cell w.clock clock) : ClaimInv cell { w with clock := clock } where
  remembered := known.remembered
  began h mem r running := Int.le_trans (known.began h mem r running) (follow.1 h mem)
  claimed := by
    rintro host start (⟨v, inside, state, rfl, rfl, lasts⟩ | ⟨m, flying, inside, state, rfl, rfl, lasts⟩)
    · exact known.claimed _ _ (.inl ⟨v, inside, state, rfl, rfl, Int.le_trans (follow.1 v inside) lasts⟩)
    · exact known.claimed _ _ (.inr ⟨m, flying, inside, state, rfl, rfl, Int.le_trans (follow.1 _ inside) lasts⟩)

theorem ClaimInv.ask (inv : Inv cell w) (known : ClaimInv cell w) (mem : h ∈ cell.hosts) (version : UbikVersion) (tid : UbikTid) :
    ClaimInv cell { w.setSite h (ubeaconAsk (w.clock h) tid (w.site h)) with
      beacons := w.beacons ++ ((ubeaconAsk (w.clock h) tid (w.site h)).round.toList.flatMap fun r =>
        beaconsOf h r version) } := by
  have vote : (ubeaconAsk (w.clock h) tid (w.site h)).vote = (w.site h).vote := by
    rcases afterAmSyncSite_cases (w.clock h) (w.site h) with same | gone
    · simp only [ubeaconAsk, same]
    · simp only [ubeaconAsk, gone]
  refine known.quiet mem rfl rfl rfl vote ?_ ?_
  · intro r running
    cases running
    exact Int.le_refl _
  intro m flying
  refine (List.mem_append.mp flying).imp_right fun fresh state => ?_
  simp only [ubeaconAsk, Option.toList_some, flatMap_singleton, beaconsOf, mem_map] at fresh
  obtain ⟨peer, -, rfl⟩ := fresh
  exact claimed_of_passes inv mem state (Int.le_refl _)

theorem ClaimInv.beacon (inv : Inv cell w) (known : ClaimInv cell w) {m : BeaconMsg}
    (mem : m.dst ∈ cell.hosts) (flying : m ∈ w.beacons)
    (turns : (voteAt w m).checkTid = true → MayTurn cell w m.dst m.src) :
    ClaimInv cell { w.setSite m.dst { w.site m.dst with vote := (voteAt w m).state } with
      beacons := w.beacons.erase m, votes := w.votes ++ cast m.dst m.src (voteAt w m) } :=
  known.vote inv mem rfl rfl rfl rfl (fun _ left => mem_of_mem_erase left) (voteAt_outcome inv mem) turns
    (fun state lasts => known.claimed _ _ (.inr ⟨m, flying, mem, state, rfl, rfl, lasts⟩)) (known.began m.dst mem)

theorem ClaimInv.finish (inv : Inv cell w) (known : ClaimInv cell w) (mem : h ∈ cell.hosts)
    {r : Round} (version : UbikVersion) (running : (w.site h).round = some r)
    (turns : (ownVote (w.clock h) version (w.site h) r).checkTid = true → MayTurn cell w h h) :
    ClaimInv cell { w.setSite h (ubeaconFinish (w.clock h) version (w.site h) r) with
      votes := w.votes ++ cast h h (ownVote (w.clock h) version (w.site h) r) } := by
  have began := known.began h mem r running
  refine known.vote inv mem rfl rfl rfl ?_ (fun _ flying => flying) (ownVote_outcome inv mem version r) turns
    (fun state _ => claimed_of_passes inv mem state began) ?_ <;> unfold ubeaconFinish <;> dsimp only
  · split <;> rfl
  · split <;> exact fun _ none => by cases none

theorem ClaimInv.restart (known : ClaimInv cell w) : ClaimInv cell (w.setSite h (startSite cell h (w.clock h))) := by
  refine known.move rfl rfl (append_nil _).symm ?_ ?_ ?_ ?_ (fun m flying => .inl flying)
  · exact fun voted => absurd rfl voted
  · exact fun _ none => by cases none
  · rw [append_nil]
    exact known.claimed
  · exact fun _ on => by cases on

theorem ClaimInv.step {a : Action} (inv : Inv cell w) (known : ClaimInv cell w)
    (turns : TurnsInTime cell w a) (taken : step cell w a = some w') : ClaimInv cell w' := by
  cases a with
  | tick clock =>
    obtain ⟨follow, taken⟩ := Option.ite_none_right_eq_some.mp taken
    cases taken
    exact known.tick follow
  | ask h version tid =>
    simp only [Election.step, Option.ite_none_right_eq_some, Option.some.injEq] at taken
    obtain ⟨⟨mem, -⟩, rfl⟩ := taken
    exact known.ask inv mem version tid
  | beacon m =>
    simp only [Election.step, Option.ite_none_right_eq_some, Option.some.injEq] at taken
    obtain ⟨⟨mem, flying⟩, rfl⟩ := taken
    exact known.beacon inv mem flying turns
  | lose m =>
    cases taken
    exact ⟨known.remembered, known.began, fun host start claim => known.claimed host start
      (claim.imp_right (Exists.imp fun _ => And.imp_left mem_of_mem_erase))⟩
  | reply h peer code =>
    simp only [Election.step] at taken
    split at taken
    · rename_i r ts running found
      obtain ⟨⟨mem, -⟩, taken⟩ := Option.ite_none_right_eq_some.mp taken
      cases taken
      refine known.quiet mem rfl rfl rfl rfl ?_ (fun m flying => .inl flying)
      intro r' later
      cases later
      have same : (countReply code ts r).startTime = r.startTime := by
        unfold countReply
        split <;> rfl
      exact same ▸ known.began h mem r running
    · cases taken
  | finish h version =>
    simp only [Election.step] at taken
    split at taken
    · rename_i r running
      obtain ⟨⟨mem, -⟩, taken⟩ := Option.ite_none_right_eq_some.mp taken
      cases taken
      exact known.finish inv mem version running (turns r running)
    · cases taken
  | amSyncSite h =>
    obtain ⟨mem, taken⟩ := Option.ite_none_right_eq_some.mp taken
    cases taken
    rcases afterAmSyncSite_cases (w.clock h) (w.site h) with same | gone
    · rw [same]
      exact known.quiet mem rfl rfl rfl rfl (known.began h mem) (fun m flying => .inl flying)
    · rw [gone]
      exact known.quiet mem rfl rfl rfl rfl (known.began h mem) (fun m flying => .inl flying)
  | restart h =>
    obtain ⟨-, taken⟩ := Option.ite_none_right_eq_some.mp taken
    cases taken
    exact known.restart
  | flags h servers =>
    obtain ⟨⟨mem, -⟩, taken⟩ := Option.ite_none_right_eq_some.mp taken
    cases taken
    exact known.quiet mem rfl rfl rfl rfl (known.began h mem) (fun m flying => .inl flying)

theorem claimInv_start (start : Start cell w) : ClaimInv cell w := by
  obtain ⟨sites, -, beacons, -⟩ := start
  constructor
  · intro h mem voted
    rw [sites h mem] at voted
    exact absurd rfl voted
  · intro h mem r running
    rw [sites h mem] at running
    cases running
  · rintro host start (⟨v, inside, state, -⟩ | ⟨m, flying, -⟩)
    · rw [sites v inside] at state
      cases state
    · rw [beacons] at flying
      cases flying

theorem claimInv_reach (reached : (machine cell).ReachWhere (TurnsInTime cell) w) : ClaimInv cell w := by
  have base : ∀ s, (machine cell).start s → ClaimInv cell s := fun _ start => claimInv_start start
  have keep : ∀ s a s', (machine cell).ReachWhere (TurnsInTime cell) s → ClaimInv cell s → TurnsInTime cell s a →
      (machine cell).step s a = some s' → ClaimInv cell s' :=
    fun _ _ _ before known turns taken => known.step (inv_reach before) turns taken
  exact reached.invariant_using base keep

/-- As long as servers turn in time, a claim on record at any server excludes every other sync site. -/
theorem claim_excludes_others {w : World} (reached : (machine cell).ReachWhere (TurnsInTime cell) w) {v b : Nat}
    (hv : v ∈ cell.hosts) (hb : b ∈ cell.hosts) (named : w.syncSiteAt v ≠ 0) (other : b ≠ w.syncSiteAt v) :
    ¬ w.passes b := by
  intro passes
  have inv := inv_reach reached
  obtain ⟨state, host, lasts⟩ := uvoteGetSyncSite_eq rfl named
  have open' : Claims cell w (w.syncSiteAt v) (w.site v).vote.lastYesClaim :=
    .inl ⟨v, hv, state, host, rfl, lasts⟩
  obtain ⟨backers, voters, heavy, voted⟩ := (claimInv_reach reached).claimed _ _ open'
  obtain ⟨mandate, lasting⟩ := amSyncSite_of_passes inv hb passes
  obtain ⟨backers', voters', heavy', voted'⟩ := inv.lease b hb mandate
  have total := @Cell.sum_weight cell
  obtain ⟨x, inside, inside'⟩ := exists_common_of_weight cell.weight voters voters' (by omega)
  obtain ⟨t, -, cast, kept⟩ := voted x inside
  obtain ⟨t', late', cast'⟩ := voted' x inside'
  have before := kept _ cast' rfl other
  have known := (inv.voter _ cast).1
  have now := Int.le_trans (inv.promised _ cast).1 (inv.past _ known)
  have skew := inv.skew _ known b hb
  simp only [maxSkew, smallTime, bigTime] at *
  omega

def renewLowest : List Action :=
  [.tick fun _ => 95, .ask 1 ⟨0, 0⟩ ⟨0, 1⟩, .beacon ⟨1, 2, true, 95, ⟨0, 0⟩, ⟨0, 1⟩⟩]

def renewed : World :=
  ((machine threeServers).runWhere (TurnsInTime threeServers) (freshWorld threeServers 0)
    (electLowest ++ renewLowest)).get (by decide +kernel)

theorem renewed_reach : (machine threeServers).ReachWhere (TurnsInTime threeServers) renewed :=
  .runWhere (.start (freshWorld_start ..)) (Option.some_get _).symm

theorem claim_excludes_others_renewed : renewed.syncSiteAt 2 = 1 ∧ ¬ renewed.passes 3 :=
  ⟨by decide +kernel, claim_excludes_others renewed_reach (v := 2) (by decide) (by decide) (by decide +kernel)
    (by decide +kernel)⟩

def fiveServers : Cell := .ofVoters [1, 2, 3, 4, 5] (by decide) (by decide) (by decide)

/-- Server 1 is elected by 1, 4 and 5, and 2 times out. Its next beacon reaches 3 alone, which takes the
    claim, and 75 seconds after their only votes 4 and 5 elect 2. -/
def overtake : List Action :=
  [.tick fun _ => 10, .restart 3, .tick fun _ => 80, .ask 1 ⟨0, 0⟩ ⟨0, 0⟩, .beacon ⟨1, 3, false, 80, ⟨0, 0⟩, ⟨0, 0⟩⟩,
   .beacon ⟨1, 4, false, 80, ⟨0, 0⟩, ⟨0, 0⟩⟩, .beacon ⟨1, 5, false, 80, ⟨0, 0⟩, ⟨0, 0⟩⟩,
   .lose ⟨1, 2, false, 80, ⟨0, 0⟩, ⟨0, 0⟩⟩, .reply 1 3 0, .reply 1 4 80, .reply 1 5 80,
   .tick fun _ => 100, .reply 1 2 (-1), .finish 1 ⟨0, 0⟩,
   .ask 1 ⟨0, 0⟩ ⟨0, 1⟩, .beacon ⟨1, 3, true, 100, ⟨0, 0⟩, ⟨0, 1⟩⟩,
   .lose ⟨1, 4, true, 100, ⟨0, 0⟩, ⟨0, 1⟩⟩, .lose ⟨1, 5, true, 100, ⟨0, 0⟩, ⟨0, 1⟩⟩, .reply 1 3 100,
   .tick fun _ => 120, .reply 1 4 (-1), .reply 1 5 (-1), .finish 1 ⟨0, 0⟩,
   .tick fun _ => 156, .ask 2 ⟨0, 0⟩ ⟨0, 0⟩, .beacon ⟨2, 4, false, 156, ⟨0, 0⟩, ⟨0, 0⟩⟩,
   .beacon ⟨2, 5, false, 156, ⟨0, 0⟩, ⟨0, 0⟩⟩, .reply 2 4 156, .reply 2 5 156, .reply 2 1 (-1), .reply 2 3 (-1),
   .finish 2 ⟨0, 0⟩]

def overtaken : World := ((machine fiveServers).run (freshWorld fiveServers 0) overtake).get (by decide +kernel)

/-- Server 3 still answers that 1 is sync site when 2 has been elected. -/
theorem claim_outlives_majority : (machine fiveServers).Reach overtaken ∧ overtaken.syncSiteAt 3 = 1 ∧ overtaken.passes 2 :=
  ⟨(freshWorld_reach fiveServers 0).run (Option.some_get _).symm, by decide +kernel, by decide +kernel⟩

end OpenAFS.Ubik.Election
