import OpenAFS.Lib.Quorum
import OpenAFS.Ubik.Beacon

namespace OpenAFS.Ubik

open Lib List

/-- The servers of a cell that run, and the server list each was started with. Clones may differ from
    list to list; the servers that vote may not. -/
structure Cell where
  hosts : List Nat
  voters : List Nat
  info : Nat → List (Nat × Bool)
  distinct : voters.Nodup
  several : 1 < voters.length
  listed : ∀ h ∈ hosts, ((info h).map Prod.fst).Nodup ∧ h ∈ (info h).map Prod.fst
  valid : ∀ h ∈ hosts, ∀ e ∈ info h, e.1 ≠ 0 ∧ e.1 ≠ noHost
  shared : ∀ h ∈ hosts, (nonClones (info h)).Perm voters

def Cell.ofVoters (voters : List Nat) (distinct : voters.Nodup) (several : 1 < voters.length)
    (valid : ∀ v ∈ voters, v ≠ 0 ∧ v ≠ noHost) : Cell where
  hosts := voters
  voters := voters
  info _ := voters.map fun v => (v, false)
  distinct := distinct
  several := several
  listed h mem := by
    have same : (voters.map fun v => (v, false)).map Prod.fst = voters := by simp [Function.comp_def]
    rw [same]
    exact ⟨distinct, mem⟩
  valid h _ e inside := by
    obtain ⟨v, mem, rfl⟩ := List.mem_map.mp inside
    exact valid v mem
  shared h _ := by
    have same : nonClones (voters.map fun v => (v, false)) = voters := by
      simp [nonClones, filter_map, Function.comp_def]
    rw [same]

def fixedPart (ts : UbikServer) : Nat × Bool × Bool := (ts.addr, ts.magic, ts.isClone)

namespace Cell

variable {cell : Cell} {h : Nat}

theorem mem_nonClones {info : List (Nat × Bool)} {v : Nat} : v ∈ nonClones info ↔ (v, false) ∈ info := by
  simp only [nonClones, mem_map, mem_filter, decide_eq_true_eq, Prod.exists]
  constructor
  · rintro ⟨addr, clone, ⟨inside, rfl⟩, rfl⟩
    exact inside
  · intro inside
    exact ⟨v, false, ⟨inside, rfl⟩, rfl⟩

theorem mem_voters (mem : h ∈ cell.hosts) {v : Nat} : v ∈ cell.voters ↔ (v, false) ∈ cell.info h :=
  (cell.shared h mem).mem_iff.symm.trans mem_nonClones

theorem flag_unique (mem : h ∈ cell.hosts) {e e' : Nat × Bool} (he : e ∈ cell.info h) (he' : e' ∈ cell.info h)
    (same : e.1 = e'.1) : e = e' :=
  inj_on_of_nodup_map (cell.listed h mem).1 he he' same

def magicHost (cell : Cell) : Nat := cell.voters.foldr min (cell.voters.headD 0)

theorem foldr_min_le (l : List Nat) (start : Nat) : l.foldr min start ≤ start ∧ ∀ v ∈ l, l.foldr min start ≤ v := by
  induction l with
  | nil => simp
  | cons a l ih =>
    simp only [foldr_cons, mem_cons]
    refine ⟨by omega, ?_⟩
    rintro v (rfl | inside)
    · omega
    · have := ih.2 v inside
      omega

theorem foldr_min_mem (l : List Nat) (start : Nat) : l.foldr min start = start ∨ l.foldr min start ∈ l := by
  induction l with
  | nil => simp
  | cons a l ih =>
    simp only [foldr_cons, mem_cons]
    rcases Nat.le_total a (l.foldr min start) with low | high
    · exact .inr (.inl (Nat.min_eq_left low))
    · rw [Nat.min_eq_right high]
      exact ih.imp_right .inr

theorem magicHost_mem : cell.magicHost ∈ cell.voters := by
  have several := cell.several
  unfold magicHost
  rcases foldr_min_mem cell.voters (cell.voters.headD 0) with eq | inside
  · rw [eq]
    cases voters : cell.voters with
    | nil => simp [voters] at several
    | cons a l => simp
  · exact inside

theorem magicHost_le {v : Nat} (mem : v ∈ cell.voters) : cell.magicHost ≤ v :=
  (foldr_min_le cell.voters _).2 v mem

theorem eq_magicHost {m : Nat} (mem : m ∈ cell.voters) (least : ∀ v ∈ cell.voters, m ≤ v) : m = cell.magicHost :=
  Nat.le_antisymm (least _ magicHost_mem) (magicHost_le mem)

def others (cell : Cell) (h : Nat) : List (Nat × Bool) := (cell.info h).filter fun e => e.1 ≠ h

def amIClone (cell : Cell) (h : Nat) : Bool := (cell.info h).any fun e => e.1 = h ∧ e.2

def listInit (cell : Cell) (h : Nat) : ListInit :=
  (cell.others h).foldl addServer { magicHost := if cell.amIClone h then 0 else h }

theorem amIClone_iff (mem : h ∈ cell.hosts) : cell.amIClone h = false ↔ h ∈ cell.voters := by
  obtain ⟨e, inside, addr⟩ := List.mem_map.mp (cell.listed h mem).2
  rw [mem_voters mem]
  constructor
  · intro voter
    have flag : e.2 = false := by
      cases clone : e.2 with
      | false => rfl
      | true =>
        have found : cell.amIClone h = true := List.any_eq_true.mpr ⟨e, inside, by simp [addr, clone]⟩
        rw [voter] at found
        cases found
    have own : e = (h, false) := Prod.ext addr flag
    rwa [← own]
  · intro voter
    rw [← Bool.not_eq_true, amIClone, any_eq_true]
    rintro ⟨e', inside', found⟩
    simp only [decide_eq_true_eq] at found
    have same := flag_unique mem inside' voter found.1
    rw [same] at found
    exact Bool.false_ne_true found.2

theorem listInit_met (mem : h ∈ cell.hosts) : (cell.listInit h).Met h (cell.amIClone h) (cell.others h) := by
  obtain ⟨e, inside, rfl⟩ := List.mem_map.mp (cell.listed h mem).2
  apply foldl_addServer_met _ (cell.valid _ mem e inside).1
  · intro e' inside'
    exact (cell.valid _ mem e' (List.mem_filter.mp inside').1).1
  · intro e' inside'
    simpa using (List.mem_filter.mp inside').2

theorem mem_nonClones_others (mem : h ∈ cell.hosts) {v : Nat} : v ∈ nonClones (cell.others h) ↔ v ∈ cell.voters ∧ v ≠ h := by
  rw [mem_nonClones, others, mem_filter, mem_voters mem]
  simp

theorem magicServer_eq (mem : h ∈ cell.hosts) : ((cell.listInit h).magicServer = some cell.magicHost ∧ cell.magicHost ≠ h) ∨
    ((cell.listInit h).magicServer = none ∧ cell.magicHost = h ∧ cell.amIClone h = false) := by
  have met := listInit_met mem
  cases picked : (cell.listInit h).magicServer with
  | some m =>
    obtain ⟨inside, -, least, own⟩ := met.chosen m picked
    obtain ⟨voter, differs⟩ := (mem_nonClones_others mem).mp inside
    have magic : m = cell.magicHost := by
      apply eq_magicHost voter
      intro v isVoter
      by_cases me : v = h
      · subst me
        exact Nat.le_of_lt (own ((amIClone_iff mem).mpr isVoter))
      · exact least v ((mem_nonClones_others mem).mpr ⟨isVoter, me⟩)
    subst magic
    exact .inl ⟨rfl, differs⟩
  | none =>
    have unchosen := met.unchosen picked
    cases clone : cell.amIClone h with
    | true =>
      have empty := (unchosen.1 clone).2
      have inside : cell.magicHost ∈ nonClones (cell.others h) := by
        refine (mem_nonClones_others mem).mpr ⟨magicHost_mem, ?_⟩
        intro me
        have voter : cell.magicHost ∈ cell.voters := magicHost_mem
        rw [me, ← amIClone_iff mem, clone] at voter
        cases voter
      rw [empty] at inside
      cases inside
    | false =>
      refine .inr ⟨rfl, (eq_magicHost ((amIClone_iff mem).mp clone) ?_).symm, rfl⟩
      intro v isVoter
      by_cases me : v = h
      · omega
      · exact (unchosen.2 clone).2 v ((mem_nonClones_others mem).mpr ⟨isVoter, me⟩)

def weight (cell : Cell) (v : Nat) : Nat := 2 + if v = cell.magicHost then 1 else 0

theorem sum_weight : ∑ v ∈ cell.voters.toFinset, cell.weight v = 2 * cell.voters.length + 1 := by
  unfold weight
  rw [sum_two_plus_one _ (List.mem_toFinset.mpr magicHost_mem), toFinset_card_of_nodup cell.distinct]

structure EntryFacts (cell : Cell) (h : Nat) (ts : UbikServer) : Prop where
  other : ts.addr ≠ h
  valid : ts.addr ≠ 0 ∧ ts.addr ≠ noHost
  magic : ts.magic = true ↔ ts.addr = cell.magicHost
  clone : ts.isClone = false ↔ ts.addr ∈ cell.voters

theorem EntryFacts.congr {ts ts' : UbikServer} (facts : EntryFacts cell h ts)
    (same : fixedPart ts' = fixedPart ts) : EntryFacts cell h ts' := by
  simp only [fixedPart, Prod.mk.injEq] at same
  obtain ⟨addr, magic, clone⟩ := same
  constructor <;> simp only [addr, magic, clone]
  · exact facts.other
  · exact facts.valid
  · exact facts.magic
  · exact facts.clone

structure SiteFacts (cell : Cell) (h : Nat) (s : Site) : Prop where
  host : s.ubikHost = h
  clone : s.amIClone = false ↔ h ∈ cell.voters
  magic : s.amIMagic = true ↔ h = cell.magicHost
  count : s.nServers = cell.voters.length
  entries : ∀ ts ∈ s.servers, EntryFacts cell h ts
  distinct : (s.servers.map UbikServer.addr).Nodup
  other : ∃ ts ∈ s.servers, ts.isClone = false

theorem SiteFacts.congr {s s' : Site} (facts : SiteFacts cell h s) (host : s'.ubikHost = s.ubikHost)
    (clone : s'.amIClone = s.amIClone) (magic : s'.amIMagic = s.amIMagic) (count : s'.nServers = s.nServers)
    (servers : s'.servers.map fixedPart = s.servers.map fixedPart) : SiteFacts cell h s' := by
  have moved : ∀ ts ∈ s'.servers, ∃ ts₀ ∈ s.servers, fixedPart ts₀ = fixedPart ts := by
    intro ts inside
    have listed : fixedPart ts ∈ s.servers.map fixedPart := servers ▸ mem_map_of_mem inside
    exact List.mem_map.mp listed
  have addrs : ∀ l : List UbikServer, l.map UbikServer.addr = (l.map fixedPart).map Prod.fst := by
    intro l
    rw [map_map]
    rfl
  refine ⟨host.trans facts.host, clone ▸ facts.clone, magic ▸ facts.magic, count.trans facts.count, ?_, ?_, ?_⟩
  · intro ts inside
    obtain ⟨ts₀, inside₀, same⟩ := moved ts inside
    exact (facts.entries ts₀ inside₀).congr same.symm
  · rw [addrs, servers, ← addrs]
    exact facts.distinct
  · obtain ⟨ts₀, inside₀, voter⟩ := facts.other
    have listed : fixedPart ts₀ ∈ s'.servers.map fixedPart := servers ▸ mem_map_of_mem inside₀
    obtain ⟨ts, inside, same⟩ := List.mem_map.mp listed
    exact ⟨ts, inside, (congrArg (fun p => p.2.2) same).trans voter⟩

theorem startServers_eq (h : Nat) : (ubeaconInitServerListByInfo h (cell.info h)).servers =
      (cell.listInit h).servers.map fun ts =>
        if (cell.listInit h).magicServer = some ts.addr then { ts with magic := true } else ts := rfl

theorem startServers_addr (mem : h ∈ cell.hosts) : (ubeaconInitServerListByInfo h (cell.info h)).servers.map UbikServer.addr =
      ((cell.others h).map Prod.fst).reverse := by
  have same : UbikServer.addr ∘ (fun ts : UbikServer =>
      if (cell.listInit h).magicServer = some ts.addr then { ts with magic := true } else ts) = UbikServer.addr := by
    funext ts
    simp only [Function.comp]
    split <;> rfl
  rw [startServers_eq, map_map, same, (listInit_met mem).entries, map_reverse, map_map]
  rfl

theorem startServers_mem (mem : h ∈ cell.hosts) {ts : UbikServer}
    (inside : ts ∈ (ubeaconInitServerListByInfo h (cell.info h)).servers) :
    (ts.addr, ts.isClone) ∈ cell.others h ∧ (ts.magic = true ↔ (cell.listInit h).magicServer = some ts.addr) := by
  rw [startServers_eq, mem_map] at inside
  obtain ⟨ts', inside', rfl⟩ := inside
  rw [(listInit_met mem).entries, mem_reverse, mem_map] at inside'
  obtain ⟨e, inside', rfl⟩ := inside'
  have plain : (newServer e).magic = false := rfl
  split
  · rename_i found
    exact ⟨inside', by simp [found]⟩
  · rename_i found
    exact ⟨inside', by simp [found, plain]⟩

theorem nonClones_filter (info : List (Nat × Bool)) (h : Nat) :
    nonClones (info.filter fun e => e.1 ≠ h) = (nonClones info).filter fun v => v ≠ h := by
  unfold nonClones
  rw [filter_map, filter_filter, filter_filter]
  congr 1
  exact filter_congr fun e _ => Bool.and_comm _ _

theorem length_nonClones_others (mem : h ∈ cell.hosts) :
    (nonClones (cell.others h)).length + (if cell.amIClone h then 0 else 1) = cell.voters.length := by
  have perm := (cell.shared h mem).filter fun v => decide (v ≠ h)
  rw [others, nonClones_filter, perm.length_eq]
  have erased := cell.distinct.erase_eq_filter h
  have same : cell.voters.filter (fun v => decide (v ≠ h)) = cell.voters.erase h := by
    rw [erased]
    exact filter_congr fun v _ => by by_cases own : v = h <;> simp [own]
  rw [same, length_erase]
  have clone := amIClone_iff mem
  have several := cell.several
  cases amI : cell.amIClone h with
  | false =>
    have voter := clone.mp amI
    simp only [voter, if_true, Bool.false_eq_true, if_false]
    omega
  | true =>
    have voter : h ∉ cell.voters := fun inside => by simp [amI] at clone; exact clone inside
    simp [voter]

theorem exists_other_voter (cell : Cell) (h : Nat) : ∃ v ∈ cell.voters, v ≠ h := by
  have several := cell.several
  have left : (cell.voters.erase h).length ≠ 0 := by
    rw [length_erase]
    split <;> omega
  obtain ⟨v, inside⟩ := exists_mem_of_ne_nil _ (ne_nil_of_length_pos (Nat.pos_of_ne_zero left))
  obtain ⟨differs, voter⟩ := (cell.distinct.mem_erase_iff).mp inside
  exact ⟨v, voter, differs⟩

theorem entryFacts_start (mem : h ∈ cell.hosts) {ts : UbikServer}
    (inside : ts ∈ (ubeaconInitServerListByInfo h (cell.info h)).servers) : EntryFacts cell h ts := by
  obtain ⟨entry, magic⟩ := startServers_mem mem inside
  obtain ⟨listed, differs⟩ := List.mem_filter.mp entry
  have other : ts.addr ≠ h := by simpa using differs
  refine ⟨other, cell.valid h mem _ listed, ?_, ?_⟩
  · rw [magic]
    rcases magicServer_eq mem with ⟨picked, -⟩ | ⟨picked, own, -⟩
    · simp [picked, eq_comm]
    · simp [picked, own, other]
  rw [mem_voters mem]
  constructor
  · intro voter
    rwa [← voter]
  · intro voter
    exact congrArg Prod.snd (flag_unique mem listed voter rfl)

theorem siteFacts_start (mem : h ∈ cell.hosts) : SiteFacts cell h (ubeaconInitServerListByInfo h (cell.info h)) := by
  refine ⟨rfl, amIClone_iff mem, ?_, ?_, ?_, ?_, ?_⟩
  · change (!cell.amIClone h && (cell.listInit h).magicServer.isNone) = true ↔ h = cell.magicHost
    rcases magicServer_eq mem with ⟨picked, differs⟩ | ⟨picked, own, voter⟩
    · simp [picked, differs.symm]
    · simp [picked, own, voter]
  · change (cell.listInit h).nServers + (if cell.amIClone h then 0 else 1) = cell.voters.length
    rw [(listInit_met mem).count, length_nonClones_others mem]
  · exact fun ts inside => entryFacts_start mem inside
  · rw [startServers_addr mem, nodup_reverse]
    exact (cell.listed h mem).1.sublist (List.filter_sublist.map _)
  · obtain ⟨v, voter, differs⟩ := exists_other_voter cell h
    have listed : v ∈ (ubeaconInitServerListByInfo h (cell.info h)).servers.map UbikServer.addr := by
      rw [startServers_addr mem, mem_reverse, mem_map]
      exact ⟨(v, false), List.mem_filter.mpr ⟨(mem_voters mem).mp voter, by simpa using differs⟩, rfl⟩
    obtain ⟨ts, inside, rfl⟩ := List.mem_map.mp listed
    exact ⟨ts, inside, (entryFacts_start mem inside).clone.mpr voter⟩

end Cell

end OpenAFS.Ubik
