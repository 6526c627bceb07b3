import OpenAFS.Ptserver.Answers

namespace OpenAFS.Ptserver

open Lib

variable {labels : Prop} {db : PrDb} {v : View} {o : Chains}

/-- No id of an entry changes that owns groups or, with `labels`, has continuation blocks. -/
def Renumbering (labels : Prop) (s : Server) : Request → Prop
  | .changeEntry _ aid _ _ newid => Renumbers labels s.db aid newid
  | _ => True

/-- No transaction of a deletion ends behind the group itself on the chain of its groups. -/
def Sparing (s : Server) : Request → Prop
  | .delete _ aid => Spares s.db aid .conts
  | .further i => ∀ aid phase, s.deletions[i]? = some (aid, phase) → Spares s.db aid phase
  | _ => True

theorem Server.step_consistent {s : Server} {cfg : Config} {r : Request} (consistent : Consistent labels s.db v o)
    (renumbering : Renumbering labels s r) :
    ∃ v' o', Consistent labels (s.step cfg r).db v' o' ∧ (Housed s.db v o → Sparing s r → Housed (s.step cfg r).db v' o') := by
  have commit {result : Except PrError PrDb}
      (good : ∀ db', result = .ok db' → ∃ v' o', Consistent labels db' v' o' ∧ (Housed s.db v o → Housed db' v' o')) :
      ∃ v' o', Consistent labels (s.commit result).db v' o' ∧
        (Housed s.db v o → Sparing s r → Housed (s.commit result).db v' o') := by
    cases result with
    | error e => exact ⟨v, o, consistent, fun housed _ => housed⟩
    | ok db' =>
      obtain ⟨v', o', consistent', housed'⟩ := good db' rfl
      exact ⟨v', o', consistent', fun housed _ => housed' housed⟩
  have commitDelete {aid : Id} {others : List (Id × PrDb.Phase)} {result : Except PrError (PrDb × Option PrDb.Phase)}
      {spares : Prop} (sparing : Sparing s r → spares)
      (good : ∀ db' more, result = .ok (db', more) →
        ∃ v' o', Consistent labels db' v' o' ∧ (Housed s.db v o → spares → Housed db' v' o')) :
      ∃ v' o', Consistent labels (s.commitDelete aid others result).db v' o' ∧
        (Housed s.db v o → Sparing s r → Housed (s.commitDelete aid others result).db v' o') := by
    match result with
    | .error e => exact ⟨v, o, consistent, fun housed _ => housed⟩
    | .ok (db', none) =>
      obtain ⟨v', o', consistent', housed'⟩ := good db' none rfl
      exact ⟨v', o', consistent', fun housed spared => housed' housed (sparing spared)⟩
    | .ok (db', some phase) =>
      obtain ⟨v', o', consistent', housed'⟩ := good db' (some phase) rfl
      exact ⟨v', o', consistent', fun housed spared => housed' housed (sparing spared)⟩
  cases r with
  | newEntry caller aname flag oid => exact commit fun db' done => newEntry_consistent consistent done
  | iNewEntry cid aname aid oid => exact commit fun db' done => iNewEntry_consistent consistent done
  | addToGroup cid aid gid =>
    refine commit fun db' done => ?_
    obtain ⟨v', consistent', housed'⟩ := addToGroup_consistent consistent done
    exact ⟨v', o, consistent', housed'⟩
  | removeFromGroup cid aid gid =>
    refine commit fun db' done => ?_
    obtain ⟨v', consistent', housed'⟩ := removeFromGroup_consistent consistent done
    exact ⟨v', o, consistent', housed'⟩
  | changeEntry cid aid name oid newid =>
    refine commit fun db' done => ?_
    exact changeEntry_consistent consistent renumbering (ensure_then.mp done).2
  | delete cid aid => exact commitDelete id fun db' more done => deleteRequest_consistent consistent done
  | further i =>
    cases found : s.deletions[i]? with
    | none =>
      have same : s.step cfg (.further i) = s := by
        unfold Server.step
        simp only [found]
      rw [same]
      exact ⟨v, o, consistent, fun housed _ => housed⟩
    | some deletion =>
      obtain ⟨aid, phase⟩ := deletion
      have same : s.step cfg (.further i) = s.commitDelete aid (s.deletions.eraseIdx i) (s.db.deleteFurther aid phase) := by
        unfold Server.step
        simp only [found]
      rw [same]
      exact commitDelete (fun sparing => sparing aid phase found) fun db' more done =>
        deleteFurther_consistent consistent done

def Server.run (cfg : Config) (s : Server) (requests : List Request) : Server :=
  requests.foldl (fun s r => s.step cfg r) s

theorem Reachable.run {allowed : Server → Config → Request → Prop} (all : ∀ s cfg r, allowed s cfg r) {cfg : Config}
    {s : Server} (start : Reachable allowed s) (requests : List Request) : Reachable allowed (s.run cfg requests) := by
  induction requests generalizing s with
  | nil => exact start
  | cons r requests ih => exact ih (.step start (all s cfg r))

theorem Reachable.consistent {s : Server} (run : Reachable (fun s _ r => Renumbering labels s r) s) :
    ∃ v o, Consistent labels s.db v o := by
  induction run with
  | start made =>
    obtain ⟨v, o, consistent, -⟩ := initdb_consistent made
    exact ⟨v, o, consistent⟩
  | step _ allowed ih =>
    obtain ⟨v, o, consistent⟩ := ih
    obtain ⟨v', o', consistent', -⟩ := Server.step_consistent consistent allowed
    exact ⟨v', o', consistent'⟩
  | restart _ ih => exact ih

theorem Reachable.housed {s : Server} (run : Reachable (fun s _ r => Renumbering labels s r ∧ Sparing s r) s) :
    ∃ v o, Consistent labels s.db v o ∧ Housed s.db v o := by
  induction run with
  | start made => exact initdb_consistent made
  | step _ allowed ih =>
    obtain ⟨v, o, consistent, housed⟩ := ih
    obtain ⟨v', o', consistent', housed'⟩ := Server.step_consistent consistent allowed.1
    exact ⟨v', o', consistent', housed' housed allowed.2⟩
  | restart _ ih => exact ih

structure Lists (db : PrDb) (a : Id) (b : Nat) (conts : List Nat) (l : List Id) : Prop where
  found : db.findByID a = .ok b
  nonzero : b ≠ 0
  chain : Linked id (fun c => (db.cont c).next) (db.entry b).next conts
  list : l = listed (db.entry b).entries ++ conts.flatMap fun c => listed (db.cont c).entries

structure Memberships (db : PrDb) : Prop where
  ends : ∀ a b, db.findByID a = .ok b → b ≠ 0 → ∃ conts l, Lists db a b conts l
  symmetric : ∀ u bu cu lu g bg cg lg, Lists db u bu cu lu → Lists db g bg cg lg → ¬ (db.entry bu).isGroup →
    (db.entry bg).isGroup → (u ∈ lg ↔ g ∈ lu)
  others : ∀ a b c l, Lists db a b c l → ∀ x ∈ l, ∃ b' c' l', Lists db x b' c' l' ∧
    ((db.entry b').isGroup ↔ ¬ (db.entry b).isGroup)
  once : ∀ a b c l, Lists db a b c l → l.Nodup
  count : ∀ a b c l, Lists db a b c l → (db.entry b).count = l.length
  conts : ∀ a b c l, Lists db a b c l → ∀ d ∈ c, (db.cont d).id = a
  removal : ∀ a b c l, Lists db a b c l → ∀ x ∈ l, ∃ db', db.removeFromEntry x a = .ok db'

theorem Settled.of_lists {a : Id} {b : Nat} {conts : List Nat} {l : List Id} (settled : Settled labels db v)
    (lists : Lists db a b conts l) :
    b ∈ v.on .id ∧ v.role b = .entry ∧ (db.entry b).id = a ∧ conts = v.conts b ∧ l = db.ids v.conts b := by
  obtain ⟨inside, here, same⟩ := settled.findByID lists.found lists.nonzero
  have linked : Linked id (fun c => (db.cont c).next) (db.entry b).next (v.conts b) := by
    apply (settled.roles.contLists b here).values.congr_values
    exact fun c _ => db.cont_next c
  have all := lists.chain.unique linked
  refine ⟨inside, here, same, all, ?_⟩
  rw [lists.list, all]
  unfold PrDb.ids PrDb.slots Slots.all
  rw [List.flatMap_cons, List.flatMap_map]
  rfl

theorem Settled.exists_lists {a : Id} {b : Nat} (settled : Settled labels db v) (inside : b ∈ v.on .id)
    (same : (db.entry b).id = a) : Lists db a b (v.conts b) (db.ids v.conts b) := by
  have here := settled.entry settled.whole inside
  refine ⟨same ▸ settled.findByID_of_mem inside, settled.ne_zero inside, ?_, ?_⟩
  · apply (settled.roles.contLists b here).values.congr_values
    exact fun c _ => db.cont_next c
  · unfold PrDb.ids PrDb.slots Slots.all
    rw [List.flatMap_cons, List.flatMap_map]
    rfl

theorem Consistent.memberships (consistent : Consistent True db v o) : Memberships db := by
  have settled := consistent.settled
  refine ⟨?_, ?_, ?_, ?_, ?_, ?_, ?_⟩
  · intro a b found some
    obtain ⟨inside, -, same⟩ := settled.findByID found some
    exact ⟨_, _, settled.exists_lists inside same⟩
  · intro u bu cu lu g bg cg lg listsU listsG user group
    obtain ⟨inU, -, rfl, -, rfl⟩ := settled.of_lists listsU
    obtain ⟨inG, -, rfl, -, rfl⟩ := settled.of_lists listsG
    constructor
    · intro listed
      obtain ⟨c, inC, same, -, back⟩ := consistent.symmetric bg inG _ listed
      rwa [settled.ids c inC bu inU same] at back
    · intro listed
      obtain ⟨c, inC, same, -, back⟩ := consistent.symmetric bu inU _ listed
      rwa [settled.ids c inC bg inG same] at back
  · intro a b c l lists x listed
    obtain ⟨inside, -, rfl, -, rfl⟩ := settled.of_lists lists
    obtain ⟨d, inD, same, kind, -⟩ := consistent.symmetric b inside x listed
    exact ⟨d, _, _, settled.exists_lists inD same, kind⟩
  · intro a b c l lists
    obtain ⟨-, here, -, -, rfl⟩ := settled.of_lists lists
    exact (settled.lists b here).once
  · intro a b c l lists
    obtain ⟨-, here, -, -, rfl⟩ := settled.of_lists lists
    exact (settled.lists b here).count
  · intro a b c l lists d member
    obtain ⟨-, here, same, rfl, -⟩ := settled.of_lists lists
    exact ((settled.lists b here).named trivial d member).trans same
  · intro a b c l lists x listed
    obtain ⟨inside, here, rfl, rfl, rfl⟩ := settled.of_lists lists
    apply removeFromEntry_finds settled.roles here (settled.lists b here) (settled.findByID_of_mem inside) ?_ listed
    · exact settled.roles.length_conts here
    -- an entry does not list itself
    rintro rfl
    obtain ⟨d, inD, same, kind, -⟩ := consistent.symmetric b inside _ listed
    obtain rfl := settled.ids d inD b inside same
    exact (iff_not_self kind).elim

/-- Memberships are symmetric as long as the id of no entry changes that owns groups or has continuation blocks. -/
theorem memberships_kept {s : Server} (run : Reachable (fun s _ r => Renumbering True s r) s) : Memberships s.db := by
  obtain ⟨v, o, consistent⟩ := run.consistent
  exact consistent.memberships

theorem memberships_kept_initial : ∃ db, initdb { noAuth := true } = .ok db ∧
    Memberships ((({ db := db } : Server).step { noAuth := true } (.iNewEntry sysAdminId [117] 1 0)).step
      { noAuth := true } (.addToGroup sysAdminId 1 sysAdminId)).db := by
  have fine : (initdb { noAuth := true }).toOption.any (fun _ => true) = true := by decide +kernel
  obtain ⟨db, made, -⟩ := exists_of_any fine
  exact ⟨db, made, memberships_kept (.step (.step (.start made) trivial) trivial)⟩

/-- Continuation blocks keep the old id of an entry whose id is changed. -/
theorem memberships_not_kept : ¬ ∀ s, Reachable (fun _ _ _ => True) s → Memberships s.db := by
  intro claim
  have fine : (initdb { noAuth := true }).toOption.any (fun db =>
      let s := ({ db := db } : Server).run { noAuth := true }
        (.iNewEntry sysAdminId (authUserGroup ++ [64, 120]) (-300) sysAdminId ::
          (List.range 11).map (fun i => .newEntry { id := sysAdminId } [65 + i.toUInt8, 64, 120] 0 0) ++
            [.changeEntry sysAdminId (-300) [] 0 (-301)])
      (s.db.findByID (-301)).toOption.any fun b =>
        decide (b ≠ 0 ∧ (s.db.entry b).next ≠ 0 ∧ (s.db.cont (s.db.entry b).next).id ≠ -301)) = true := by
    decide +kernel
  obtain ⟨db, made, fine⟩ := exists_of_any fine
  extract_lets s at fine
  have kept := claim s (Reachable.run (fun _ _ _ => trivial) (.start made) _)
  obtain ⟨b, found, fine⟩ := exists_of_any fine
  obtain ⟨some, more, stale⟩ := of_decide_eq_true fine
  obtain ⟨conts, l, lists⟩ := kept.ends (-301) b found some
  cases conts with
  | nil => exact more lists.chain
  | cons d conts =>
    rw [show (s.db.entry b).next = d from lists.chain.1] at stale
    exact stale (kept.conts _ _ _ _ lists d List.mem_cons_self)

structure Ownership (db : PrDb) : Prop where
  owner : ∀ a b, db.findByID a = .ok b → b ≠ 0 → (db.entry b).isGroup → (db.entry b).owner ≠ 0 →
    ∃ p, db.findByID (db.entry b).owner = .ok p ∧ p ≠ 0
  chains : ∀ a p, db.findByID a = .ok p → p ≠ 0 →
    ∃ cells, Linked id (fun g => (db.entry g).nextOwned) (db.entry p).owned cells ∧ cells.Nodup ∧
      ∀ g, g ∈ cells ↔ db.findByID (db.entry g).id = .ok g ∧ g ≠ 0 ∧ (db.entry g).isGroup ∧ (db.entry g).owner = a
  orphans : ∃ cells, Linked id (fun g => (db.entry g).nextOwned) db.header.orphan cells ∧ cells.Nodup ∧
    ∀ g, g ∈ cells ↔ db.findByID (db.entry g).id = .ok g ∧ g ≠ 0 ∧ (db.entry g).isGroup ∧ (db.entry g).owner = 0

theorem Consistent.mem_chain_iff (consistent : Consistent labels db v o) (housed : Housed db v o) {i : Option Nat}
    (known : Heads v o i) {g : Nat} : g ∈ o.owned.filter (fun c => o.home c = i) ↔
      db.findByID (db.entry g).id = .ok g ∧ g ≠ 0 ∧ (db.entry g).isGroup ∧ (db.entry g).owner = db.ownerOf i := by
  have sound := consistent.sound
  have owner {c : Nat} (member : c ∈ o.owned) : (db.entry c).owner = db.ownerOf (o.home c) := by
    apply consistent.owners.owner c member
    rw [consistent.still]
    exact sound.ne_zero (consistent.owners.groups c member).1
  rw [Owners.mem_chain]
  constructor
  · rintro ⟨member, rfl⟩
    obtain ⟨inside, group, -⟩ := consistent.owners.groups g member
    exact ⟨sound.findByID_of_mem inside, sound.ne_zero inside, group, owner member⟩
  rintro ⟨found, some, group, owned⟩
  obtain ⟨inside, -⟩ := consistent.settled.findByID found some
  have member := housed g inside group
  refine ⟨member, ?_⟩
  have heads := (consistent.owners.groups g member).2.2
  rw [owner member] at owned
  cases home : o.home g with
  | none =>
    rw [home] at owned
    cases i with
    | none => rfl
    | some p => exact absurd owned.symm (sound.plain p (known p rfl).1).2
  | some q =>
    rw [home] at owned
    have inQ := (heads q home).1
    cases i with
    | none => exact absurd owned (sound.plain q inQ).2
    | some p => rw [sound.ids q inQ p (known p rfl).1 owned]

theorem Consistent.ownership (consistent : Consistent labels db v o) (housed : Housed db v o) : Ownership db := by
  have sound := consistent.sound
  refine ⟨?_, ?_, ?_⟩
  · intro a b found some group owned
    obtain ⟨inside, -⟩ := consistent.settled.findByID found some
    have member := housed b inside group
    have heads := (consistent.owners.groups b member).2.2
    have owner := consistent.owners.owner b member (by rw [consistent.still]; exact some)
    cases home : o.home b with
    | none =>
      rw [home] at owner
      exact absurd owner owned
    | some p =>
      rw [home] at owner
      have inP := (heads p home).1
      refine ⟨p, ?_, sound.ne_zero inP⟩
      rw [owner]
      exact sound.findByID_of_mem inP
  · intro a p found some
    obtain ⟨inside, -, rfl⟩ := consistent.settled.findByID found some
    have known : Heads v o (.some p) := by
      rintro b ⟨⟩
      rw [consistent.whole]
      exact ⟨inside, some⟩
    have linked := consistent.owners.chain known
    exact ⟨_, linked.values, linked.nodup, fun g => consistent.mem_chain_iff housed known⟩
  · have known : Heads v o none := fun b => nofun
    have linked := consistent.owners.chain known
    exact ⟨_, linked.values, linked.nodup, fun g => consistent.mem_chain_iff housed known⟩

/-- The chains of owners are right as long as the id of no entry changes that owns groups, and no transaction of a
    deletion ends behind the group itself. -/
theorem ownership_kept {s : Server} (run : Reachable (fun s _ r => Renumbering False s r ∧ Sparing s r) s) : Ownership s.db := by
  obtain ⟨v, o, consistent, housed⟩ := run.housed
  exact consistent.ownership housed

theorem ownership_kept_initial : ∃ db, initdb { noAuth := true } = .ok db ∧
    Ownership ((({ db := db } : Server).step { noAuth := true } (.iNewEntry sysAdminId [111] 1 0)).step
      { noAuth := true } (.newEntry { id := sysAdminId } [111, 58, 103] 2 1)).db := by
  have fine : (initdb { noAuth := true }).toOption.any (fun _ => true) = true := by decide +kernel
  obtain ⟨db, made, -⟩ := exists_of_any fine
  exact ⟨db, made, ownership_kept (.step (.step (.start made) ⟨trivial, trivial⟩) ⟨trivial, trivial⟩)⟩

/-- A group keeps the old id of its owner. -/
theorem ownership_not_kept : ¬ ∀ s, Reachable (fun _ _ _ => True) s → Ownership s.db := by
  intro claim
  have fine : (initdb { noAuth := true }).toOption.any (fun db =>
      let s := ({ db := db } : Server).run { noAuth := true }
        [.iNewEntry sysAdminId [111] 1 0, .newEntry { id := sysAdminId } [111, 58, 103] 2 1, .changeEntry sysAdminId 1 [] 0 2]
      (s.db.findByName [111, 58, 103]).toOption.any fun n => (s.db.findByID (s.db.entry n).id).toOption.any fun b =>
        (s.db.findByID (s.db.entry b).owner).toOption.any fun p =>
          decide (b ≠ 0 ∧ (s.db.entry b).isGroup ∧ (s.db.entry b).owner ≠ 0 ∧ p = 0)) = true := by
    decide +kernel
  obtain ⟨db, made, fine⟩ := exists_of_any fine
  extract_lets s at fine
  have kept := claim s (Reachable.run (fun _ _ _ => trivial) (.start made) _)
  obtain ⟨n, -, fine⟩ := exists_of_any fine
  obtain ⟨b, found, fine⟩ := exists_of_any fine
  obtain ⟨p, owner, fine⟩ := exists_of_any fine
  obtain ⟨some, group, owned, none⟩ := of_decide_eq_true fine
  obtain ⟨q, known, there⟩ := kept.owner _ b found some group owned
  cases owner.symm.trans known
  exact there none

/-- Every block has one role, and every list and chain holds exactly the blocks of its role. -/
structure Arranged (db : PrDb) (role : Nat → Role) : Prop where
  blocks : ∀ b, db.IsBlock b ↔ role b ≠ .none
  used : ∀ b, role b ≠ .loose
  chains : ∀ k, ∀ n < hashSize, ∃ cells, Linked db.load (Slot.link k) (.hash k n) cells ∧ cells.Nodup ∧
    ∀ b, b ∈ cells ↔ role b = .entry ∧ (db.entry b).bucket k = n
  continued : ∀ e, role e = .entry → ∃ cells, Linked db.load Slot.next (.next e) cells ∧ cells.Nodup ∧
    ∀ b, b ∈ cells ↔ role b = .cont e
  owner : ∀ e b, role b = .cont e → role e = .entry
  freeList : ∃ cells, Linked db.load Slot.next .freePtr cells ∧ cells.Nodup ∧ ∀ b, b ∈ cells ↔ role b = .free
  ids : ∀ a, ∃ b, db.findByID a = .ok b ∧ ∀ c, role c = .entry → ((db.entry c).id = a ↔ c = b)
  names : ∀ b c, role b = .entry → role c = .entry → (db.entry b).name = (db.entry c).name → b = c

theorem Settled.arranged (settled : Settled labels db v) : Arranged db v.role := by
  have roles := settled.roles
  have entry (k : Thread) (b : Nat) : b ∈ v.on k ↔ v.role b = .entry :=
    ⟨settled.entry settled.whole, settled.complete k b⟩
  refine ⟨roles.blocks, settled.used, fun k n small => ?_, fun e here => ?_, roles.owner, ?_, fun a => ?_, ?_⟩
  · have linked := settled.threaded.chains k n small
    refine ⟨_, linked, linked.nodup, fun b => ?_⟩
    rw [List.mem_filter, decide_eq_true_eq, entry]
  · have linked := roles.contLists e here
    exact ⟨_, linked, linked.nodup, fun b => roles.onList e b here⟩
  · exact ⟨_, roles.freeList, roles.freeList.nodup, roles.onFreeList⟩
  · obtain ⟨b, found, ⟨rfl, none⟩ | ⟨inside, same⟩⟩ := settled.toSound.findByID a
    all_goals refine ⟨_, found, fun c here => ?_⟩
    all_goals have onChain := settled.complete .id c here
    · exact iff_of_false (none c onChain) (settled.ne_zero onChain)
    · constructor
      · exact fun known => settled.ids c onChain b inside (known.trans same.symm)
      · rintro rfl
        exact same
  · exact fun b c here here' => settled.names b (settled.complete .name b here) c (settled.complete .name c here')

/-- In every run in which no entry that owns groups gets another id. -/
theorem blocks_arranged {s : Server} (run : Reachable (fun s _ r => Renumbering False s r) s) : ∃ role, Arranged s.db role := by
  obtain ⟨v, o, consistent⟩ := run.consistent
  exact ⟨_, consistent.settled.arranged⟩

theorem blocks_arranged_initial : ∃ db, initdb { noAuth := true } = .ok db ∧
    ∃ role, Arranged ((({ db := db } : Server).step { noAuth := true } (.iNewEntry sysAdminId [117] 1 0)).step
      { noAuth := true } (.addToGroup sysAdminId 1 sysAdminId)).db role := by
  have fine : (initdb { noAuth := true }).toOption.any (fun _ => true) = true := by decide +kernel
  obtain ⟨db, made, -⟩ := exists_of_any fine
  exact ⟨db, made, blocks_arranged (.step (.step (.start made) trivial) trivial)⟩

end OpenAFS.Ptserver
