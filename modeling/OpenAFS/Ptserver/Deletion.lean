import OpenAFS.Ptserver.Creation

namespace OpenAFS.Ptserver

open Function (update update_self)
open Lib List

variable {labels : Prop} {db db' : PrDb} {v v' : View} {o : Chains}

variable {loc : Nat} {tentry : PrEntry} {more : Option PrDb.Phase} {aid : Id}

theorem Sound.releaseFirst (sound : Sound labels db v) {c : Nat} {rest : List Nat} (here : v.role loc = .entry)
    (split : v.conts loc = c :: rest) {e : PrEntry}
    (less : e = { db.entry loc with count := (db.entry loc).count - (listed (db.cont c).entries).length })
    (result : db' = (db.freeBlock c).putEntry loc { e with next := (db.cont c).next }) :
    ∃ v', Sound labels db' v' ∧ ListsOnly db v [] db' v' ∧ (∀ b ≠ loc, v.role b = .entry → Untouched db v db' v' b) ∧
      ∀ x, x ∈ db'.ids v'.conts loc ↔ x ∈ db.ids v.conts loc ∧ x ∉ listed (db.cont c).entries := by
  obtain ⟨role', free', step, old, main, count⟩ := ListStep.release (e := e) sound.roles here
    (show v.conts loc = [] ++ c :: rest from split) (by rw [less]; rfl) (by rw [less]) (result.trans (if_pos rfl).symm)
  have ok := sound.lists loc here
  have lists : update v.conts loc rest loc = rest := update_self ..
  have slots : db.slots v.conts loc = [(db.entry loc).entries] ++ (db.cont c).entries ::
      rest.map fun d => (db.cont d).entries := by
    unfold PrDb.slots
    rw [split]
    rfl
  have slots' : db'.slots (update v.conts loc rest) loc = [(db.entry loc).entries] ++ rest.map fun d => (db.cont d).entries := by
    unfold PrDb.slots
    rw [lists, main, less]
    congr 1
    exact map_congr_left fun d inside => (old d inside).1
  have ids : (db.ids v.conts loc).Perm (listed (db.cont c).entries ++ db'.ids (update v.conts loc rest) loc) := by
    unfold PrDb.ids
    rw [slots, slots', Slots.all_middle, Slots.all, Slots.all, Slots.all, flatMap_append]
    exact perm_append_comm_assoc ..
  have once := ids.nodup_iff.mp ok.once
  have ok' : ListOK labels db' (update v.conts loc rest) loc := by
    have packed := ok.packed
    rw [slots] at packed
    refine ⟨?_, ?_, ?_, once.of_append_right, ?_, ?_⟩
    · rw [slots']
      exact packed.erase
    · rw [main, less]
      exact ok.main
    · intro d inside
      rw [lists] at inside
      rw [(old d inside).1]
      exact ok.sizes d (split ▸ mem_cons_of_mem c inside)
    · rw [count, less]
      change (db.entry loc).count - _ = _
      rw [ok.count, ids.length_eq, length_append]
      omega
    · intro marked d inside
      rw [lists] at inside
      rw [(old d inside).2, show (db'.entry loc).id = (db.entry loc).id from congrArg (fun d => d.id) step.rest]
      exact ok.named marked d (split ▸ mem_cons_of_mem c inside)
  refine ⟨_, (sound.listStep step ok').1, .of_step step, fun b other known => sound.untouched step other known, ?_⟩
  intro x
  rw [ids.mem_iff, mem_append]
  constructor
  · intro listed
    exact ⟨.inr listed, fun gone => disjoint_of_nodup_append once gone listed⟩
  · exact fun known => known.1.resolve_left known.2

theorem Symmetric.cut (symmetric : Symmetric db v) (sound : Sound labels db v) (cut : Nat → Nat → Prop) (both : ∀ b c, cut b c → cut c b)
    (on : ∀ b ∈ v'.on .id, b ∈ v.on .id) (gone : ∀ b ∈ v.on .id, b ∉ v'.on .id → ∀ c, cut b c)
    (ids : ∀ b ∈ v'.on .id, (db'.entry b).id = (db.entry b).id)
    (kinds : ∀ b ∈ v'.on .id, ((db'.entry b).isGroup ↔ (db.entry b).isGroup))
    (lists : ∀ b ∈ v'.on .id, ∀ x, x ∈ db'.ids v'.conts b ↔
      x ∈ db.ids v.conts b ∧ ∀ c ∈ v.on .id, (db.entry c).id = x → ¬ cut b c) : Symmetric db' v' := by
  intro b inside x listed
  obtain ⟨old, kept⟩ := (lists b inside x).mp listed
  obtain ⟨c, inside', same, kind, back⟩ := symmetric b (on b inside) x old
  have there : c ∈ v'.on .id := by
    by_contra out
    exact kept c inside' same (both c b (gone c inside' out b))
  refine ⟨c, there, (ids c there).trans same, ?_, ?_⟩
  · rw [kinds c there, kinds b inside]
    exact kind
  rw [ids b inside, lists c there]
  refine ⟨back, fun d inside'' equal apart => ?_⟩
  obtain rfl := sound.ids d inside'' b (on b inside) equal
  exact kept c inside' same (both c d apart)

theorem deleteCont_consistent (consistent : Consistent labels db v o) (inside : loc ∈ v.on .id) (some : (db.entry loc).next ≠ 0)
    (done : db.deleteCont (db.entry loc).id loc (db.entry loc).next = .ok db') :
    ∃ v', Consistent labels db' v' o ∧ (Housed db v o → Housed db' v' o) := by
  have sound := consistent.settled.toSound
  have here := sound.entry consistent.settled.whole inside
  have first := sound.roles.contLists loc here
  generalize isNext : (db.entry loc).next = nptr at *
  cases split : v.conts loc with
  | nil =>
    rw [split] at first
    exact absurd (isNext.symm.trans first) some
  | cons c rest =>
    rw [split] at first
    obtain rfl : nptr = c := isNext.symm.trans first.1
    obtain ⟨db₁, removed, done⟩ := except_bind_eq_ok.mp done
    cases done
    generalize isS : listed (db.cont nptr).entries = S at removed
    have none : v.dying ∈ v.on .id → (db.entry v.dying).id = (db.entry loc).id :=
      fun inside => absurd consistent.settled.whole (sound.ne_zero inside)
    obtain ⟨absent, v₁, sound₁, only₁, untouched₁, touched₁⟩ :=
      sound.removeFromAll (sound.plain loc inside) none removed
    obtain ⟨sameConts, sameEntry, sameCont⟩ := untouched₁ loc here (.inr absent)
    have here₁ := (only₁.live loc).mpr here
    have block : db₁.cont nptr = db.cont nptr := sameCont nptr (by rw [split]; exact mem_cons_self)
    obtain ⟨v₂, sound₂, only₂, untouched₂, lists₂⟩ := sound₁.releaseFirst here₁ (sameConts.trans split)
      (e := { db.entry loc with count := (db.entry loc).count - S.length })
      (by rw [sameEntry, block, isS]) (by rw [block])
    rw [block, isS, (untouched₁ loc here (.inr absent)).ids] at lists₂
    have only : ListsOnly db v [] _ v₂ := only₁.trans only₂
    refine ⟨v₂, consistent.lists sound₂ only ?_, fun housed => housed.lists sound only⟩
    -- the block's members and the entry do not list each other any more
    apply consistent.symmetric.cut sound (fun b c => b = loc ∧ (db.entry c).id ∈ S ∨ c = loc ∧ (db.entry b).id ∈ S)
    · exact fun b c => Or.symm
    · rw [only.on]
      exact fun _ => id
    · rw [only.on]
      exact fun b inside out => absurd inside out
    · rw [only.on]
      exact fun b inside => only.id_of_mem sound inside
    · rw [only.on]
      exact fun b inside => only.isGroup_of_mem sound inside
    rw [only.on]
    intro b inside' x
    by_cases same : b = loc
    · subst same
      rw [lists₂]
      refine and_congr_right fun listed => ?_
      obtain ⟨d, inD, isX, -, -⟩ := consistent.symmetric b inside' x listed
      constructor
      · rintro out c inC rfl (⟨-, member⟩ | ⟨-, member⟩)
        · exact out member
        · exact absent member
      · exact fun all member => all d inD isX (.inl ⟨rfl, isX ▸ member⟩)
    have known := sound.entry consistent.settled.whole inside'
    rw [(untouched₂ b same ((only₁.live b).mpr known)).ids]
    by_cases member : (db.entry b).id ∈ S
    · rw [touched₁ b inside' known member, and_comm]
      refine and_congr_right fun listed => ?_
      constructor
      · rintro different c inC rfl (⟨isLoc, -⟩ | ⟨rfl, -⟩)
        · exact same isLoc
        · exact different rfl
      · rintro all rfl
        exact all loc inside rfl (.inr ⟨rfl, member⟩)
    · rw [(untouched₁ b known (.inr member)).ids]
      refine (and_iff_left ?_).symm
      rintro c - - (⟨isLoc, -⟩ | ⟨-, member'⟩)
      · exact same isLoc
      · exact member member'

structure Leftover (db : PrDb) (v : View) (o : Chains) (loc nptr : Nat) (rest : List Nat) : Prop where
  linked : Linked id (fun b => (db.entry b).nextOwned) nptr rest
  groups : ∀ g ∈ rest, g ∈ v.on .id ∧ (db.entry g).isGroup ∧ (db.entry g).owner = (db.entry loc).id ∧ g ∉ o.owned

structure Moved (db : PrDb) (v : View) (o : Chains) (loc : Nat) (moved : List Nat) (db' : PrDb) (o' : Chains) : Prop where
  only : OwnersOnly db db'
  owners : Owners db' v o'
  broken : o'.broken = o.broken
  moving : o'.moving = o.moving
  entry : db'.entry loc = db.entry loc
  owned : ∀ g, g ∈ o'.owned ↔ g ∈ o.owned ∨ g ∈ moved ∧ g ≠ loc
  orphans : ∀ g ∈ moved, g ≠ loc → o'.home g = none
  homes : ∀ g ∈ o.owned, o'.home g = o.home g

theorem Moved.refl (owners : Owners db v o) (loc : Nat) : Moved db v o loc [] db o := by
  refine ⟨.refl db, owners, rfl, rfl, rfl, ?_, ?_, fun _ _ => rfl⟩
  · simp
  · simp

theorem Moved.self (owners : Owners db v o) {nptr : Nat} (self : nptr = loc) : Moved db v o loc [nptr] db o := by
  refine ⟨.refl db, owners, rfl, rfl, rfl, ?_, ?_, fun _ _ => rfl⟩
  · intro g
    rw [mem_singleton, or_iff_left]
    exact fun passed => passed.2 (passed.1.trans self)
  · exact fun g inside other => absurd ((List.mem_singleton.mp inside).trans self) other

theorem Moved.trans {db₁ : PrDb} {o₁ o' : Chains} {first second : List Nat}
    (early : Moved db v o loc first db₁ o₁) (late : Moved db₁ v o₁ loc second db' o') :
    Moved db v o loc (first ++ second) db' o' := by
  refine ⟨early.only.trans late.only, late.owners, late.broken.trans early.broken, late.moving.trans early.moving,
    late.entry.trans early.entry, ?_, ?_, ?_⟩
  · intro g
    rw [late.owned, early.owned, mem_append, or_and_right, or_assoc]
  · intro g inside other
    by_cases again : g ∈ second
    · exact late.orphans g again other
    · have member := (List.mem_append.mp inside).resolve_right again
      rw [late.homes g ((early.owned g).mpr (.inr ⟨member, other⟩)), early.orphans g member other]
  · intro g member
    rw [late.homes g ((early.owned g).mpr (.inl member)), early.homes g member]

theorem single_split {a b : Nat} {early late : List Nat} (split : [a] = early ++ b :: late) : early = [] := by
  have length := congrArg List.length split
  rw [length_append, length_cons, length_cons, length_nil] at length
  exact List.length_eq_zero_iff.mp (by omega)

theorem moveOwned_moved {nptr fuel count : Nat} {rest : List Nat} {tentry' : PrEntry} {more : Option Nat}
    (owners : Owners db v o) (sound : Sound labels db v) (inLoc : loc ∈ v.on .id)
    (left : Leftover db v o loc nptr rest) (isEntry : tentry = { db.entry loc with owned := nptr })
    (done : PrDb.moveOwned loc fuel nptr tentry count db = .ok (db', tentry', more)) :
    ∃ db₁ o₁ before after n, rest = before ++ after ∧ Moved db v o loc before db₁ o₁ ∧ Leftover db₁ v o₁ loc n after ∧
      tentry' = { db.entry loc with owned := n } ∧
      (more = none ∧ after = [] ∧ db' = db₁ ∨
        (∃ c, more = some c) ∧ db' = db₁.putEntry loc tentry' ∧ 50 ≤ count + (before.filter fun g => g ≠ loc).length ∧
          ∀ early late, before = early ++ loc :: late → early = [] ∨ count + early.length < 50) := by
  induction rest generalizing db o fuel nptr count tentry with
  | nil =>
    cases fuel with
    | zero => cases done
    | succ fuel =>
      have stop : nptr = 0 := left.linked
      rw [PrDb.moveOwned, if_pos stop] at done
      cases done
      exact ⟨_, o, [], [], nptr, rfl, .refl owners loc, left, isEntry, .inl ⟨rfl, rfl, rfl⟩⟩
  | cons c rest ih =>
    cases fuel with
    | zero => cases done
    | succ fuel =>
      have once := List.nodup_cons.mp left.linked.nodup
      obtain rfl : nptr = c := left.linked.1
      obtain ⟨inC, group, owner, fresh⟩ := left.groups nptr mem_cons_self
      rw [PrDb.moveOwned, if_neg left.linked.2.1] at done
      have idC : (db.entry nptr).id ≠ tentry.id ↔ nptr ≠ loc := by
        rw [isEntry]
        exact not_congr ⟨sound.ids nptr inC loc inLoc, fun same => by rw [same]⟩
      by_cases self : nptr = loc
      · -- the entry itself is on its own chain
        rw [if_neg (mt idC.mp (not_not_intro self))] at done
        have left' : Leftover db v o loc (db.entry nptr).nextOwned rest :=
          ⟨left.linked.2.2, fun g inside => left.groups g (mem_cons_of_mem _ inside)⟩
        change (if count < 50 then _ else _) = _ at done
        split at done
        · obtain ⟨db₁, o₁, before, after, n, rfl, moved, left₁, result, ending⟩ :=
            ih owners sound left' (by rw [isEntry]) done
          refine ⟨db₁, o₁, nptr :: before, after, n, rfl, (Moved.self owners self).trans moved, left₁, result, ?_⟩
          refine ending.imp_right fun ⟨more, written, enough, passed⟩ => ⟨more, written, ?_, ?_⟩
          · rwa [filter_cons_of_neg (by simpa using self)]
          intro early late split
          cases early with
          | nil => exact .inl rfl
          | cons _ early =>
            rw [cons_append, List.cons.injEq] at split
            apply absurd (mem_append_left after _) once.1
            rw [split.2, self]
            simp
        · cases done
          refine ⟨_, o, [nptr], rest, _, rfl, .self owners self, left', by rw [isEntry], .inr ⟨⟨_, rfl⟩, rfl, by omega, ?_⟩⟩
          exact fun early late split => .inl (single_split split)
      rw [if_pos (idC.mpr self)] at done
      obtain ⟨db₁, orphaned, done⟩ := except_bind_eq_ok.mp done
      obtain ⟨db₁', orphaned', only, others, -, owners₁⟩ := owners.addToOrphan sound inC group fresh
      cases orphaned.symm.trans orphaned'
      have step : Moved db v o loc [nptr] db₁
          { o with owned := nptr :: o.owned, home := update o.home nptr none } := by
        refine ⟨only, owners₁, rfl, rfl, others loc (Ne.symm self), ?_, ?_, ?_⟩
        · intro g
          rw [mem_cons, mem_singleton, or_comm, and_iff_left_of_imp]
          rintro rfl
          exact self
        · intro g inside _
          rw [List.mem_singleton.mp inside]
          exact update_self ..
        · intro g member
          refine Function.update_of_ne ?_ ..
          rintro rfl
          exact fresh member
      have sound₁ : Sound labels db₁ v := (sound.kept only.kept).1
      have apart {g : Nat} (inside : g ∈ rest) : g ≠ nptr := fun same => once.1 (same ▸ inside)
      have left₁ : Leftover db₁ v { o with owned := nptr :: o.owned, home := update o.home nptr none } loc
          (db.entry nptr).nextOwned rest := by
        refine ⟨left.linked.2.2.congr_values fun g inside => by rw [others g (apart inside)], fun g inside => ?_⟩
        obtain ⟨inG, group, owner, out⟩ := left.groups g (mem_cons_of_mem _ inside)
        rw [others g (apart inside), others loc (Ne.symm self), mem_cons, not_or]
        exact ⟨inG, group, owner, apart inside, out⟩
      change (if count + 1 < 50 then _ else _) = _ at done
      split at done
      · obtain ⟨db₂, o₂, before, after, n, rfl, moved, left₂, result, ending⟩ :=
          ih owners₁ sound₁ left₁ (by rw [isEntry, others loc (Ne.symm self)]) done
        rw [others loc (Ne.symm self)] at result
        refine ⟨db₂, o₂, nptr :: before, after, n, rfl, step.trans moved, left₂, result, ?_⟩
        refine ending.imp_right fun ⟨more, written, enough, passed⟩ => ⟨more, written, ?_, ?_⟩
        · rw [filter_cons_of_pos (by simpa using self), length_cons]
          omega
        intro early late split
        cases early with
        | nil => exact .inl rfl
        | cons _ early =>
          rw [cons_append, List.cons.injEq] at split
          right
          rw [length_cons]
          rcases passed early late split.2 with rfl | few
          · omega
          · omega
      · cases done
        refine ⟨_, _, [nptr], rest, _, rfl, step, left₁, by rw [isEntry], .inr ⟨⟨_, rfl⟩, rfl, ?_, ?_⟩⟩
        · rw [filter_cons_of_pos (by simpa using self), length_cons]
          omega
        · exact fun early late split => .inl (single_split split)

theorem Settled.takeApart {db₁ : PrDb} {fuel : Nat} (settled : Settled labels db v) (inside : loc ∈ v.on .id)
    (first : PrDb.removeFromAll (db.entry loc).id (listed (db.entry loc).entries) db = .ok db₁)
    (rest : PrDb.deleteFrom (db.entry loc).id fuel (db.entry loc).next db₁ = .ok db') :
    ∃ v', Sound labels db' v' ∧ ListsOnly db (v.drop loc) (v.conts loc) db' v' ∧
      ∀ b ∈ v.on .id, b ≠ loc → ∀ x, x ∈ db'.ids v'.conts b ↔
        ((db.entry b).id ∈ db.ids v.conts loc → x ≠ (db.entry loc).id) ∧ x ∈ db.ids v.conts b := by
  have here := settled.entry settled.whole inside
  have plain := settled.plain loc inside
  have dropped := settled.toSound.drop settled.whole here
  obtain ⟨absent, v₁, sound₁, only₁, untouched₁, touched₁⟩ := dropped.removeFromAll plain (fun _ => rfl) first
  -- the continuation blocks are as they were
  have mine {c : Nat} (member : c ∈ v.conts loc) : (v.drop loc).role c = .loose ∧ c ≠ loc := by
    have used := (settled.roles.onList loc c here).mp member
    refine ⟨if_pos (.inr used), ?_⟩
    rintro rfl
    rw [here] at used
    cases used
  have block {c : Nat} (member : c ∈ v.conts loc) : db₁.block c = db.block c :=
    only₁.kept c (mine member).1 not_mem_nil
  have linked : Linked id (fun b => (db₁.entry b).next) (db.entry loc).next (v.conts loc) := by
    apply (settled.roles.contLists loc here).values.congr_values
    intro c member
    unfold PrDb.entry
    rw [block member]
    rfl
  have ids {b : Nat} (member : b ∈ v.on .id) : (db₁.entry b).id = (db.entry b).id := only₁.id_of_mem dropped member
  obtain ⟨v₂, sound₂, only₂, -, touched₂⟩ := sound₁.deleteFrom plain
    (by rw [only₁.on, only₁.dying]; exact fun member => ids member) linked
    (fun c member => by
      rw [only₁.loose, only₁.dying]
      exact ⟨⟨(mine member).1, not_mem_nil⟩, (mine member).2⟩) rest
  refine ⟨v₂, sound₂, only₁.trans only₂, ?_⟩
  intro b member other x
  have known : (v.drop loc).role b = .entry := dropped.live .id b member other
  rw [touched₂ b (by rwa [only₁.on]) ((only₁.live b).mpr known), ids member, @mem_ids db v.conts loc, or_imp, and_assoc]
  have same : (∃ c ∈ v.conts loc, (db.entry b).id ∈ listed (db₁.cont c).entries) ↔
      ∃ c ∈ v.conts loc, (db.entry b).id ∈ listed (db.cont c).entries := by
    refine exists_congr fun c => and_congr_right fun member => ?_
    unfold PrDb.cont
    rw [block member]
  rw [same, and_left_comm]
  by_cases main : (db.entry b).id ∈ listed (db.entry loc).entries
  · rw [touched₁ b member known main, imp_iff_right main]
    rfl
  · rw [(untouched₁ b known (.inr main)).ids, and_iff_right fun listed => absurd listed main]
    rfl

theorem Owners.setOwned {n : Nat} (owners : Owners db v o) (broken : o.broken = loc) (form : db.IsEntry loc) :
    OwnersOnly db (db.putEntry loc { db.entry loc with owned := n }) ∧
      Owners (db.putEntry loc { db.entry loc with owned := n }) v o := by
  have only := OwnersOnly.putEntry (e := { db.entry loc with owned := n }) form rfl
  have this : (db.putEntry loc { db.entry loc with owned := n }).entry loc = { db.entry loc with owned := n } := by
    rw [PrDb.entry_putEntry, if_pos rfl]
  have others (b : Nat) (other : b ≠ loc) : (db.putEntry loc { db.entry loc with owned := n }).entry b = db.entry b := by
    rw [PrDb.entry_putEntry, if_neg other]
  have words (b : Nat) : ((db.putEntry loc { db.entry loc with owned := n }).entry b).nextOwned = (db.entry b).nextOwned ∧
      ((db.putEntry loc { db.entry loc with owned := n }).entry b).owner = (db.entry b).owner := by
    by_cases same : b = loc
    · rw [same, this]
      exact ⟨rfl, rfl⟩
    · rw [others b same]
      exact ⟨rfl, rfl⟩
  refine ⟨only, ?_, ?_, ?_⟩
  · intro i known
    apply (owners.chains i known).congr
    · cases i with
      | none => rfl
      | some b => exact congrArg PrEntry.owned (others b (broken ▸ (known b rfl).2))
    · exact fun c _ => (words c).1
  · intro g member
    rw [(PrEntry.alike_of_unowned (only.entry g)).isGroup]
    exact owners.groups g member
  · intro g member moving
    rw [(words g).2, owners.owner g member moving]
    cases o.home g with
    | none => rfl
    | some b => exact (only.id b).symm

structure Detached (db : PrDb) (v : View) (o : Chains) (loc : Nat) : Prop where
  owners : Owners db v o
  broken : o.broken = loc
  still : o.moving = 0
  head : (db.entry loc).owned = 0 ∨ (db.entry loc).owned = loc ∨
    (db.entry loc).owned ∈ o.owned ∧ o.home (db.entry loc).owned = none

theorem Detached.removeFromOwnChain (detached : Detached db v o loc) (sound : Sound labels db v)
    (inside : loc ∈ v.on .id) (out : loc ∉ o.owned)
    (done : db.removeFromOwnerChain (db.entry loc).id (db.entry loc).id = .ok db') :
    OwnersOnly db db' ∧ Owners db' v o := by
  obtain ⟨owners, broken, still, head⟩ := detached
  have form : db.IsEntry loc := (sound.threaded.entries .id loc inside).1
  unfold PrDb.removeFromOwnerChain at done
  rw [sound.findByID_of_mem inside] at done
  obtain ⟨-, done⟩ := ensure_then.mp done
  dsimp only at done
  rcases head with none | self | ⟨member, home⟩
  · rw [if_pos none] at done
    cases done
    exact ⟨.refl _, owners⟩
  · -- the group was the first on its chain
    have nonzero : loc ≠ 0 := sound.ne_zero inside
    rw [self, if_neg nonzero, if_pos rfl] at done
    cases done
    have once : (db.putEntry loc { db.entry loc with nextOwned := 0 }).putEntry loc
        { db.entry loc with owned := (db.entry loc).nextOwned } =
          db.putEntry loc { db.entry loc with owned := (db.entry loc).nextOwned } := by
      unfold PrDb.putEntry
      rw [Function.update_idem]
    rw [once]
    exact owners.setOwned broken form
  -- the chain leads into the list of the groups without an owner
  generalize (db.entry loc).owned = h at *
  have known : Heads v o none := fun b => nofun
  obtain ⟨before, after, split⟩ := append_of_mem (Owners.mem_chain.mpr ⟨member, home⟩)
  have linked := owners.chain known
  have short := owners.length_chain sound known
  have once := linked.nodup
  rw [split] at linked short once
  rw [length_append, length_cons] at short
  have inChain {c : Nat} (later : c ∈ h :: after) : c ∈ o.owned := by
    have member : c ∈ before ++ h :: after := mem_append_right _ later
    rw [← split] at member
    exact (Owners.mem_chain.mp member).1
  have other {c : Nat} (later : c ∈ h :: after) : (db.entry c).id ≠ (db.entry loc).id := by
    intro same
    obtain rfl := sound.ids c (owners.groups c (inChain later)).1 loc inside same
    exact out (inChain later)
  rw [if_neg (sound.ne_zero (owners.groups h member).1), if_neg (other mem_cons_self),
    ownerTrailFrom_none linked.drop.2.2 (List.nodup_cons.mp once.of_append_right).1 (by omega)
      fun c later => other (mem_cons_of_mem h later)] at done
  cases done
  exact ⟨.refl _, owners⟩

theorem Detached.disown (detached : Detached db v o loc) (sound : Sound labels db v)
    (inside : loc ∈ v.on .id) (done : db.disown (db.entry loc).id (db.entry loc).owner = .ok db') :
    OwnersOnly db db' ∧ Owners db' v { o with owned := o.owned.filter fun c => c ≠ loc } := by
  have notMoving : loc ≠ o.moving := by
    rw [detached.still]
    exact sound.ne_zero inside
  have owner (member : loc ∈ o.owned) := detached.owners.owner loc member notMoving
  by_cases self : (db.entry loc).owner = (db.entry loc).id
  · have out : loc ∉ o.owned := by
      intro member
      have heads := (detached.owners.groups loc member).2.2
      cases home : o.home loc with
      | none =>
        rw [self, home] at owner
        exact (sound.plain loc inside).2 (owner member)
      | some q =>
        rw [self, home] at owner
        obtain ⟨inQ, whole⟩ := heads q home
        exact whole ((sound.ids q inQ loc inside (owner member).symm).trans detached.broken.symm)
    rw [filter_ne_of_notMem out]
    apply detached.removeFromOwnChain sound inside out
    rw [self] at done
    unfold PrDb.disown at done
    rwa [if_pos (sound.plain loc inside).2] at done
  · obtain ⟨only, -, owners⟩ := detached.owners.disown sound inside (by
      intro p inP same isBroken
      apply self
      rw [← same, isBroken, detached.broken]) (fun member => (owner member).symm) done
    exact ⟨only, owners⟩

structure Doomed (labels : Prop) (db : PrDb) (v : View) (o : Chains) (loc : Nat) : Prop where
  settled : Settled labels db v
  symmetric : Symmetric db v
  users : Users db v
  detached : Detached db v o loc
  inside : loc ∈ v.on .id

theorem Doomed.quiet (doomed : Doomed labels db v o loc) (quiet : Quiet db db') : Doomed labels db' v o loc := by
  have sound := (doomed.settled.kept quiet.kept).1
  refine ⟨⟨sound, doomed.settled.whole, doomed.settled.used, doomed.settled.complete⟩,
    doomed.symmetric.kept doomed.settled.toSound doomed.settled.whole quiet.kept, doomed.users.kept quiet.kept,
    ⟨doomed.detached.owners.quiet quiet, doomed.detached.broken, doomed.detached.still, ?_⟩, doomed.inside⟩
  rw [(quiet.owners [loc]).owned loc mem_cons_self]
  exact doomed.detached.head

theorem returnCellQuota_quiet {cellid : Id} (settled : Settled labels db v) (done : db.returnCellQuota cellid = .ok db') :
    Quiet db db' := by
  obtain ⟨loc, found, done⟩ := except_bind_eq_ok.mp done
  split at done
  · cases done
    exact .refl _
  rename_i some
  obtain ⟨inside, here, -⟩ := settled.findByID found some
  cases done
  split
  · exact settled.charge here rfl (.inl rfl)
  · exact settled.charge here rfl (.inl rfl)

theorem deleteForeign_quiet (settled : Settled labels db v) (done : db.deleteForeign tentry = .ok db') : Quiet db db' := by
  unfold PrDb.deleteForeign at done
  split at done
  · split at done
    · obtain ⟨-, done⟩ := ensure_then.mp done
      cases done
      exact .refl _
    · exact returnCellQuota_quiet settled done
  · cases done
    exact .refl _

theorem returnQuota_quiet {creator : Id} (sound : Sound labels db v) (alive : ∀ b ∈ v.on .id, v.role b = .entry)
    (done : db.returnQuota creator = .ok db') : Quiet db db' := by
  obtain ⟨loc, found, done⟩ := except_bind_eq_ok.mp done
  rcases sound.of_findByID found with ⟨none, -⟩ | ⟨some, inside, -⟩
  · rw [if_pos none] at done
    cases done
    exact .refl _
  rw [if_neg some] at done
  obtain ⟨member, -, done⟩ := except_bind_eq_ok.mp done
  cases done
  split
  · exact sound.charge (alive loc inside) rfl (.inl rfl)
  · exact sound.charge (alive loc inside) rfl (.inl rfl)

theorem countDeleted_quiet (tentry : PrEntry) : Quiet db (db.countDeleted tentry) := by
  unfold PrDb.countDeleted
  split
  · exact Quiet.header rfl rfl (fun k => by cases k <;> rfl) rfl
  split
  · exact Quiet.header rfl rfl (fun k => by cases k <;> rfl) rfl
  · split
    · exact Quiet.header rfl rfl (fun k => by cases k <;> rfl) rfl
    · exact Quiet.header rfl rfl (fun k => by cases k <;> rfl) rfl

theorem Sound.bury (sound : Sound labels db v) (off : ∀ k, v.dying ∉ v.on k) : Sound labels db { v with dying := 0 } := by
  refine ⟨sound.roles, sound.threaded, fun k b inside _ => sound.live k b inside ?_, .inl rfl, sound.ids, sound.names,
    sound.plain, sound.short, sound.lists⟩
  rintro rfl
  exact off k inside

theorem Sound.unhash (sound : Sound labels db v) (dying : v.dying = loc) (onAll : ∀ k, loc ∈ v.on k) :
    ∃ db₁ db' v', db.removeFromIDHash (db.entry loc).id = .ok (db₁, loc) ∧
      db₁.removeFromNameHash (db.entry loc).name = .ok (db', loc) ∧ OnlyLinks db db' ∧ Sound labels db' v' ∧
      v'.dying = 0 ∧ v'.role = v.role ∧ v'.conts = v.conts ∧ ∀ k b, b ∈ v'.on k ↔ b ∈ v.on k ∧ b ≠ loc := by
  obtain ⟨db₁, first, only₁, sound₁⟩ := sound.removeFromIDHash (onAll .id)
  obtain ⟨db₂, second, only₂, sound₂⟩ := sound₁.removeFromNameHash
    (View.mem_off.mpr ⟨onAll .name, fun same => by cases same⟩)
  rw [only₁.name] at second
  have mem (k : Thread) (b : Nat) : b ∈ ((v.off .id loc).off .name loc).on k ↔ b ∈ v.on k ∧ b ≠ loc := by
    rw [View.mem_off, View.mem_off]
    cases k <;> simp
  have off (k : Thread) : ((v.off .id loc).off .name loc).dying ∉ ((v.off .id loc).off .name loc).on k := by
    rw [mem]
    exact fun inside => inside.2 dying
  exact ⟨db₁, db₂, _, first, second, only₁.trans only₂, sound₂.bury off, rfl, rfl, rfl, mem⟩

theorem Doomed.deleteEntry {n : Nat} (doomed : Doomed labels db v o loc)
    (isEntry : tentry = { db.entry loc with owned := n }) (done : db.deleteEntry tentry loc = .ok db') :
    ∃ v', Consistent labels db' v' { o with owned := o.owned.filter fun c => c ≠ loc, broken := 0 } ∧
      ((∀ b ∈ v.on .id, b ≠ loc → (db.entry b).isGroup → b ∈ o.owned) → Housed db' v' { o with owned := o.owned.filter fun c => c ≠ loc, broken := 0 }) := by
  obtain ⟨db₁, foreign, done⟩ := except_bind_eq_ok.mp done
  have quiet₁ := deleteForeign_quiet doomed.settled foreign
  obtain ⟨settled, symmetric, users, detached, inside⟩ := doomed.quiet quiet₁
  have here := settled.entry settled.whole inside
  have alike := quiet₁.kept.entry loc
  obtain ⟨db₂, first, done⟩ := except_bind_eq_ok.mp done
  obtain ⟨db₃, rest, done⟩ := except_bind_eq_ok.mp done
  have same : tentry.id = (db₁.entry loc).id ∧ tentry.entries = (db₁.entry loc).entries ∧
      tentry.next = (db₁.entry loc).next ∧ tentry.name = (db₁.entry loc).name := by
    rw [isEntry]
    exact ⟨alike.id.symm, alike.entries.symm, alike.next.symm, alike.name.symm⟩
  have owner : tentry.owner = (db₁.entry loc).owner := by
    rw [isEntry, (quiet₁.owners [loc]).owner loc mem_cons_self]
  have isGroup : tentry.isGroup ↔ (db₁.entry loc).isGroup := by
    rw [isEntry]
    exact alike.isGroup.symm
  rw [same.1, same.2.1] at first
  rw [same.1, same.2.2.1] at rest
  obtain ⟨v₃, sound₃, only₃, lists₃⟩ := settled.takeApart inside first rest
  extract_lets finish at done
  have dropped := settled.toSound.drop settled.whole here
  have rest₃ := only₃.rest_of_mem dropped inside
  have id₃ : (db₃.entry loc).id = (db₁.entry loc).id := congrArg (fun d => d.id) rest₃
  have owner₃ : (db₃.entry loc).owner = (db₁.entry loc).owner := congrArg (fun d => d.owner) rest₃
  have owned₃ : (db₃.entry loc).owned = (db₁.entry loc).owned := congrArg (fun d => d.owned) rest₃
  have inside₃ : loc ∈ v₃.on .id := by rwa [only₃.on]
  have detached₃ : Detached db₃ v₃ o loc := by
    refine ⟨?_, detached.broken, detached.still, by rw [owned₃]; exact detached.head⟩
    have owners : Owners db₁ (v.drop loc) o := ⟨detached.owners.chains, detached.owners.groups, detached.owners.owner⟩
    apply owners.congr (SameOwners.listsOnly only₃ dropped)
    · rw [only₃.on]
      exact fun _ => id
    · rw [only₃.on]
      exact fun b inside out => absurd inside out
    intro g member
    cases home : o.home g with
    | none => rfl
    | some b => exact only₃.id_of_mem dropped ((owners.groups g member).2.2 b home).1
  -- a group leaves the chain of its owner
  obtain ⟨db₄, only₄, owners₄, done⟩ : ∃ db₄, OwnersOnly db₃ db₄ ∧
      Owners db₄ v₃ { o with owned := o.owned.filter fun c => c ≠ loc } ∧ finish db₄ = .ok db' := by
    split at done
    · obtain ⟨db₄, disowned, done⟩ := except_bind_eq_ok.mp done
      rw [same.1, owner, ← id₃, ← owner₃] at disowned
      obtain ⟨only₄, owners₄⟩ := detached₃.disown sound₃ inside₃ disowned
      exact ⟨db₄, only₄, owners₄, done⟩
    rename_i user
    refine ⟨db₃, .refl _, ?_, done⟩
    rw [filter_ne_of_notMem fun member => user ?_]
    · exact detached₃.owners
    · rw [isGroup, ← only₃.isGroup_of_mem dropped inside]
      exact (detached₃.owners.groups loc member).2.1
  obtain ⟨sound₄, ids₄⟩ := sound₃.kept only₄.kept
  have onAll (k : Thread) : loc ∈ v₃.on k := by
    rw [only₃.on]
    exact settled.complete k loc here
  have dying : v₃.dying = loc := only₃.dying
  obtain ⟨db₅, db₆, v₆, unID, unName, only₆, sound₆, whole₆, role₆, conts₆, on₆⟩ := sound₄.unhash dying onAll
  have name₄ : (db₄.entry loc).name = tentry.name := by
    rw [same.2.2.2, (only₄.kept.entry loc).name]
    exact congrArg (fun d => d.name) rest₃
  have id₄ : (db₄.entry loc).id = tentry.id := by
    rw [same.1, only₄.id, id₃]
  have nonzero : loc ≠ 0 := settled.ne_zero inside
  rw [id₄] at unID
  rw [name₄] at unName
  dsimp only [finish] at done
  rw [unID] at done
  obtain ⟨⟨_, _⟩, unhashed, done⟩ := except_bind_eq_ok.mp done
  cases unhashed
  rw [unName] at done
  obtain ⟨⟨_, _⟩, unhashed, done⟩ := except_bind_eq_ok.mp done
  cases unhashed
  have alive₆ (b : Nat) (member : b ∈ v₆.on .id) : v₆.role b = .entry := by
    apply sound₆.live .id b member
    rw [whole₆]
    exact sound₆.ne_zero member
  obtain ⟨db₇, quiet₇, done⟩ : ∃ db₇, Quiet db₆ db₇ ∧ db' = (db₇.countDeleted tentry).freeBlock loc := by
    split at done
    · obtain ⟨db₇, returned, done⟩ := except_bind_eq_ok.mp done
      cases done
      exact ⟨db₇, returnQuota_quiet sound₆ alive₆ returned, rfl⟩
    · cases done
      exact ⟨db₆, .refl _, rfl⟩
  have quiet₈ := quiet₇.trans (countDeleted_quiet tentry)
  generalize db₇.countDeleted tentry = db₈ at *
  obtain ⟨sound₈, ids₈⟩ := sound₆.kept quiet₈.kept
  have gone : v₆.role loc = .loose := by
    rw [role₆, only₃.loose]
    refine ⟨if_pos (.inl rfl), fun again => ?_⟩
    have used := (settled.roles.onList loc loc here).mp again
    rw [here] at used
    cases used
  obtain ⟨sound₉, only₉, untouched₉⟩ := sound₈.freeBlock gone (by rwa [whole₆])
  rw [← done] at sound₉ only₉ untouched₉
  have was {b : Nat} (member : b ∈ v₆.on .id) : b ∈ v.on .id ∧ b ≠ loc := by
    rw [on₆, only₃.on] at member
    exact member
  have id₉ {b : Nat} (member : b ∈ v₆.on .id) : (db'.entry b).id = (db₁.entry b).id := by
    rw [only₉.id_of_mem sound₈ member, quiet₈.id, only₆.id, only₄.id, only₃.id_of_mem dropped (was member).1]
  have kind₉ {b : Nat} (member : b ∈ v₆.on .id) : (db'.entry b).isGroup ↔ (db₁.entry b).isGroup := by
    rw [only₉.isGroup_of_mem sound₈ member, quiet₈.isGroup, (SameOwners.onlyLinks only₆).group b (mem_singleton_self b),
      (only₄.kept.entry b).isGroup, only₃.isGroup_of_mem dropped (was member).1]
  have name₉ {b : Nat} (member : b ∈ v₆.on .id) : (db'.entry b).name = (db₁.entry b).name := by
    rw [show (db'.entry b).name = (db₈.entry b).name from congrArg (fun d => d.name) (only₉.rest_of_mem sound₈ member),
      (quiet₈.kept.entry b).name, only₆.name, (only₄.kept.entry b).name]
    exact congrArg (fun d => d.name) (only₃.rest_of_mem dropped (was member).1)
  have owners₉ : Owners db' v₆ { o with owned := o.owned.filter fun c => c ≠ loc, broken := 0 } := by
    have left := owners₄.leave sound₄ (by simp [detached.broken]) fun b => by rw [on₆, detached.broken]
    have same₉ : SameOwners (v₆.on .id) db₄ db' :=
      ((SameOwners.onlyLinks only₆).trans (quiet₈.owners _)).trans (SameOwners.listsOnly only₉ sound₈)
    apply left.congr same₉ (fun _ => id) (fun b inside out => absurd inside out)
    intro g member
    have heads := (left.groups g member).2.2
    change db'.ownerOf (o.home g) = db₄.ownerOf (o.home g)
    change ∀ b, o.home g = some b → _ at heads
    cases home : o.home g with
    | none => rfl
    | some b =>
      exact (only₉.id_of_mem sound₈ (heads b home).1).trans ((quiet₈.id b).trans (only₆.id b))
  have known₆ {b : Nat} (member : b ∈ v₆.on .id) : v₃.role b = .entry := by
    rw [← role₆]
    exact alive₆ b member
  have lists₉ {b : Nat} (member : b ∈ v₆.on .id) (x : Id) : x ∈ db'.ids v₆.conts b ↔
      ((db₁.entry b).id ∈ db₁.ids v.conts loc → x ≠ (db₁.entry loc).id) ∧ x ∈ db₁.ids v.conts b := by
    rw [← lists₃ b (was member).1 (was member).2, ← ids₄ b (known₆ member), ← only₆.ids, ← conts₆,
      ← ids₈ b (alive₆ b member), ← (untouched₉ b (alive₆ b member)).ids]
  have symmetric₉ : Symmetric db' v₆ := by
    apply symmetric.cut settled.toSound (fun b c => b = loc ∨ c = loc)
    · exact fun b c => Or.symm
    · exact fun b member => (was member).1
    · intro b member out c
      rw [on₆, only₃.on] at out
      exact .inl (not_not.mp fun other => out ⟨member, other⟩)
    · exact fun b member => id₉ member
    · exact fun b member => kind₉ member
    intro b member x
    rw [lists₉ member, and_comm]
    refine and_congr_right fun listed => ?_
    constructor
    · rintro away c inC rfl (isLoc | rfl)
      · exact (was member).2 isLoc
      -- the entry lists it in turn
      obtain ⟨d, inD, isD, -, back⟩ := symmetric b (was member).1 _ listed
      obtain rfl := settled.ids d inD c inC isD
      exact away back rfl
    · rintro all - rfl
      exact all loc inside rfl (.inr rfl)
  refine ⟨_, ⟨⟨sound₉, whole₆, symmetric₉, ⟨owners₉.chains, owners₉.groups, owners₉.owner⟩, ?_, rfl, detached.still⟩,
    sound₉, whole₆, ?_, ?_⟩, ?_⟩
  · intro b member user
    rw [kind₉ member] at user
    rw [name₉ member]
    exact users b (was member).1 user
  · intro b
    change update v₆.role loc Role.free b ≠ .loose
    by_cases same : b = loc
    · rw [same, update_self]
      simp
    rw [Function.update_of_ne same, role₆]
    intro loose
    obtain ⟨dropped', out⟩ := (only₃.loose b).mp loose
    change (if b = loc ∨ v.role b = .cont loc then Role.loose else v.role b) = .loose at dropped'
    split at dropped'
    · rename_i mine
      exact out ((settled.roles.onList loc b here).mpr (mine.resolve_left same))
    · exact settled.used b dropped'
  · intro k b known
    have used := (update_role (by simp)).mp known
    change b ≠ loc ∧ v₆.role b = .entry at used
    rw [role₆, only₃.live, View.role_drop (by simp)] at used
    change b ∈ v₆.on k
    rw [on₆, only₃.on]
    exact ⟨settled.complete k b used.2.2, used.1⟩
  · intro all b member group
    rw [kind₉ member, quiet₁.isGroup] at group
    rw [mem_filter, decide_eq_true_eq]
    exact ⟨all b (was member).1 (was member).2 group, (was member).2⟩

/-- A transaction of a deletion that ends before all groups of the entry are moved, but after the entry itself, which is
    one of them. -/
def PassesItself (db : PrDb) (loc count : Nat) : Prop :=
  ∃ before after, Linked id (fun b => (db.entry b).nextOwned) (db.entry loc).owned (before ++ loc :: after) ∧
    (before = [] ∨ count + before.length < 50) ∧ 50 ≤ count + before.length + after.length

variable (consistent : Consistent labels db v o)
include consistent

theorem deleteOwned_consistent {count : Nat}
    (inside : loc ∈ v.on .id) (done : db.deleteOwned loc count = .ok (db', more)) :
    ∃ v' o', Consistent labels db' v' o' ∧ (Housed db v o → ¬ PassesItself db loc count → Housed db' v' o') := by
  obtain ⟨⟨db₂, tentry, ending⟩, moved, done⟩ := except_bind_eq_ok.mp done
  have sound := consistent.sound
  have known : Heads v o (some loc) := by
    rintro b ⟨⟩
    rw [consistent.whole]
    exact ⟨inside, sound.ne_zero inside⟩
  have owners₀ := consistent.owners.breakOff sound consistent.whole loc
  have chained := (consistent.owners.chain known).values
  have left : Leftover db v { o with owned := o.owned.filter (fun g => o.home g ≠ some loc), broken := loc } loc
      (db.entry loc).owned (o.owned.filter fun c => o.home c = some loc) := by
    refine ⟨chained, fun g member => ?_⟩
    obtain ⟨owned, home⟩ := Owners.mem_chain.mp member
    obtain ⟨inG, group, -⟩ := consistent.owners.groups g owned
    refine ⟨inG, group, ?_, by simp [home]⟩
    rw [consistent.owners.owner g owned (by rw [consistent.still]; exact sound.ne_zero inG), home]
    rfl
  obtain ⟨db₁, o₁, before, after, n, split, moved₁, left₁, rfl, result⟩ := moveOwned_moved owners₀ sound inside left rfl moved
  have sound₁ := (sound.kept moved₁.only.kept).1
  have onChain {b : Nat} (member : b ∈ o.owned) : b ∈ o.owned.filter (fun g => o.home g ≠ some loc) ∨
      b ∈ o.owned.filter fun c => o.home c = some loc := by
    rw [mem_filter, mem_filter, decide_eq_true_eq, decide_eq_true_eq, ← and_or_left]
    exact ⟨member, (em _).symm⟩
  rcases result with ⟨rfl, rfl, rfl⟩ | ⟨⟨c, rfl⟩, rfl, enough, passed⟩
  · -- the loop is done
    obtain ⟨db₃, deleted, done⟩ := except_bind_eq_ok.mp done
    cases done
    rw [append_nil] at split
    have doomed : Doomed labels db₂ v o₁ loc := by
      refine ⟨⟨sound₁, consistent.intact, consistent.settled.used, consistent.settled.complete⟩,
        consistent.symmetric.kept sound consistent.intact moved₁.only.kept, consistent.users.kept moved₁.only.kept,
        ⟨moved₁.owners, moved₁.broken, moved₁.moving.trans consistent.still, ?_⟩, inside⟩
      rw [moved₁.entry]
      rw [split] at left
      cases before with
      | nil => exact .inl left.linked
      | cons g before =>
        right
        rw [show (db.entry loc).owned = g from left.linked.1]
        by_cases self : g = loc
        · exact .inl self
        · exact .inr ⟨(moved₁.owned g).mpr (.inr ⟨mem_cons_self, self⟩), moved₁.orphans g mem_cons_self self⟩
    rw [← moved₁.entry] at deleted
    obtain ⟨v', consistent', housed'⟩ := doomed.deleteEntry rfl deleted
    refine ⟨v', _, consistent', fun housed _ => housed' ?_⟩
    intro b member other group
    rw [(moved₁.only.kept.entry b).isGroup] at group
    rw [moved₁.owned, ← split]
    rcases onChain (housed b member group) with off | on
    · exact .inl off
    · exact .inr ⟨on, other⟩
  cases done
  rw [← moved₁.entry]
  obtain ⟨only, owners₂⟩ := moved₁.owners.setOwned (n := n) moved₁.broken (sound₁.threaded.entries .id loc inside).1
  have broken : o₁.broken = loc := moved₁.broken
  generalize isDb : db₁.putEntry loc { db₁.entry loc with owned := n } = db₂ at *
  have entry (b : Nat) : db₂.entry b = if b = loc then { db₁.entry loc with owned := n } else db₁.entry b := by
    rw [← isDb, PrDb.entry_putEntry]
  have word (b : Nat) : (db₂.entry b).nextOwned = (db₁.entry b).nextOwned ∧ (db₂.entry b).owner = (db₁.entry b).owner := by
    rw [entry]
    split
    · rename_i here
      rw [here]
      exact ⟨rfl, rfl⟩
    · exact ⟨rfl, rfl⟩
  have linked : Linked db₂.load Slot.nextOwned (.owned o₁.broken) after := by
    refine Linked.of_values (left₁.linked.congr_values fun b _ => (word b).1) ?_
    change (db₂.entry o₁.broken).owned = n
    rw [broken, entry, if_pos rfl]
  have mended := owners₂.mend (sound₁.kept only.kept).1 (by rwa [broken]) linked (by
    intro g member
    obtain ⟨inG, group, owner, out⟩ := left₁.groups g member
    rw [(only.kept.entry g).isGroup, (word g).2, broken, only.id]
    exact ⟨inG, group, owner, out⟩)
  have all := moved₁.only.trans only
  have coherent := consistent.toCoherent.ownersOnly all mended rfl (moved₁.moving.trans consistent.still)
  refine ⟨v, _, ⟨coherent, coherent.sound, consistent.intact, consistent.settled.used, consistent.settled.complete⟩, ?_⟩
  intro housed spared b member group
  rw [(all.kept.entry b).isGroup] at group
  rw [mem_append, moved₁.owned]
  rcases onChain (housed b member group) with off | on
  · exact .inr (.inl off)
  rw [split, mem_append] at on
  rcases on with first | later
  · refine .inr (.inr ⟨first, ?_⟩)
    rintro rfl
    -- the entry itself has been passed
    obtain ⟨early, late, cells⟩ := append_of_mem first
    apply spared
    refine ⟨early, late ++ after, ?_, passed early late cells, ?_⟩
    · rw [← cons_append, ← append_assoc, ← cells, ← split]
      exact chained
    have once : (before ++ after).Nodup := split ▸ chained.nodup
    have once' := once.of_append_left
    rw [cells] at once' enough
    rw [filter_ne_of_nodup once', length_append] at enough
    rw [length_append]
    omega
  · exact .inl later

def Spares (db : PrDb) (aid : Id) (phase : PrDb.Phase) : Prop :=
  ∀ loc, db.findByID aid = .ok loc → loc ≠ 0 → match phase with
    | .conts => (db.entry loc).next = 0 → ¬ PassesItself db loc 0
    | .owned count => ¬ PassesItself db loc count

theorem deleteNext_consistent {phase : PrDb.Phase} (found : db.findByID aid = .ok loc) (some : loc ≠ 0)
    (done : db.deleteNext aid loc phase = .ok (db', more)) :
    ∃ v' o', Consistent labels db' v' o' ∧ (Housed db v o → Spares db aid phase → Housed db' v' o') := by
  obtain ⟨inside, -, rfl⟩ := consistent.settled.findByID found some
  cases phase with
  | conts =>
    unfold PrDb.deleteNext at done
    dsimp only at done
    split at done
    · rename_i more
      obtain ⟨db₁, taken, done⟩ := except_bind_eq_ok.mp done
      cases done
      obtain ⟨v', consistent', housed'⟩ := deleteCont_consistent consistent inside more taken
      exact ⟨v', o, consistent', fun housed _ => housed' housed⟩
    · rename_i last
      obtain ⟨v', o', consistent', housed'⟩ := deleteOwned_consistent consistent inside done
      exact ⟨v', o', consistent', fun housed spares => housed' housed (spares loc found some (not_not.mp last))⟩
  | owned count =>
    obtain ⟨v', o', consistent', housed'⟩ := deleteOwned_consistent consistent inside done
    exact ⟨v', o', consistent', fun housed spares => housed' housed (spares loc found some)⟩

theorem deleteRequest_consistent {cfg : Config} {cid : Id} (done : db.deleteRequest cfg cid aid = .ok (db', more)) :
    ∃ v' o', Consistent labels db' v' o' ∧ (Housed db v o → Spares db aid .conts → Housed db' v' o') := by
  obtain ⟨-, done⟩ := ensure_then.mp done
  obtain ⟨loc, found, done⟩ := except_bind_eq_ok.mp done
  obtain ⟨some, done⟩ := ensure_then.mp done
  obtain ⟨admin, -, done⟩ := except_bind_eq_ok.mp done
  obtain ⟨member, -, done⟩ := except_bind_eq_ok.mp done
  obtain ⟨-, done⟩ := ensure_then.mp done
  exact deleteNext_consistent consistent found some done

theorem deleteFurther_consistent {phase : PrDb.Phase} (done : db.deleteFurther aid phase = .ok (db', more)) :
    ∃ v' o', Consistent labels db' v' o' ∧ (Housed db v o → Spares db aid phase → Housed db' v' o') := by
  obtain ⟨loc, found, done⟩ := except_bind_eq_ok.mp done
  obtain ⟨some, done⟩ := ensure_then.mp done
  exact deleteNext_consistent consistent found some done

end OpenAFS.Ptserver
