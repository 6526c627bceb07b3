import OpenAFS.Ptserver.Owners

namespace OpenAFS.Ptserver

open Lib List PrDb

variable {labels : Prop} {db db' : PrDb} {v : View} {o : Chains} {g : Nat}

namespace Owners

theorem chain (owners : Owners db v o) {i : Option Nat} (known : Heads v o i) :
    Linked db.load Slot.nextOwned (headOf i) (o.owned.filter fun c => o.home c = i) := owners.chains i known

theorem mem_chain {i : Option Nat} {c : Nat} : c ∈ (o.owned.filter fun c => o.home c = i) ↔ c ∈ o.owned ∧ o.home c = i := by
  rw [mem_filter, decide_eq_true_eq]

theorem length_chain (owners : Owners db v o) (sound : Sound labels db v) {i : Option Nat} (known : Heads v o i) :
    (o.owned.filter fun c => o.home c = i).length < db.fuel := by
  apply Nat.lt_succ_of_le
  apply length_le_of_nodup (owners.chain known).nodup
  intro c inside
  exact (sound.threaded.entries .id c (owners.groups c (mem_chain.mp inside).1).1).2

theorem removeFromOwnerChain (owners : Owners db v o) (sound : Sound labels db v) {loc : Nat} (inG : g ∈ v.on .id)
    (inLoc : loc ∈ v.on .id) (whole : loc ≠ o.broken) (place : g ∈ o.owned → o.home g = some loc) :
    ∃ db', db.removeFromOwnerChain (db.entry g).id (db.entry loc).id = .ok db' ∧ OwnersOnly db db' ∧
      (∀ b, (db'.entry b).owner = (db.entry b).owner) ∧
      Owners db' v { o with owned := o.owned.filter fun c => c ≠ g } := by
  have known : Heads v o (some loc) := by
    rintro b ⟨⟩
    exact ⟨inLoc, whole⟩
  have linked := owners.chain known
  have short := owners.length_chain sound known
  have form {b : Nat} (inside : b ∈ v.on .id) : db.IsEntry b := (sound.threaded.entries .id b inside).1
  have inChain {c : Nat} (member : c ∈ o.owned.filter fun c => o.home c = some loc) : c ∈ v.on .id :=
    (owners.groups c (mem_chain.mp member).1).1
  have other {c : Nat} (member : c ∈ o.owned.filter fun c => o.home c = some loc) (apart : c ≠ g) :
      (db.entry c).id ≠ (db.entry g).id := fun same => apart (sound.ids c (inChain member) g inG same)
  unfold PrDb.removeFromOwnerChain
  simp only [bind, Except.bind, sound.findByID_of_mem inLoc]
  rw [ensure, if_pos (sound.ne_zero inLoc)]
  by_cases inside : g ∈ o.owned
  · -- the group is on the chain
    have home := place inside
    have member : g ∈ o.owned.filter fun c => o.home c = some loc := mem_chain.mpr ⟨inside, home⟩
    obtain ⟨before, after, split⟩ := append_of_mem member
    have take {db' : PrDb} (taken : TakenOff db g (slotAfter Slot.nextOwned (headOf (some loc)) before) db') :
        OwnersOnly db db' ∧ (∀ b, (db'.entry b).owner = (db.entry b).owner) ∧
          Owners db' v { o with owned := o.owned.filter fun c => c ≠ g } := by
      refine ⟨taken.only, taken.owner, ?_⟩
      rw [← home] at taken split
      exact owners.takeOff inside split taken
    rw [split] at linked other
    have all := linked.nodup
    have once := all
    rw [nodup_append] at once
    cases before with
    | nil =>
      have first : (db.entry loc).owned = g := linked.1
      rw [first, if_neg linked.2.1, if_pos rfl]
      exact ⟨_, rfl, take (takenOff_owned (form inG) (form inLoc))⟩
    | cons c before =>
      have fresh : c ∉ before ++ g :: after := (List.nodup_cons.mp all).1
      obtain ⟨head, nonzero, later⟩ := linked
      change (db.entry loc).owned = c at head
      have apart (d : Nat) (early : d ∈ c :: before) : d ≠ g := once.2.2 d early g mem_cons_self
      rw [head, if_neg nonzero, if_neg (other mem_cons_self (apart c mem_cons_self))]
      rw [split] at short
      simp only [length_append, length_cons] at short
      have walk := @ownerTrailFrom_eq db g (db.entry g).id db.fuel c before after later fresh (by omega)
        (fun d early => other (by simp [early]) (apart d (mem_cons_of_mem _ early))) rfl
      refine ⟨_, walk, take ?_⟩
      have inLast : before.getLastD c ∈ c :: before := by
        rcases eq_nil_or_concat' before with rfl | ⟨front, q, rfl⟩
        · simp
        · simp
      rw [slotAfter, slotAfter_link]
      refine takenOff_link (form inG) (form (inChain ?_))
      rw [split]
      exact mem_append_left _ inLast
  · -- the group is not on the chain
    refine ⟨db, ?_, .refl db, fun _ => rfl, ?_⟩
    · have apart {c : Nat} (member : c ∈ o.owned.filter fun c => o.home c = some loc) : c ≠ g :=
        fun same => inside (same ▸ (mem_chain.mp member).1)
      generalize (o.owned.filter fun c => o.home c = some loc) = cells at *
      cases cells with
      | nil =>
        have stop : (db.entry loc).owned = 0 := linked
        rw [if_pos stop]
      | cons c cells =>
        have once := List.nodup_cons.mp linked.nodup
        obtain ⟨head, nonzero, later⟩ := linked
        change (db.entry loc).owned = c at head
        rw [head, if_neg nonzero, if_neg (other mem_cons_self (apart mem_cons_self))]
        rw [length_cons] at short
        apply ownerTrailFrom_none later once.1 (by omega)
        intro d inside
        exact other (mem_cons_of_mem _ inside) (apart (mem_cons_of_mem _ inside))
    · rw [filter_ne_of_notMem inside]
      exact owners

theorem removeFromOrphan (owners : Owners db v o) (sound : Sound labels db v) (inG : g ∈ v.on .id)
    (place : g ∈ o.owned → o.home g = none) :
    ∃ db', db.removeFromOrphan (db.entry g).id = .ok db' ∧ OwnersOnly db db' ∧ (∀ b, (db'.entry b).owner = (db.entry b).owner) ∧
      Owners db' v { o with owned := o.owned.filter fun c => c ≠ g } := by
  -- the list of the groups without an owner is one of the chains
  obtain ⟨i, isNone⟩ : ∃ i : Option Nat, i = none := ⟨_, rfl⟩
  have head : headOf i = .orphan := by rw [isNone]; rfl
  have known : Heads v o i := by
    rw [isNone]
    rintro b ⟨⟩
  have linked := owners.chain known
  rw [head] at linked
  have short := owners.length_chain sound known
  have form {b : Nat} (inside : b ∈ v.on .id) : db.IsEntry b := (sound.threaded.entries .id b inside).1
  have inChain {c : Nat} (member : c ∈ o.owned.filter fun c => o.home c = i) : c ∈ v.on .id :=
    (owners.groups c (mem_chain.mp member).1).1
  have other {c : Nat} (member : c ∈ o.owned.filter fun c => o.home c = i) (apart : c ≠ g) :
      (db.entry c).id ≠ (db.entry g).id := fun same => apart (sound.ids c (inChain member) g inG same)
  unfold PrDb.removeFromOrphan
  simp only [bind, Except.bind, sound.findByID_of_mem inG]
  rw [ensure, if_pos (sound.ne_zero inG)]
  by_cases inside : g ∈ o.owned
  · have home : o.home g = i := (place inside).trans isNone.symm
    have member : g ∈ o.owned.filter fun c => o.home c = i := mem_chain.mpr ⟨inside, home⟩
    obtain ⟨before, after, split⟩ := append_of_mem member
    have take {db' : PrDb} (taken : TakenOff db g (slotAfter Slot.nextOwned .orphan before) db') :
        OwnersOnly db db' ∧ (∀ b, (db'.entry b).owner = (db.entry b).owner) ∧
          Owners db' v { o with owned := o.owned.filter fun c => c ≠ g } := by
      refine ⟨taken.only, taken.owner, ?_⟩
      rw [← head, ← home] at taken
      rw [← home] at split
      exact owners.takeOff inside split taken
    rw [split] at linked other
    have once := linked.nodup
    rw [nodup_append] at once
    cases before with
    | nil =>
      have first : db.header.orphan = g := linked.1
      rw [if_pos first]
      exact ⟨_, rfl, take (takenOff_orphan (form inG))⟩
    | cons c before =>
      obtain ⟨first, nonzero, later⟩ := linked
      change db.header.orphan = c at first
      have apart (d : Nat) (early : d ∈ c :: before) : d ≠ g := once.2.2 d early g mem_cons_self
      have notFirst : db.header.orphan ≠ g := by
        rw [first]
        exact apart c mem_cons_self
      rw [if_neg notFirst, first]
      rw [split] at short
      simp only [length_append, length_cons] at short
      have walk := @orphanTrailFrom_eq db g (db.entry g).id (db.fuel - 1) c before after nonzero later (by omega)
        (fun d early => other (by simp [early]) (apart d (mem_cons_of_mem _ early))) rfl
      have inLast : before.getLastD c ∈ c :: before := by
        rcases eq_nil_or_concat' before with rfl | ⟨front, q, rfl⟩
        · simp
        · simp
      obtain ⟨fuel, more⟩ : ∃ m, db.fuel = m + 1 := ⟨db.fuel - 1, by omega⟩
      rw [more, Nat.add_sub_cancel] at walk
      rw [more, PrDb.orphanTrailFrom, if_neg nonzero]
      rw [if_neg (other mem_cons_self (apart c mem_cons_self)), walk, putEntry_comm (apart _ inLast)]
      refine ⟨_, rfl, take ?_⟩
      rw [slotAfter, slotAfter_link]
      refine takenOff_link (form inG) (form (inChain ?_))
      rw [split]
      exact mem_append_left _ inLast
  · refine ⟨db, ?_, .refl db, fun _ => rfl, ?_⟩
    · have apart {c : Nat} (member : c ∈ o.owned.filter fun c => o.home c = i) : c ≠ g :=
        fun same => inside (same ▸ (mem_chain.mp member).1)
      have notFirst : db.header.orphan ≠ g := by
        rcases linked.head_mem with none | member
        · rw [show db.header.orphan = 0 from none]
          exact Ne.symm (sound.ne_zero inG)
        · exact apart member
      rw [if_neg notFirst]
      exact orphanTrailFrom_none linked short fun c member => other member (apart member)
    · rw [filter_ne_of_notMem inside]
      exact owners

theorem addToOwnerChain (owners : Owners db v o) (sound : Sound labels db v) {loc : Nat} (inG : g ∈ v.on .id)
    (group : (db.entry g).isGroup) (inLoc : loc ∈ v.on .id) (whole : loc ≠ o.broken) (fresh : g ∉ o.owned)
    (owner : (db.entry g).owner = (db.entry loc).id) :
    ∃ db', db.addToOwnerChain (db.entry g).id (db.entry loc).id = .ok db' ∧ OwnersOnly db db' ∧
      (∀ b, (db'.entry b).owner = (db.entry b).owner) ∧
      Owners db' v { o with owned := g :: o.owned, home := Function.update o.home g (some loc) } := by
  have form {b : Nat} (inside : b ∈ v.on .id) : db.IsEntry b := (sound.threaded.entries .id b inside).1
  have known : Heads v o (some loc) := by
    rintro b ⟨⟩
    exact ⟨inLoc, whole⟩
  unfold PrDb.addToOwnerChain
  simp only [bind, Except.bind, sound.findByID_of_mem inLoc, sound.findByID_of_mem inG]
  rw [ensure, if_pos (sound.ne_zero inLoc)]
  by_cases self : (db.entry loc).id = (db.entry g).id
  · -- the group owns itself
    obtain rfl := sound.ids loc inLoc g inG self
    rw [if_pos rfl]
    have only : OwnersOnly db (db.putEntry loc { db.entry loc with nextOwned := (db.entry loc).owned, owned := loc }) :=
      OwnersOnly.putEntry (form inLoc) rfl
    have same (b : Nat) :
        ((db.putEntry loc { db.entry loc with nextOwned := (db.entry loc).owned, owned := loc }).entry b).owner =
          (db.entry b).owner := by
      rw [entry_putEntry]
      split
      · rename_i here
        rw [here]
      · rfl
    refine ⟨_, rfl, only, same, owners.push inLoc group fresh known only ?_ ?_ (sound.ne_zero inLoc) ?_ ?_ ?_ ?_⟩
    · change ((PrDb.putEntry _ _ _).entry loc).owned = loc
      rw [entry_putEntry, if_pos rfl]
    · change ((PrDb.putEntry _ _ _).entry loc).nextOwned = (db.entry loc).owned
      rw [entry_putEntry, if_pos rfl]
    · intro j other
      cases j with
      | none => rfl
      | some b =>
        change ((PrDb.putEntry _ _ _).entry b).owned = (db.entry b).owned
        rw [entry_putEntry, if_neg fun here => other (by rw [here])]
    · intro c other
      rw [load_nextOwned, load_nextOwned, entry_putEntry, if_neg other]
    · exact fun c _ => same c
    · rw [same]
      exact owner
  have apart : g ≠ loc := fun here => self (by rw [here])
  rw [if_neg self, ensure, if_pos (sound.ne_zero inG)]
  have only : OwnersOnly db ((db.putEntry g { db.entry g with nextOwned := (db.entry loc).owned }).putEntry loc
      { db.entry loc with owned := g }) := OwnersOnly.putTwo (form inG) (form inLoc) rfl rfl
  have same (b : Nat) : (((db.putEntry g { db.entry g with nextOwned := (db.entry loc).owned }).putEntry loc
      { db.entry loc with owned := g }).entry b).owner = (db.entry b).owner := by
    rw [entry_putEntry, entry_putEntry]
    split
    · rename_i here
      rw [here]
    split
    · rename_i here
      rw [here]
    · rfl
  refine ⟨_, rfl, only, same, owners.push inG group fresh known only ?_ ?_ (sound.ne_zero inG) ?_ ?_ ?_ ?_⟩
  · change ((PrDb.putEntry _ _ _).entry loc).owned = g
    rw [entry_putEntry, if_pos rfl]
  · change ((PrDb.putEntry _ _ _).entry g).nextOwned = (db.entry loc).owned
    rw [entry_putEntry, if_neg apart, entry_putEntry, if_pos rfl]
  · intro j other
    cases j with
    | none => rfl
    | some b =>
      change ((PrDb.putEntry _ _ _).entry b).owned = (db.entry b).owned
      rw [entry_putEntry, if_neg fun here => other (by rw [here]), entry_putEntry]
      split
      · rename_i here
        rw [here]
      · rfl
  · intro c other
    rw [load_nextOwned, load_nextOwned, entry_putEntry]
    split
    · rename_i here
      rw [here]
    · rw [entry_putEntry, if_neg other]
  · exact fun c _ => same c
  · rw [same]
    exact owner

theorem addToOwnerChain_found {db' : PrDb} {gid oid : Id} (sound : Sound labels db v)
    (done : db.addToOwnerChain gid oid = .ok db') : ∃ loc ∈ v.on .id, (db.entry loc).id = oid := by
  obtain ⟨loc, found, done⟩ := except_bind_eq_ok.mp done
  obtain ⟨nonzero, -⟩ := ensure_then.mp done
  rcases sound.of_findByID found with ⟨none, -⟩ | ⟨-, inside, id⟩
  · exact absurd none nonzero
  · exact ⟨loc, inside, id⟩

theorem addToOrphan (owners : Owners db v o) (sound : Sound labels db v) (inG : g ∈ v.on .id)
    (group : (db.entry g).isGroup) (fresh : g ∉ o.owned) :
    ∃ db', db.addToOrphan (db.entry g).id = .ok db' ∧ OwnersOnly db db' ∧
      (∀ b ≠ g, db'.entry b = db.entry b) ∧ (db'.entry g).owned = (db.entry g).owned ∧
      Owners db' v { o with owned := g :: o.owned, home := Function.update o.home g none } := by
  have form : db.IsEntry g := (sound.threaded.entries .id g inG).1
  unfold PrDb.addToOrphan
  simp only [bind, Except.bind, sound.findByID_of_mem inG]
  rw [ensure, if_pos (sound.ne_zero inG)]
  have only : OwnersOnly db (({ db with header.orphan := g } : PrDb).putEntry g
      { db.entry g with nextOwned := db.header.orphan, owner := 0 }) :=
    OwnersOnly.setOrphan.trans (OwnersOnly.putEntry form rfl)
  have others (b : Nat) (other : b ≠ g) : (({ db with header.orphan := g } : PrDb).putEntry g
      { db.entry g with nextOwned := db.header.orphan, owner := 0 }).entry b = db.entry b := by
    rw [entry_putEntry, if_neg other]
    rfl
  have this : (({ db with header.orphan := g } : PrDb).putEntry g
      { db.entry g with nextOwned := db.header.orphan, owner := 0 }).entry g =
        { db.entry g with nextOwned := db.header.orphan, owner := 0 } := by
    rw [entry_putEntry, if_pos rfl]
  have known : Heads v o none := fun b => by rintro ⟨⟩
  refine ⟨_, rfl, only, others, by rw [this], owners.push inG group fresh known only rfl ?_ (sound.ne_zero inG) ?_ ?_ ?_ ?_⟩
  · rw [load_nextOwned, this]
    rfl
  · intro j other
    cases j with
    | none => exact absurd rfl other
    | some b =>
      change ((PrDb.putEntry _ _ _).entry b).owned = (db.entry b).owned
      by_cases here : b = g
      · rw [here, this]
      · rw [others b here]
  · intro c other
    rw [load_nextOwned, load_nextOwned, others c other]
  · intro c other
    rw [others c other]
  · rw [this]
    rfl

theorem disown {oid : Id} (owners : Owners db v o) (sound : Sound labels db v) (inG : g ∈ v.on .id)
    (whole : ∀ p ∈ v.on .id, (db.entry p).id = oid → p ≠ o.broken) (place : g ∈ o.owned → db.ownerOf (o.home g) = oid)
    (done : db.disown (db.entry g).id oid = .ok db') :
    OwnersOnly db db' ∧ (∀ b, (db'.entry b).owner = (db.entry b).owner) ∧
      Owners db' v { o with owned := o.owned.filter fun c => c ≠ g } := by
  unfold PrDb.disown at done
  split at done
  · rename_i owned
    obtain ⟨p, found, rest⟩ := except_bind_eq_ok.mp done
    rcases sound.of_findByID found with ⟨none, -⟩ | ⟨some, inP, rfl⟩
    · exact absurd none (ensure_then.mp rest).1
    obtain ⟨db₁, removed, only, same, owners'⟩ := owners.removeFromOwnerChain sound inG inP (whole p inP rfl) (by
      intro member
      have head := place member
      cases home : o.home g with
      | none =>
        rw [home] at head
        exact absurd head.symm owned
      | some q =>
        rw [home] at head
        rw [sound.ids q ((owners.groups g member).2.2 q home).1 p inP head])
    cases done.symm.trans removed
    exact ⟨only, same, owners'⟩
  · rename_i unowned
    rw [not_not] at unowned
    obtain ⟨db₁, removed, only, same, owners'⟩ := owners.removeFromOrphan sound inG (by
      intro member
      have head := place member
      cases home : o.home g with
      | none => rfl
      | some q =>
        rw [home, unowned] at head
        exact absurd head (sound.plain q ((owners.groups g member).2.2 q home).1).2)
    cases done.symm.trans removed
    exact ⟨only, same, owners'⟩

end Owners

structure SameOwners (l : List Nat) (db db' : PrDb) : Prop where
  orphan : db'.header.orphan = db.header.orphan
  owner : ∀ b ∈ l, (db'.entry b).owner = (db.entry b).owner
  owned : ∀ b ∈ l, (db'.entry b).owned = (db.entry b).owned
  nextOwned : ∀ b ∈ l, (db'.entry b).nextOwned = (db.entry b).nextOwned
  group : ∀ b ∈ l, ((db'.entry b).isGroup ↔ (db.entry b).isGroup)

namespace SameOwners

variable {l : List Nat} {db'' : PrDb}

theorem refl (l : List Nat) (db : PrDb) : SameOwners l db db :=
  ⟨rfl, fun _ _ => rfl, fun _ _ => rfl, fun _ _ => rfl, fun _ _ => Iff.rfl⟩

theorem trans (first : SameOwners l db db') (second : SameOwners l db' db'') : SameOwners l db db'' :=
  ⟨second.orphan.trans first.orphan, fun b inside => (second.owner b inside).trans (first.owner b inside),
    fun b inside => (second.owned b inside).trans (first.owned b inside),
    fun b inside => (second.nextOwned b inside).trans (first.nextOwned b inside),
    fun b inside => (second.group b inside).trans (first.group b inside)⟩

theorem mono {l' : List Nat} (same : SameOwners l db db') (subset : ∀ b ∈ l', b ∈ l) : SameOwners l' db db' :=
  ⟨same.orphan, fun b inside => same.owner b (subset b inside), fun b inside => same.owned b (subset b inside),
    fun b inside => same.nextOwned b (subset b inside), fun b inside => same.group b (subset b inside)⟩

theorem of_entries (orphan : db'.header.orphan = db.header.orphan) (entries : ∀ b ∈ l, db'.entry b = db.entry b) :
    SameOwners l db db' := by
  refine ⟨orphan, ?_, ?_, ?_, ?_⟩
  all_goals
    intro b inside
    rw [entries b inside]

theorem onlyLinks (only : OnlyLinks db db') : SameOwners l db db' := by
  refine ⟨only.orphan, fun b _ => congrArg (fun d => d.owner) (only.data b),
    fun b _ => congrArg (fun d => d.owned) (only.data b), fun b _ => congrArg (fun d => d.nextOwned) (only.data b),
    fun b _ => ?_⟩
  unfold PrEntry.isGroup
  rw [show (db'.entry b).flags = (db.entry b).flags from congrArg (fun d => d.flags) (only.data b)]

theorem listsOnly {v' : View} {freed : List Nat} {k : Thread} (only : ListsOnly db v freed db' v') (sound : Sound labels db v) :
    SameOwners (v.on k) db db' := by
  refine ⟨only.orphan, ?_, ?_, ?_, fun b inside => only.isGroup_of_mem sound inside⟩
  · exact fun b inside => congrArg (fun d => d.owner) (only.rest_of_mem sound inside)
  · exact fun b inside => congrArg (fun d => d.owned) (only.rest_of_mem sound inside)
  · exact fun b inside => congrArg (fun d => d.nextOwned) (only.rest_of_mem sound inside)

theorem putEntry {b : Nat} {e : PrEntry} (owner : e.owner = (db.entry b).owner) (owned : e.owned = (db.entry b).owned)
    (nextOwned : e.nextOwned = (db.entry b).nextOwned) (group : e.isGroup ↔ (db.entry b).isGroup) :
    SameOwners l db (db.putEntry b e) := by
  have this : (db.putEntry b e).entry b = e := by rw [entry_putEntry, if_pos rfl]
  have others (c : Nat) (other : c ≠ b) : (db.putEntry b e).entry c = db.entry c := by
    rw [entry_putEntry, if_neg other]
  refine ⟨rfl, ?_, ?_, ?_, ?_⟩
  all_goals
    intro c _
    by_cases here : c = b
    · rw [here, this]
      assumption
    · rw [others c here]

end SameOwners

namespace Owners

variable (owners : Owners db v o)
include owners

theorem congr {v' : View} (same : SameOwners (v.on .id) db db') (subset : ∀ b ∈ v.on .id, b ∈ v'.on .id)
    (new : ∀ b ∈ v'.on .id, b ∉ v.on .id → b ≠ o.broken → (db'.entry b).owned = 0)
    (ids : ∀ g ∈ o.owned, db'.ownerOf (o.home g) = db.ownerOf (o.home g)) : Owners db' v' o := by
  refine ⟨?_, ?_, ?_⟩
  · intro i known
    by_cases old : Heads v o i
    · apply (owners.chains i old).congr
      · cases i with
        | none => exact same.orphan
        | some b => exact same.owned b (old b rfl).1
      · intro c member
        exact same.nextOwned c (owners.groups c (List.mem_filter.mp member).1).1
    -- a new entry
    have none : (o.owned.filter fun c => o.home c = i) = [] := by
      rw [filter_eq_nil_iff]
      intro c member home
      rw [decide_eq_true_eq] at home
      exact old (home ▸ (owners.groups c member).2.2)
    rw [none]
    cases i with
    | none => exact absurd (fun b => by rintro ⟨⟩) old
    | some b =>
      obtain ⟨inside, whole⟩ := known b rfl
      apply new b inside _ whole
      intro known'
      apply old
      rintro c ⟨⟩
      exact ⟨known', whole⟩
  · intro g member
    obtain ⟨inside, group, home⟩ := owners.groups g member
    refine ⟨subset g inside, (same.group g inside).mpr group, fun b here => ?_⟩
    exact ⟨subset b (home b here).1, (home b here).2⟩
  · intro g member other
    rw [same.owner g (owners.groups g member).1, ids g member]
    exact owners.owner g member other

theorem leave {v' : View} (sound : Sound labels db v) (out : o.broken ∉ o.owned)
    (on : ∀ b, b ∈ v'.on .id ↔ b ∈ v.on .id ∧ b ≠ o.broken) : Owners db v' { o with broken := 0 } := by
  refine ⟨?_, ?_, owners.owner⟩
  · intro i known
    apply owners.chains i
    intro b here
    exact (on b).mp (known b here).1
  intro g member
  obtain ⟨inside, group, home⟩ := owners.groups g member
  have apart : g ≠ o.broken := by
    rintro rfl
    exact out member
  refine ⟨(on g).mpr ⟨inside, apart⟩, group, fun b here => ?_⟩
  obtain ⟨known, whole⟩ := home b here
  exact ⟨(on b).mpr ⟨known, whole⟩, sound.ne_zero known⟩

theorem breakOff (sound : Sound labels db v) (whole : o.broken = 0) (loc : Nat) :
    Owners db v { o with owned := o.owned.filter (fun g => o.home g ≠ some loc), broken := loc } := by
  refine ⟨?_, ?_, ?_⟩
  · intro i known
    have apart : i ≠ some loc := by
      rintro rfl
      exact (known loc rfl).2 rfl
    have same : ((o.owned.filter fun g => o.home g ≠ some loc).filter fun g => o.home g = i) =
        o.owned.filter fun g => o.home g = i := by
      rw [filter_filter]
      apply filter_congr
      intro g _
      by_cases here : o.home g = i
      · simp [here, apart]
      · simp [here]
    change Linked db.load Slot.nextOwned (headOf i)
      ((o.owned.filter fun g => o.home g ≠ some loc).filter fun g => o.home g = i)
    rw [same]
    apply owners.chains i
    intro b here
    rw [whole]
    exact ⟨(known b here).1, sound.ne_zero (known b here).1⟩
  · intro g member
    rw [mem_filter, decide_eq_true_eq] at member
    obtain ⟨inside, group, home⟩ := owners.groups g member.1
    refine ⟨inside, group, fun b here => ⟨(home b here).1, ?_⟩⟩
    rintro rfl
    exact member.2 here
  · exact fun g member => owners.owner g (List.mem_filter.mp member).1

theorem mend (sound : Sound labels db v) {rest : List Nat} (loc : o.broken ∈ v.on .id)
    (linked : Linked db.load Slot.nextOwned (.owned o.broken) rest)
    (groups : ∀ g ∈ rest, g ∈ v.on .id ∧ (db.entry g).isGroup ∧ (db.entry g).owner = (db.entry o.broken).id ∧ g ∉ o.owned) :
    Owners db v { o with
      owned := rest ++ o.owned
      home := fun g => if g ∈ rest then some o.broken else o.home g
      broken := 0 } := by
  have old {g : Nat} (member : g ∈ o.owned) : g ∉ rest := fun again => (groups g again).2.2.2 member
  refine ⟨?_, ?_, ?_⟩
  · intro i known
    change Linked db.load Slot.nextOwned (headOf i)
      ((rest ++ o.owned).filter fun g => (if g ∈ rest then some o.broken else o.home g) = i)
    have later : (o.owned.filter fun g => (if g ∈ rest then some o.broken else o.home g) = i) =
        o.owned.filter fun g => o.home g = i := by
      apply filter_congr
      intro g member
      rw [if_neg (old member)]
    rw [filter_append, later]
    by_cases here : i = some o.broken
    · have front : (rest.filter fun g => (if g ∈ rest then some o.broken else o.home g) = i) = rest := by
        rw [filter_eq_self]
        intro g member
        rw [if_pos member, here, decide_eq_true rfl]
      have back : (o.owned.filter fun g => o.home g = i) = [] := by
        rw [filter_eq_nil_iff]
        intro g member home
        rw [decide_eq_true_eq] at home
        exact ((owners.groups g member).2.2 o.broken (home.trans here)).2 rfl
      rw [front, back, append_nil, here]
      exact linked
    have front : (rest.filter fun g => (if g ∈ rest then some o.broken else o.home g) = i) = [] := by
      rw [filter_eq_nil_iff]
      intro g member home
      rw [if_pos member, decide_eq_true_eq] at home
      exact here home.symm
    rw [front, nil_append]
    apply owners.chains i
    intro b same
    refine ⟨(known b same).1, ?_⟩
    rintro rfl
    exact here same
  · intro g member
    by_cases here : g ∈ rest
    · obtain ⟨inside, group, -⟩ := groups g here
      refine ⟨inside, group, fun b home => ?_⟩
      dsimp only at home
      rw [if_pos here] at home
      cases home
      exact ⟨loc, sound.ne_zero loc⟩
    · obtain ⟨inside, group, home⟩ := owners.groups g ((List.mem_append.mp member).resolve_left here)
      refine ⟨inside, group, fun b known => ?_⟩
      dsimp only at known
      rw [if_neg here] at known
      exact ⟨(home b known).1, sound.ne_zero (home b known).1⟩
  · intro g member other
    by_cases here : g ∈ rest
    · change _ = db.ownerOf (if g ∈ rest then some o.broken else o.home g)
      rw [if_pos here, (groups g here).2.2.1]
      rfl
    · change _ = db.ownerOf (if g ∈ rest then some o.broken else o.home g)
      rw [if_neg here]
      exact owners.owner g ((List.mem_append.mp member).resolve_left here) other

theorem startMoving (settled : o.moving = 0) (inside : g ∈ v.on .id) (oid : Id)
    (sound : Sound labels db v) : Owners (db.putEntry g { db.entry g with owner := oid }) v { o with moving := g } := by
  have others (c : Nat) (other : c ≠ g) : (db.putEntry g { db.entry g with owner := oid }).entry c = db.entry c := by
    rw [entry_putEntry, if_neg other]
  have only : OwnersOnly db (db.putEntry g { db.entry g with owner := oid }) :=
    OwnersOnly.putEntry (sound.threaded.entries .id g inside).1 rfl
  have words (b : Nat) : ((db.putEntry g { db.entry g with owner := oid }).entry b).owned = (db.entry b).owned ∧
      ((db.putEntry g { db.entry g with owner := oid }).entry b).nextOwned = (db.entry b).nextOwned := by
    rw [entry_putEntry]
    split
    · rename_i here
      rw [here]
      exact ⟨rfl, rfl⟩
    · exact ⟨rfl, rfl⟩
  refine ⟨?_, ?_, ?_⟩
  · intro i known
    apply (owners.chains i known).congr
    · cases i with
      | none => rfl
      | some b => exact (words b).1
    · exact fun c _ => (words c).2
  · intro c member
    obtain ⟨here, group, home⟩ := owners.groups c member
    exact ⟨here, (PrEntry.alike_of_unowned (only.entry c)).isGroup.mpr group, home⟩
  · intro c member other
    rw [others c other, owners.owner c member (by rw [settled]; exact sound.ne_zero (owners.groups c member).1)]
    show db.ownerOf (o.home c) = PrDb.ownerOf _ (o.home c)
    cases o.home c with
    | none => rfl
    | some b => exact (only.id b).symm

theorem stopMoving (off : o.moving ∉ o.owned) : Owners db v { o with moving := 0 } := by
  refine ⟨owners.chains, owners.groups, fun g member _ => owners.owner g member ?_⟩
  rintro rfl
  exact off member

end Owners

end OpenAFS.Ptserver
