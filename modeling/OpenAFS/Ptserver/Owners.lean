import OpenAFS.Ptserver.Hashing

namespace OpenAFS.Ptserver

open Function (update update_of_ne)
open Lib List PrDb

def headOf : Option Nat → Slot
  | none => .orphan
  | some b => .owned b

def PrDb.ownerOf (db : PrDb) : Option Nat → Id
  | none => 0
  | some b => (db.entry b).id

/-- The groups on chains, and the chain of each. `broken` is an entry whose chain is not one at the moment, and `moving`
    a group that has got another owner but is still on its old chain; both are 0 if there is none. -/
structure Chains where
  owned : List Nat
  home : Nat → Option Nat
  broken : Nat := 0
  moving : Nat := 0

def Heads (v : View) (o : Chains) (i : Option Nat) : Prop := ∀ b, i = some b → b ∈ v.on .id ∧ b ≠ o.broken

structure Owners (db : PrDb) (v : View) (o : Chains) : Prop where
  chains : Buckets db.load Slot.nextOwned headOf (Heads v o) o.home o.owned
  groups : ∀ g ∈ o.owned, g ∈ v.on .id ∧ (db.entry g).isGroup ∧ Heads v o (o.home g)
  owner : ∀ g ∈ o.owned, g ≠ o.moving → (db.entry g).owner = db.ownerOf (o.home g)

theorem headOf_injective : Function.Injective headOf := by
  intro i j same
  cases i <;> cases j <;> cases same <;> rfl

theorem nextOwned_injective : Function.Injective Slot.nextOwned := by
  intro b c same
  cases same
  rfl

theorem nextOwned_ne_headOf (b : Nat) (i : Option Nat) : Slot.nextOwned b ≠ headOf i := by
  cases i <;> exact Slot.noConfusion

variable {labels : Prop} {db db' : PrDb} {v : View} {o : Chains} {g : Nat}

theorem ownerTrailFrom_eq {gid : Id} {fuel lastLoc : Nat} {before after : List Nat}
    (linked : Linked db.load Slot.nextOwned (.nextOwned lastLoc) (before ++ g :: after))
    (fresh : lastLoc ∉ before ++ g :: after) (enough : before.length < fuel)
    (earlier : ∀ c ∈ before, (db.entry c).id ≠ gid) (here : (db.entry g).id = gid) :
    db.ownerTrailFrom gid fuel lastLoc (db.entry lastLoc) (db.entry lastLoc).nextOwned =
      .ok ((db.putEntry g { db.entry g with nextOwned := 0 }).putEntry (before.getLastD lastLoc)
        { db.entry (before.getLastD lastLoc) with nextOwned := (db.entry g).nextOwned }) := by
  induction before generalizing fuel lastLoc with
  | nil =>
    obtain ⟨fuel, rfl⟩ : ∃ m, fuel = m + 1 := ⟨fuel - 1, by omega⟩
    obtain ⟨head, nonzero, -⟩ := linked
    rw [load_nextOwned] at head
    have apart : g ≠ lastLoc := by
      rintro rfl
      exact fresh (by simp)
    rw [PrDb.ownerTrailFrom, head, if_neg nonzero, if_neg apart]
    exact if_pos here
  | cons c before ih =>
    rw [length_cons] at enough
    obtain ⟨fuel, rfl⟩ : ∃ m, fuel = m + 1 := ⟨fuel - 1, by omega⟩
    have once := List.nodup_cons.mp linked.nodup
    obtain ⟨head, nonzero, later⟩ := linked
    rw [load_nextOwned] at head
    have apart : c ≠ lastLoc := by
      rintro rfl
      exact fresh (by simp)
    rw [PrDb.ownerTrailFrom, head, if_neg nonzero, if_neg apart]
    rw [if_neg (earlier c mem_cons_self), getLastD_cons]
    exact ih later once.1 (by omega) fun d inside => earlier d (mem_cons_of_mem _ inside)

theorem ownerTrailFrom_none {gid : Id} {fuel lastLoc : Nat} {cells : List Nat}
    (linked : Linked db.load Slot.nextOwned (.nextOwned lastLoc) cells) (fresh : lastLoc ∉ cells)
    (enough : cells.length < fuel) (out : ∀ c ∈ cells, (db.entry c).id ≠ gid) :
    db.ownerTrailFrom gid fuel lastLoc (db.entry lastLoc) (db.entry lastLoc).nextOwned = .ok db := by
  induction cells generalizing fuel lastLoc with
  | nil =>
    obtain ⟨fuel, rfl⟩ : ∃ m, fuel = m + 1 := ⟨fuel - 1, by omega⟩
    have stop : (db.entry lastLoc).nextOwned = 0 := linked
    rw [PrDb.ownerTrailFrom, if_pos stop]
  | cons c cells ih =>
    rw [length_cons] at enough
    obtain ⟨fuel, rfl⟩ : ∃ m, fuel = m + 1 := ⟨fuel - 1, by omega⟩
    have once := List.nodup_cons.mp linked.nodup
    obtain ⟨head, nonzero, later⟩ := linked
    rw [load_nextOwned] at head
    have apart : c ≠ lastLoc := by
      rintro rfl
      exact fresh (by simp)
    rw [PrDb.ownerTrailFrom, head, if_neg nonzero, if_neg apart]
    rw [if_neg (out c mem_cons_self)]
    exact ih later once.1 (by omega) fun d inside => out d (mem_cons_of_mem _ inside)

theorem orphanTrailFrom_eq {gid : Id} {fuel loc : Nat} {before after : List Nat} (nonzero : loc ≠ 0)
    (linked : Linked db.load Slot.nextOwned (.nextOwned loc) (before ++ g :: after)) (enough : before.length < fuel)
    (earlier : ∀ c ∈ before, (db.entry c).id ≠ gid) (here : (db.entry g).id = gid) :
    db.orphanTrailFrom gid fuel loc (db.entry loc) (db.entry loc).nextOwned = .ok ((db.putEntry (before.getLastD loc)
        { db.entry (before.getLastD loc) with nextOwned := (db.entry g).nextOwned }).putEntry g
          { db.entry g with nextOwned := 0 }) := by
  induction before generalizing fuel loc with
  | nil =>
    obtain ⟨fuel, rfl⟩ : ∃ m, fuel = m + 1 := ⟨fuel - 1, by omega⟩
    obtain ⟨head, nonzero', -⟩ := linked
    rw [load_nextOwned] at head
    rw [PrDb.orphanTrailFrom, head, if_neg nonzero']
    rw [if_pos here, ensure, if_pos nonzero]
    rfl
  | cons c before ih =>
    rw [length_cons] at enough
    obtain ⟨fuel, rfl⟩ : ∃ m, fuel = m + 1 := ⟨fuel - 1, by omega⟩
    obtain ⟨head, nonzero', later⟩ := linked
    rw [load_nextOwned] at head
    rw [PrDb.orphanTrailFrom, head, if_neg nonzero']
    rw [if_neg (earlier c mem_cons_self), getLastD_cons]
    exact ih nonzero' later (by omega) fun d inside => earlier d (mem_cons_of_mem _ inside)

theorem orphanTrailFrom_none {gid : Id} {fuel loc : Nat} {bentry : PrEntry} {a : Slot} {cells : List Nat}
    (linked : Linked db.load Slot.nextOwned a cells) (enough : cells.length < fuel)
    (out : ∀ c ∈ cells, (db.entry c).id ≠ gid) :
    db.orphanTrailFrom gid fuel loc bentry (db.load a) = .ok db := by
  induction cells generalizing fuel loc bentry a with
  | nil =>
    obtain ⟨fuel, rfl⟩ : ∃ m, fuel = m + 1 := ⟨fuel - 1, by omega⟩
    have stop : db.load a = 0 := linked
    rw [PrDb.orphanTrailFrom, if_pos stop]
  | cons c cells ih =>
    rw [length_cons] at enough
    obtain ⟨fuel, rfl⟩ : ∃ m, fuel = m + 1 := ⟨fuel - 1, by omega⟩
    rw [PrDb.orphanTrailFrom, linked.1, if_neg linked.2.1]
    rw [if_neg (out c mem_cons_self)]
    exact ih linked.2.2 (by omega) fun d inside => out d (mem_cons_of_mem _ inside)

def PrEntry.unowned (e : PrEntry) : PrEntry := { e with owner := 0, owned := 0, nextOwned := 0 }

theorem PrEntry.alike_of_unowned {e e' : PrEntry} (same : e'.unowned = e.unowned) : e.Alike e' :=
  ⟨congrArg (fun d => d.id) same, congrArg (fun d => d.name) same, congrArg (fun d => d.nextID) same,
    congrArg (fun d => d.nextName) same, congrArg (fun d => d.next) same, congrArg (fun d => d.entries) same,
    congrArg (fun d => d.count) same, .inl (congrArg (fun d => d.flags) same)⟩

structure OwnersOnly (db db' : PrDb) : Prop where
  freePtr : db'.header.freePtr = db.header.freePtr
  eofPtr : db'.header.eofPtr = db.header.eofPtr
  hash : ∀ k, db'.header.hash k = db.header.hash k
  blocks : ∀ b, db'.block b = db.block b ∨ ∃ e e', db.block b = .entry e ∧ db'.block b = .entry e' ∧ e'.unowned = e.unowned

namespace OwnersOnly

variable {db'' : PrDb}

theorem kept (only : OwnersOnly db db') : Kept db db' := by
  refine ⟨only.freePtr, only.eofPtr, only.hash, fun b => (only.blocks b).imp_right ?_⟩
  rintro ⟨e, e', old, new, same⟩
  exact ⟨e, e', old, new, PrEntry.alike_of_unowned same⟩

theorem entry (only : OwnersOnly db db') (b : Nat) : (db'.entry b).unowned = (db.entry b).unowned := by
  unfold PrDb.entry
  rcases only.blocks b with same | ⟨e, e', old, new, same⟩
  · rw [same]
  · rw [old, new]
    exact same

theorem id (only : OwnersOnly db db') (b : Nat) : (db'.entry b).id = (db.entry b).id :=
  congrArg (fun d => d.id) (only.entry b)

theorem refl (db : PrDb) : OwnersOnly db db := ⟨rfl, rfl, fun _ => rfl, fun _ => .inl rfl⟩

theorem putEntry {b : Nat} {e : PrEntry} (form : db.IsEntry b) (same : e.unowned = (db.entry b).unowned) :
    OwnersOnly db (db.putEntry b e) := by
  refine ⟨rfl, rfl, fun _ => rfl, fun c => ?_⟩
  by_cases here : c = b
  · obtain ⟨d, old⟩ := form
    have read : db.entry b = d := by
      unfold PrDb.entry
      rw [old]
    rw [here]
    exact .inr ⟨d, e, old, Function.update_self .., same.trans (congrArg PrEntry.unowned read)⟩
  · exact .inl (update_of_ne here ..)

theorem trans (first : OwnersOnly db db') (second : OwnersOnly db' db'') : OwnersOnly db db'' := by
  refine ⟨second.freePtr.trans first.freePtr, second.eofPtr.trans first.eofPtr,
    fun k => (second.hash k).trans (first.hash k), fun b => ?_⟩
  rcases second.blocks b with same | ⟨e, e', old, new, same⟩
  · rw [same]
    exact first.blocks b
  rcases first.blocks b with same' | ⟨d, d', old', new', same'⟩
  · rw [← same']
    exact .inr ⟨e, e', old, new, same⟩
  · rw [new'] at old
    cases old
    exact .inr ⟨d, e', old', new, same.trans same'⟩

theorem putTwo {a b : Nat} {d e : PrEntry} (formA : db.IsEntry a) (formB : db.IsEntry b)
    (sameA : d.unowned = (db.entry a).unowned) (sameB : e.unowned = (db.entry b).unowned) :
    OwnersOnly db ((db.putEntry a d).putEntry b e) := by
  have first := putEntry formA sameA
  refine first.trans (putEntry ?_ ?_)
  · exact (isEntry_putEntry ..).mpr (.inr formB)
  · rw [first.entry, sameB]

theorem setOrphan {n : Nat} : OwnersOnly db { db with header.orphan := n } :=
  ⟨rfl, rfl, fun k => by cases k <;> rfl, fun _ => .inl rfl⟩

end OwnersOnly

structure TakenOff (db : PrDb) (g : Nat) (slot : Slot) (db' : PrDb) : Prop where
  only : OwnersOnly db db'
  place : db'.load slot = db.load (.nextOwned g)
  heads : ∀ i, headOf i ≠ slot → db'.load (headOf i) = db.load (headOf i)
  links : ∀ c, c ≠ g → Slot.nextOwned c ≠ slot → db'.load (.nextOwned c) = db.load (.nextOwned c)
  owner : ∀ b, (db'.entry b).owner = (db.entry b).owner

theorem takenOff_link {last : Nat} (formG : db.IsEntry g) (form : db.IsEntry last) :
    TakenOff db g (.nextOwned last) ((db.putEntry g { db.entry g with nextOwned := 0 }).putEntry last
      { db.entry last with nextOwned := (db.entry g).nextOwned }) := by
  refine ⟨OwnersOnly.putTwo formG form rfl rfl, ?_, ?_, ?_, ?_⟩
  · rw [load_nextOwned, load_nextOwned, entry_putEntry, if_pos rfl]
  · intro i _
    cases i with
    | none => rfl
    | some b =>
      change ((PrDb.putEntry _ _ _).entry b).owned = (db.entry b).owned
      rw [entry_putEntry, entry_putEntry]
      split
      · rename_i same
        rw [same]
      split
      · rename_i same
        rw [same]
      · rfl
  · intro c other slot
    have away : c ≠ last := fun same => slot (by rw [same])
    rw [load_nextOwned, load_nextOwned, entry_putEntry, if_neg away, entry_putEntry, if_neg other]
  · intro b
    rw [entry_putEntry, entry_putEntry]
    split
    · rename_i same
      rw [same]
    split
    · rename_i same
      rw [same]
    · rfl

theorem takenOff_owned {loc : Nat} (formG : db.IsEntry g) (form : db.IsEntry loc) :
    TakenOff db g (.owned loc) ((db.putEntry g { db.entry g with nextOwned := 0 }).putEntry loc
      { db.entry loc with owned := (db.entry g).nextOwned }) := by
  refine ⟨OwnersOnly.putTwo formG form rfl rfl, ?_, ?_, ?_, ?_⟩
  · rw [load_owned, load_nextOwned, entry_putEntry, if_pos rfl]
  · intro i other
    cases i with
    | none => rfl
    | some b =>
      have away : b ≠ loc := fun same => other (by rw [same]; rfl)
      change ((PrDb.putEntry _ _ _).entry b).owned = (db.entry b).owned
      rw [entry_putEntry, if_neg away, entry_putEntry]
      split
      · rename_i same
        rw [same]
      · rfl
  · intro c other _
    rw [load_nextOwned, load_nextOwned, entry_putEntry]
    split
    · rename_i same
      rw [same]
    · rw [entry_putEntry, if_neg other]
  · intro b
    rw [entry_putEntry, entry_putEntry]
    split
    · rename_i same
      rw [same]
    split
    · rename_i same
      rw [same]
    · rfl

theorem takenOff_orphan (formG : db.IsEntry g) :
    TakenOff db g .orphan (({ db with header.orphan := (db.entry g).nextOwned } : PrDb).putEntry g
      { db.entry g with nextOwned := 0 }) := by
  refine ⟨OwnersOnly.setOrphan.trans (OwnersOnly.putEntry formG rfl), rfl, ?_, ?_, ?_⟩
  · intro i other
    cases i with
    | none => exact absurd rfl other
    | some b =>
      change ((PrDb.putEntry _ _ _).entry b).owned = (db.entry b).owned
      rw [entry_putEntry]
      split
      · rename_i same
        rw [same]
      · rfl
  · intro c other _
    rw [load_nextOwned, load_nextOwned, entry_putEntry, if_neg other]
    rfl
  · intro b
    rw [entry_putEntry]
    split
    · rename_i same
      rw [same]
    · rfl

theorem putEntry_comm {a b : Nat} (apart : a ≠ b) (d e : PrEntry) :
    (db.putEntry a d).putEntry b e = (db.putEntry b e).putEntry a d := by
  unfold PrDb.putEntry
  rw [Function.update_comm apart]

namespace Owners

theorem takeOff (owners : Owners db v o) (inside : g ∈ o.owned) {before after : List Nat}
    (split : (o.owned.filter fun c => o.home c = o.home g) = before ++ g :: after)
    (taken : TakenOff db g (slotAfter Slot.nextOwned (headOf (o.home g)) before) db') :
    Owners db' v { o with owned := o.owned.filter fun c => c ≠ g } := by
  have group (b : Nat) : (db'.entry b).isGroup ↔ (db.entry b).isGroup :=
    (PrEntry.alike_of_unowned (taken.only.entry b)).isGroup
  refine ⟨?_, ?_, ?_⟩
  · apply owners.chains.unlink nextOwned_injective headOf_injective nextOwned_ne_headOf (owners.groups g inside).2.2
      split taken.place
    rintro s (⟨i, -, rfl⟩ | ⟨c, -, other, rfl⟩) apart
    · exact taken.heads i apart
    · exact taken.links c other apart
  · intro c member
    rw [group]
    exact owners.groups c (List.mem_filter.mp member).1
  · intro c member other
    rw [taken.owner, owners.owner c (List.mem_filter.mp member).1 other]
    show db.ownerOf (o.home c) = db'.ownerOf (o.home c)
    cases o.home c with
    | none => rfl
    | some b => exact (taken.only.id b).symm

theorem push (owners : Owners db v o) (inside : g ∈ v.on .id) (group : (db.entry g).isGroup)
    (fresh : g ∉ o.owned) {i : Option Nat} (known : Heads v o i) (only : OwnersOnly db db')
    (head : db'.load (headOf i) = g) (next : db'.load (.nextOwned g) = db.load (headOf i)) (nonzero : g ≠ 0)
    (heads : ∀ j, j ≠ i → db'.load (headOf j) = db.load (headOf j))
    (links : ∀ c, c ≠ g → db'.load (.nextOwned c) = db.load (.nextOwned c))
    (owner : ∀ c, c ≠ g → (db'.entry c).owner = (db.entry c).owner) (now : (db'.entry g).owner = db.ownerOf i) :
    Owners db' v { o with owned := g :: o.owned, home := update o.home g i } := by
  have apart {c : Nat} (member : c ∈ o.owned) : c ≠ g := fun same => fresh (same ▸ member)
  have same : update o.home g i g = i := Function.update_self ..
  have ids (j : Option Nat) : db'.ownerOf j = db.ownerOf j := by
    cases j with
    | none => rfl
    | some b => exact only.id b
  have isGroup (b : Nat) : (db'.entry b).isGroup ↔ (db.entry b).isGroup :=
    (PrEntry.alike_of_unowned (only.entry b)).isGroup
  refine ⟨?_, ?_, ?_⟩
  · apply owners.chains.push nonzero
    · change db'.load (headOf (update o.home g i g)) = g
      rw [same]
      exact head
    · change db'.load (.nextOwned g) = db.load (headOf (update o.home g i g))
      rw [same]
      exact next
    · intro j _ other
      change j ≠ update o.home g i g at other
      rw [same] at other
      exact heads j other
    · exact fun c member => links c (apart member)
    · exact fun c member => update_of_ne (apart member) ..
  · intro c member
    rw [isGroup]
    rcases List.mem_cons.mp member with rfl | old
    · refine ⟨inside, group, ?_⟩
      show Heads v o (update o.home c i c)
      rw [same]
      exact known
    obtain ⟨here, grp, valid⟩ := owners.groups c old
    refine ⟨here, grp, ?_⟩
    show Heads v o (update o.home g i c)
    rw [update_of_ne (apart old)]
    exact valid
  · intro c member other
    show _ = db'.ownerOf (update o.home g i c)
    rw [ids]
    rcases List.mem_cons.mp member with rfl | old
    · rw [same]
      exact now
    · rw [update_of_ne (apart old), owner c (apart old)]
      exact owners.owner c old other

end Owners

end OpenAFS.Ptserver
