import OpenAFS.Ptserver.Transactions

namespace OpenAFS.Ptserver

open Function (update update_self update_of_ne)
open Lib List

variable {labels : Prop} {db db' db'' : PrDb} {v : View} {o : Chains}

structure Quiet (db db' : PrDb) : Prop where
  kept : Kept db db'
  owners : ∀ l, SameOwners l db db'

namespace Quiet

theorem refl (db : PrDb) : Quiet db db := ⟨.refl db, fun l => .refl l db⟩

theorem trans (first : Quiet db db') (second : Quiet db' db'') : Quiet db db'' :=
  ⟨first.kept.trans second.kept, fun l => (first.owners l).trans (second.owners l)⟩

theorem putEntry {b : Nat} {e : PrEntry} (form : db.IsEntry b) (alike : (db.entry b).Alike e)
    (owner : e.owner = (db.entry b).owner) (owned : e.owned = (db.entry b).owned)
    (nextOwned : e.nextOwned = (db.entry b).nextOwned) : Quiet db (db.putEntry b e) :=
  ⟨.putEntry form alike, fun _ => .putEntry owner owned nextOwned alike.isGroup⟩

theorem header {h : PrHeader} (freePtr : h.freePtr = db.header.freePtr) (eofPtr : h.eofPtr = db.header.eofPtr)
    (hash : ∀ k, h.hash k = db.header.hash k) (orphan : h.orphan = db.header.orphan) :
    Quiet db { db with header := h } :=
  ⟨⟨freePtr, eofPtr, hash, fun _ => .inl rfl⟩, fun _ => .of_entries orphan fun _ _ => rfl⟩

theorem id (quiet : Quiet db db') (b : Nat) : (db'.entry b).id = (db.entry b).id := (quiet.kept.entry b).id

theorem isGroup (quiet : Quiet db db') (b : Nat) : (db'.entry b).isGroup ↔ (db.entry b).isGroup :=
  (quiet.kept.entry b).isGroup

end Quiet

theorem Owners.quiet (owners : Owners db v o) (quiet : Quiet db db') : Owners db' v o := by
  apply owners.congr (quiet.owners _) (fun _ => id) (fun b inside out => absurd inside out)
  intro g _
  cases o.home g with
  | none => rfl
  | some b => exact quiet.id b

structure Extended (db : PrDb) (v : View) (b : Nat) (e : PrEntry) (db' : PrDb) (v' : View) : Prop where
  on : ∀ k c, c ∈ v'.on k ↔ c = b ∨ c ∈ v.on k
  role : v'.role = update v.role b .entry
  dying : v'.dying = v.dying
  entry : (db'.entry b).data = e.data
  others : ∀ c ≠ b, (db'.entry c).data = (db.entry c).data
  nothing : db'.ids v'.conts b = []
  ids : ∀ c, v.role c = .entry → db'.ids v'.conts c = db.ids v.conts c
  orphan : db'.header.orphan = db.header.orphan

variable {e : PrEntry} {cfg : Config} {aid id oid : Id} {flag : UInt32} {idflag : Bool} {aname : Name}

theorem Sound.addNewEntry (sound : Sound labels db v) {b : Nat} (loose : v.role b = .loose) (other : b ≠ v.dying)
    (next : e.next = 0) (flags : e.flags &&& (prFree ||| prCont) = 0) (entries : e.entries = List.replicate prSize 0)
    (count : e.count = 0) (short : e.name.length < maxNameLen) (newId : ∀ c ∈ v.on .id, (db.entry c).id ≠ e.id)
    (newName : ∀ c ∈ v.on .name, (db.entry c).name ≠ e.name) (done : db.addNewEntry b e = .ok db') :
    ∃ v', Sound labels db' v' ∧ Extended db v b e db' v' := by
  obtain ⟨db₂, hashed, done⟩ := except_bind_eq_ok.mp done
  cases done
  obtain ⟨sound₁, nothing, untouched⟩ := sound.newEntry loose other next flags entries count
  have off {k : Thread} {c : Nat} (inside : c ∈ v.on k) : c ≠ b := by
    rintro rfl
    exact other (sound.loose inside (by simp [loose])).1
  have this : (db.putEntry b e).entry b = e := by rw [PrDb.entry_putEntry, if_pos rfl]
  have others {c : Nat} (different : c ≠ b) : (db.putEntry b e).entry c = db.entry c := by
    rw [PrDb.entry_putEntry, if_neg different]
  have here : update v.role b Role.entry b = .entry := update_self ..
  have fresh (k : Thread) : b ∉ v.on k := fun inside => off inside rfl
  have hashed : (db.putEntry b e).addToIDHash ((db.putEntry b e).entry b).id b = .ok db₂ := by rwa [this]
  obtain ⟨only₂, sound₂⟩ := sound₁.addToIDHash here (fresh .id) (by
    intro c inside
    rw [this, others (off inside)]
    exact newId c inside) hashed
  have name : (db₂.entry b).name = e.name := by rw [only₂.name, this]
  have notOn : b ∉ (View.onto { v with
      role := update v.role b .entry
      conts := update v.conts b [] } .id b).on .name := by
    rw [View.mem_onto]
    simp [fresh]
  obtain ⟨only₃, sound₃⟩ := sound₂.addToNameHash here notOn (by
    intro c inside
    have old : c ∈ v.on .name := (View.mem_onto.mp inside).resolve_left (by simp)
    rw [name, only₂.name, others (off old)]
    exact newName c old) (by rwa [name])
  rw [name] at only₃ sound₃
  have only := only₂.trans only₃
  refine ⟨_, sound₃, ?_, rfl, rfl, ?_, ?_, ?_, ?_, ?_⟩
  · intro k c
    rw [View.mem_onto, View.mem_onto]
    change k = .name ∧ c = b ∨ k = .id ∧ c = b ∨ c ∈ v.on k ↔ _
    cases k <;> simp
  · rw [only.data, this]
  · intro c different
    rw [only.data, others different]
  · rw [only.ids]
    exact nothing
  · intro c known
    rw [only.ids]
    exact (untouched c known).ids
  · rw [only.orphan]
    rfl

namespace Coherent

theorem quiet (coherent : Coherent labels db v o) (quiet : Quiet db db') : Coherent labels db' v o :=
  ⟨(coherent.sound.kept quiet.kept).1, coherent.intact,
    coherent.symmetric.kept coherent.sound coherent.intact quiet.kept, coherent.owners.quiet quiet,
    coherent.users.kept quiet.kept, coherent.whole, coherent.still⟩

theorem alloc (coherent : Coherent labels db v o) :
    ∃ free', Coherent labels db.allocBlock.1 { v with role := update v.role db.allocBlock.2 .loose, free := free' } o ∧
      (v.role db.allocBlock.2 = .none ∨ v.role db.allocBlock.2 = .free) ∧ db.allocBlock.2 ≠ 0 := by
  obtain ⟨free', sound, unused, other⟩ := coherent.sound.allocBlock
  refine ⟨free', ⟨sound, coherent.intact, ?_, ?_, ?_, coherent.whole, coherent.still⟩, unused, ?_⟩
  · unfold Symmetric PrDb.ids PrDb.slots
    rw [db.entry_allocBlock, db.cont_allocBlock]
    exact coherent.symmetric
  · apply coherent.owners.congr
    · apply SameOwners.of_entries
      · unfold PrDb.allocBlock
        split <;> rfl
      · exact fun b _ => congrFun db.entry_allocBlock b
    · exact fun _ => id
    · exact fun b inside out => absurd inside out
    · intro g _
      unfold PrDb.ownerOf
      rw [db.entry_allocBlock]
  · unfold Users
    rw [db.entry_allocBlock]
    exact coherent.users
  · rwa [coherent.intact] at other

theorem extend (coherent : Coherent labels db v o) {b : Nat} {e : PrEntry} {v' : View} (sound : Sound labels db' v')
    (extended : Extended db v b e db' v') (fresh : ∀ k, b ∉ v.on k) (owned : e.owned = 0)
    (user : ¬ e.isGroup → 58 ∉ e.name) : Coherent labels db' v' o := by
  have off {c : Nat} (inside : c ∈ v.on .id) : c ≠ b := by
    rintro rfl
    exact fresh .id inside
  have data {c : Nat} (inside : c ∈ v.on .id) := extended.others c (off inside)
  have id {c : Nat} (inside : c ∈ v.on .id) : (db'.entry c).id = (db.entry c).id := congrArg (fun d => d.id) (data inside)
  have group {c : Nat} {d : PrEntry} (same : (db'.entry c).data = d.data) : (db'.entry c).isGroup ↔ d.isGroup := by
    unfold PrEntry.isGroup
    rw [show (db'.entry c).flags = d.flags from congrArg (fun d => d.flags) same]
  refine ⟨sound, extended.dying.trans coherent.intact, ?_, ?_, ?_, coherent.whole, coherent.still⟩
  · intro c inside x listed
    rcases (extended.on .id c).mp inside with rfl | old
    · rw [extended.nothing] at listed
      cases listed
    rw [extended.ids c (coherent.entry old)] at listed
    obtain ⟨d, inside', same, kind, back⟩ := coherent.symmetric c old x listed
    refine ⟨d, (extended.on .id d).mpr (.inr inside'), (id inside').trans same, ?_, ?_⟩
    · rw [group (data inside'), group (data old)]
      exact kind
    · rw [id old, extended.ids d (coherent.entry inside')]
      exact back
  · apply coherent.owners.congr
    · refine ⟨extended.orphan, ?_, ?_, ?_, ?_⟩
      · exact fun c inside => congrArg (fun d => d.owner) (data inside)
      · exact fun c inside => congrArg (fun d => d.owned) (data inside)
      · exact fun c inside => congrArg (fun d => d.nextOwned) (data inside)
      · exact fun c inside => group (data inside)
    · exact fun c inside => (extended.on .id c).mpr (.inr inside)
    · intro c inside out _
      rcases (extended.on .id c).mp inside with rfl | old
      · exact (congrArg (fun d => d.owned) extended.entry).trans owned
      · exact absurd old out
    · intro g member
      cases home : o.home g with
      | none => rfl
      | some c => exact id ((coherent.owners.groups g member).2.2 c home).1
  · intro c inside isUser
    rcases (extended.on .id c).mp inside with rfl | old
    · rw [group extended.entry] at isUser
      rw [show (db'.entry c).name = e.name from congrArg (fun d => d.name) extended.entry]
      exact user isUser
    · rw [group (data old)] at isUser
      rw [show (db'.entry c).name = (db.entry c).name from congrArg (fun d => d.name) (data old)]
      exact coherent.users c old isUser

end Coherent

def PrEntry.uncharged (e : PrEntry) : PrEntry := { e with flags := 0, ngroups := 0, nusers := 0 }

theorem Sound.charge (sound : Sound labels db v) {loc : Nat} (here : v.role loc = .entry)
    (same : e.uncharged = (db.entry loc).uncharged)
    (flags : e.flags = (db.entry loc).flags ∨ e.flags = (db.entry loc).flags ||| prQuota) :
    Quiet db (db.putEntry loc e) := by
  obtain ⟨form, used⟩ := sound.roles.entries loc here
  apply Quiet.putEntry form
  · refine ⟨congrArg (fun d => d.id) same, congrArg (fun d => d.name) same, congrArg (fun d => d.nextID) same,
      congrArg (fun d => d.nextName) same, congrArg (fun d => d.next) same, congrArg (fun d => d.entries) same,
      congrArg (fun d => d.count) same, flags.imp_right fun quota => ⟨used, quota⟩⟩
  · exact congrArg (fun d => d.owner) same
  · exact congrArg (fun d => d.owned) same
  · exact congrArg (fun d => d.nextOwned) same

theorem chargeCreator_quiet {creator : Id} (coherent : Coherent labels db v o)
    (done : db.chargeCreator cfg creator = .ok db') : Quiet db db' := by
  obtain ⟨loc, found, done⟩ := except_bind_eq_ok.mp done
  rcases coherent.sound.of_findByID found with ⟨rfl, -⟩ | ⟨some, inside, -⟩
  · cases done
    exact .refl db
  rw [if_neg some] at done
  dsimp only at done
  generalize charged : (if (db.entry loc).flags &&& prQuota = 0 then
    { db.entry loc with flags := (db.entry loc).flags ||| prQuota, ngroups := 20, nusers := 20 }
    else db.entry loc) = centry at done
  have quota : centry.uncharged = (db.entry loc).uncharged ∧
      (centry.flags = (db.entry loc).flags ∨ centry.flags = (db.entry loc).flags ||| prQuota) := by
    rw [← charged]
    split
    · exact ⟨rfl, .inr rfl⟩
    · exact ⟨rfl, .inl rfl⟩
  obtain ⟨member, -, done⟩ := except_bind_eq_ok.mp done
  split at done
  · cases done
    exact coherent.sound.charge (coherent.entry inside) quota.1 quota.2
  split at done
  · obtain ⟨-, done⟩ := ensure_then.mp done
    cases done
    exact coherent.sound.charge (coherent.entry inside) quota.1 quota.2
  · cases done
    exact coherent.sound.charge (coherent.entry inside) (Eq.trans rfl quota.1) quota.2

theorem rememberMax_quiet (id : Id) (group : Prop) [Decidable group] : Quiet db (db.rememberMax id group) := by
  unfold PrDb.rememberMax
  split
  · split
    · exact Quiet.header rfl rfl (fun k => by cases k <;> rfl) rfl
    · exact .refl db
  · split
    · exact Quiet.header rfl rfl (fun k => by cases k <;> rfl) rfl
    · exact .refl db

theorem allocIDFrom_unused {step : Int} {count : Nat} (sound : Sound labels db v)
    (done : db.allocIDFrom step count aid = .ok id) : ∀ c ∈ v.on .id, (db.entry c).id ≠ id := by
  induction count generalizing aid with
  | zero => cases done
  | succ count ih =>
    obtain ⟨found, here, done⟩ := except_bind_eq_ok.mp done
    split at done
    · rename_i none
      cases done
      rcases sound.of_findByID here with ⟨-, out⟩ | ⟨some, -⟩
      · exact out
      · exact absurd none some
    · exact ih done

theorem allocID_quiet (sound : Sound labels db v) (done : db.allocID flag = .ok (db', id)) :
    Quiet db db' ∧ ∀ c ∈ v.on .id, (db.entry c).id ≠ id := by
  unfold PrDb.allocID at done
  split at done
  · obtain ⟨aid, found, done⟩ := except_bind_eq_ok.mp done
    cases done
    exact ⟨Quiet.header rfl rfl (fun k => by cases k <;> rfl) rfl, allocIDFrom_unused sound found⟩
  · obtain ⟨aid, found, done⟩ := except_bind_eq_ok.mp done
    cases done
    exact ⟨Quiet.header rfl rfl (fun k => by cases k <;> rfl) rfl, allocIDFrom_unused sound found⟩

theorem Coherent.ownersOnly {o' : Chains} (coherent : Coherent labels db v o) (only : OwnersOnly db db')
    (owners : Owners db' v o') (whole : o'.broken = 0) (still : o'.moving = 0) : Coherent labels db' v o' := by
  exact ⟨(coherent.sound.kept only.kept).1, coherent.intact,
    coherent.symmetric.kept coherent.sound coherent.intact only.kept, owners, coherent.users.kept only.kept, whole, still⟩

theorem Consistent.quiet (consistent : Consistent labels db v o) (quiet : Quiet db db') : Consistent labels db' v o :=
  ⟨consistent.toCoherent.quiet quiet, (consistent.toCoherent.quiet quiet).sound, consistent.intact,
    consistent.settled.used, consistent.settled.complete⟩

structure Blank (e : PrEntry) : Prop where
  next : e.next = 0
  entries : e.entries = List.replicate prSize 0
  count : e.count = 0
  owned : e.owned = 0
  flags : e.flags &&& (prFree ||| prCont) = 0
  short : e.name.length < maxNameLen
  user : ¬ e.isGroup → 58 ∉ e.name

structure Unused (db : PrDb) (v : View) (e : PrEntry) : Prop where
  id : ∀ c ∈ v.on .id, (db.entry c).id ≠ e.id
  name : ∀ c ∈ v.on .name, (db.entry c).name ≠ e.name

theorem Unused.quiet (unused : Unused db v e) (quiet : Quiet db db') : Unused db' v e := by
  constructor
  · intro c inside
    rw [quiet.id]
    exact unused.id c inside
  · intro c inside
    rw [(quiet.kept.entry c).name]
    exact unused.name c inside

structure Prepared (labels : Prop) (db : PrDb) (v : View) (o : Chains) (b : Nat) : Prop extends Coherent labels db v o where
  nonzero : b ≠ 0
  loose : ∀ c, v.role c = .loose ↔ c = b
  complete : ∀ k c, v.role c = .entry → c ∈ v.on k

namespace Prepared

variable {b : Nat}

theorem quiet (prepared : Prepared labels db v o b) (quiet : Quiet db db') : Prepared labels db' v o b :=
  ⟨prepared.toCoherent.quiet quiet, prepared.nonzero, prepared.loose, prepared.complete⟩

theorem fresh (prepared : Prepared labels db v o b) (k : Thread) : b ∉ v.on k := by
  intro inside
  have known := prepared.entry inside
  rw [(prepared.loose b).mpr rfl] at known
  cases known

theorem addNewEntry (prepared : Prepared labels db v o b) {e : PrEntry} (blank : Blank e) (unused : Unused db v e)
    (done : db.addNewEntry b e = .ok db') :
    ∃ v', Consistent labels db' v' o ∧ Extended db v b e db' v' ∧ b ∈ v'.on .id := by
  have other : b ≠ v.dying := by
    rw [prepared.intact]
    exact prepared.nonzero
  obtain ⟨v', sound, extended⟩ := prepared.sound.addNewEntry ((prepared.loose b).mpr rfl) other blank.next blank.flags
    blank.entries blank.count blank.short unused.id unused.name done
  have coherent := prepared.toCoherent.extend sound extended prepared.fresh blank.owned blank.user
  refine ⟨v', ⟨coherent, sound, coherent.intact, ?_, ?_⟩, extended, (extended.on .id b).mpr (.inl rfl)⟩
  · intro c
    rw [extended.role]
    by_cases here : c = b
    · rw [here, update_self]
      simp
    · rw [update_of_ne here]
      exact fun known => here ((prepared.loose c).mp known)
  intro k c known
  rw [extended.on]
  rw [extended.role] at known
  by_cases here : c = b
  · exact .inl here
  · rw [update_of_ne here] at known
    exact .inr (prepared.complete k c known)

end Prepared

theorem Housed.extend {b : Nat} {v' : View} (housed : Housed db v o) (extended : Extended db v b e db' v')
    (fresh : b ∉ v.on .id) (user : ¬ e.isGroup) : Housed db' v' o := by
  intro c inside group
  have data {c : Nat} {d : PrEntry} (same : (db'.entry c).data = d.data) : (db'.entry c).isGroup ↔ d.isGroup := by
    unfold PrEntry.isGroup
    rw [show (db'.entry c).flags = d.flags from congrArg (fun d => d.flags) same]
  rcases (extended.on .id c).mp inside with rfl | old
  · exact absurd ((data extended.entry).mp group) user
  · apply housed c old
    rwa [data (extended.others c fun same => fresh (same ▸ old))] at group

theorem Housed.quiet (housed : Housed db v o) (quiet : Quiet db db') : Housed db' v o :=
  fun b inside group => housed b inside ((quiet.isGroup b).mp group)

def NewId (db : PrDb) (v : View) (id : Id) (db' : PrDb) (v' : View) : Prop :=
  ∀ c ∈ v'.on .id, (db'.entry c).id = id ∨ ∃ d ∈ v.on .id, (db.entry d).id = (db'.entry c).id

theorem Extended.newId {b : Nat} {v' : View} (extended : Extended db v b e db' v') : NewId db v e.id db' v' := by
  intro c inside
  by_cases new : c = b
  · left
    rw [new]
    exact congrArg (fun d => d.id) extended.entry
  · right
    refine ⟨c, ((extended.on .id c).mp inside).resolve_left new, ?_⟩
    exact (congrArg (fun d => d.id) (extended.others c new)).symm

theorem NewId.wrap {db₁ db₂ : PrDb} {v₁ v₂ v₃ : View} (new : NewId db₁ v₁ id db₂ v₂)
    (before : ∀ c, (db₁.entry c).id = (db.entry c).id) (on : v₃.on = v₂.on)
    (after : ∀ c ∈ v₂.on .id, (db'.entry c).id = (db₂.entry c).id) : NewId db v₁ id db' v₃ := by
  intro c inside
  rw [on] at inside
  rw [after c inside]
  rcases new c inside with new | ⟨d, old, same⟩
  · exact .inl new
  · exact .inr ⟨d, old, (before d).symm.trans same⟩

theorem createUser_consistent {b : Nat} (prepared : Prepared labels db v o b) (blank : Blank e)
    (unused : Unused db v e) (user : ¬ e.isGroup) (done : db.createUser b e = .ok db') :
    ∃ v', Consistent labels db' v' o ∧ (Housed db v o → Housed db' v' o) ∧ NewId db v e.id db' v' := by
  obtain ⟨db₁, added, done⟩ := except_bind_eq_ok.mp done
  cases done
  have quiet : Quiet db (db.rememberMax e.id False) := rememberMax_quiet e.id False
  have flags (mask : UInt32) (without : prQuota &&& mask = 0) : (e.flags ||| prQuota) &&& mask = e.flags &&& mask :=
    or_prQuota_and without
  have notGroup : ¬ PrEntry.isGroup { e with flags := e.flags ||| prQuota, ngroups := 20, nusers := 20 } := by
    unfold PrEntry.isGroup at user ⊢
    rwa [flags _ (by decide)]
  obtain ⟨v', consistent, extended, -⟩ := (prepared.quiet quiet).addNewEntry
    (e := { e with flags := e.flags ||| prQuota, ngroups := 20, nusers := 20 })
    ⟨blank.next, blank.entries, blank.count, blank.owned, (flags _ (by decide)).trans blank.flags, blank.short,
      fun _ => blank.user user⟩ ⟨(unused.quiet quiet).id, (unused.quiet quiet).name⟩ added
  have last : Quiet db₁ { db₁ with header.usercount := db₁.header.usercount + 1 } :=
    Quiet.header rfl rfl (fun k => by cases k <;> rfl) rfl
  refine ⟨v', consistent.quiet last, fun housed => ?_, extended.newId.wrap quiet.id rfl fun c _ => last.id c⟩
  exact ((housed.quiet quiet).extend extended (prepared.fresh .id) notGroup).quiet last

theorem createGroup_consistent {b : Nat} (prepared : Prepared labels db v o b) (blank : Blank e)
    (unused : Unused db v e) (group : e.isGroup) (done : db.createGroup cfg b e e.owner = .ok db') :
    ∃ v' o', Consistent labels db' v' o' ∧ (Housed db v o → Housed db' v' o') ∧ NewId db v e.id db' v' := by
  obtain ⟨db₁, charged, done⟩ := except_bind_eq_ok.mp done
  obtain ⟨db₂, added, done⟩ := except_bind_eq_ok.mp done
  obtain ⟨db₃, chained, done⟩ := except_bind_eq_ok.mp done
  cases done
  have first : Quiet db (db.rememberMax e.id True) := rememberMax_quiet e.id True
  have quiet : Quiet db db₁ := first.trans (chargeCreator_quiet (prepared.quiet first).toCoherent charged)
  obtain ⟨v', consistent, extended, inside⟩ := (prepared.quiet quiet).addNewEntry blank (unused.quiet quiet) added
  have id : (db₂.entry b).id = e.id := congrArg (fun d => d.id) extended.entry
  have owner : (db₂.entry b).owner = e.owner := congrArg (fun d => d.owner) extended.entry
  have isGroup : (db₂.entry b).isGroup := by
    unfold PrEntry.isGroup at group ⊢
    rwa [show (db₂.entry b).flags = e.flags from congrArg (fun d => d.flags) extended.entry]
  obtain ⟨loc, inLoc, idLoc⟩ := Owners.addToOwnerChain_found consistent.sound chained
  have out : b ∉ o.owned := fun member => prepared.fresh .id (prepared.owners.groups b member).1
  obtain ⟨db₃', chained', only, -, owners⟩ := consistent.owners.addToOwnerChain consistent.sound inside isGroup inLoc
    (by rw [consistent.whole]; exact consistent.sound.ne_zero inLoc) out (owner.trans idLoc.symm)
  rw [id, idLoc] at chained'
  cases chained.symm.trans chained'
  have last : Quiet db₃ { db₃ with header.groupcount := db₃.header.groupcount + 1 } :=
    Quiet.header rfl rfl (fun k => by cases k <;> rfl) rfl
  have coherent := consistent.toCoherent.ownersOnly only owners consistent.whole consistent.still
  refine ⟨v', _, Consistent.quiet ⟨coherent, coherent.sound, consistent.intact, consistent.settled.used,
    consistent.settled.complete⟩ last, fun housed => ?_,
    extended.newId.wrap quiet.id rfl fun c _ => (last.id c).trans (only.id c)⟩
  refine Housed.quiet ?_ last
  intro c member grouped
  rcases (extended.on .id c).mp member with rfl | old
  · exact mem_cons_self
  apply mem_cons_of_mem
  apply (housed.quiet quiet) c old
  rw [(only.kept.entry c).isGroup] at grouped
  have apart : c ≠ b := fun same => prepared.fresh .id (same ▸ old)
  unfold PrEntry.isGroup at grouped ⊢
  rwa [show (db₂.entry c).flags = (db₁.entry c).flags from congrArg (fun d => d.flags) (extended.others c apart)]
    at grouped

theorem allocNextIdFrom_unused {cellid id r : Int} {fuel : Nat} (sound : Sound labels db v)
    (done : db.allocNextIdFrom cellid fuel id = .ok (some r)) :
    ∀ c ∈ v.on .id, (db.entry c).id ≠ int32 (r * 65536 + cellid) := by
  induction fuel generalizing id with
  | zero => cases done
  | succ fuel ih =>
    obtain ⟨found, here, done⟩ := except_bind_eq_ok.mp done
    split at done
    · rename_i none
      cases done
      rcases sound.of_findByID here with ⟨-, out⟩ | ⟨some, -⟩
      · exact out
      · exact absurd none some
    · exact ih done

theorem foreignId_unused {centry centry' : PrEntry} (sound : Sound labels db v)
    (fresh : idflag → ∀ c ∈ v.on .id, (db.entry c).id ≠ aid)
    (done : db.foreignId centry aid idflag = .ok (centry', id)) :
    (∀ c ∈ v.on .id, (db.entry c).id ≠ id) ∧ (idflag → id = aid) ∧ centry'.uncharged = centry.uncharged ∧
      centry'.flags = centry.flags := by
  unfold PrDb.foreignId at done
  cases idflag with
  | true =>
    cases range : inRange centry aid with
    | none =>
      rw [range] at done
      cases done
    | some c =>
      rw [range] at done
      cases done
      refine ⟨fresh rfl, fun _ => rfl, ?_⟩
      unfold inRange at range
      split at range
      · cases range
      · cases range
        split <;> exact ⟨rfl, rfl⟩
  | false =>
    obtain ⟨⟨c, n⟩, allocated, done⟩ := except_bind_eq_ok.mp done
    obtain ⟨nonzero, done⟩ := ensure_then.mp done
    cases done
    obtain ⟨r, found, allocated⟩ := except_bind_eq_ok.mp allocated
    cases r with
    | none =>
      cases allocated
      exact absurd rfl nonzero
    | some r =>
      cases allocated
      exact ⟨allocNextIdFrom_unused sound found, fun no => absurd no Bool.false_ne_true, rfl, rfl⟩

theorem takeCellQuota_quiet {centry centry' : PrEntry} (done : PrDb.takeCellQuota cfg centry = .ok centry') :
    centry'.uncharged = centry.uncharged ∧ (centry'.flags = centry.flags ∨ centry'.flags = centry.flags ||| prQuota) := by
  obtain ⟨-, done⟩ := ensure_then.mp done
  cases done
  split
  · exact ⟨rfl, .inr rfl⟩
  · exact ⟨rfl, .inl rfl⟩

theorem createForeign_consistent {b : Nat}
    (prepared : Prepared labels db v o b) (blank : Blank e) (fresh : idflag → ∀ c ∈ v.on .id, (db.entry c).id ≠ aid)
    (newName : ∀ c ∈ v.on .name, (db.entry c).name ≠ e.name) (user : ¬ e.isGroup)
    (done : db.createForeign cfg b e aid idflag = .ok (db', id)) :
    ∃ v', Consistent labels db' v' o ∧ (Housed db v o → Housed db' v' o) ∧ NewId db v id db' v' ∧ (idflag → id = aid) := by
  obtain ⟨g, foundG, done⟩ := except_bind_eq_ok.mp done
  obtain ⟨someG, done⟩ := ensure_then.mp done
  obtain ⟨⟨centry, n⟩, identified, done⟩ := except_bind_eq_ok.mp done
  obtain ⟨charged, paid, done⟩ := except_bind_eq_ok.mp done
  obtain ⟨db₁, added, done⟩ := except_bind_eq_ok.mp done
  obtain ⟨pos, foundPos, done⟩ := except_bind_eq_ok.mp done
  obtain ⟨somePos, done⟩ := ensure_then.mp done
  obtain ⟨db₃, first, done⟩ := except_bind_eq_ok.mp done
  obtain ⟨u, foundU, done⟩ := except_bind_eq_ok.mp done
  obtain ⟨someU, done⟩ := ensure_then.mp done
  obtain ⟨db₄, second, done⟩ := except_bind_eq_ok.mp done
  cases done
  -- the group of the cell has a name that no user has
  obtain ⟨-, onName, name⟩ := (prepared.sound.of_findByName foundG).resolve_left fun none => someG none.1
  have inG : g ∈ v.on .id := prepared.complete .id g (prepared.entry onName)
  have group : (db.entry g).isGroup := by
    by_contra not
    apply prepared.users g inG not
    rw [name, take_append]
    exact mem_append_left _ (by decide)
  obtain ⟨newId, given, same, flags⟩ := foreignId_unused prepared.sound fresh identified
  obtain ⟨same', flags'⟩ := takeCellQuota_quiet paid
  have quiet : Quiet db (db.putEntry g charged) :=
    prepared.sound.charge (prepared.entry inG) (same'.trans same) (by rwa [flags] at flags')
  have unused : Unused db v { e with cellid := (db.entry g).id, id := id } := ⟨newId, newName⟩
  obtain ⟨v₁, consistent₁, extended, inB⟩ := (prepared.quiet quiet).addNewEntry
    (e := { e with cellid := (db.entry g).id, id := id })
    ⟨blank.next, blank.entries, blank.count, blank.owned, blank.flags, blank.short, fun _ => blank.user user⟩
    (unused.quiet quiet) added
  have last : Quiet db₁ { db₁ with header.foreigncount := db₁.header.foreigncount + 1 } :=
    Quiet.header rfl rfl (fun k => by cases k <;> rfl) rfl
  have consistent₂ := consistent₁.quiet last
  have apart : b ≠ g := fun same => prepared.fresh .id (same ▸ inG)
  have inG₁ : g ∈ v₁.on .id := (extended.on .id g).mpr (.inr inG)
  have idG : (db₁.entry g).id = (db.entry g).id :=
    (congrArg (fun d => d.id) (extended.others g (Ne.symm apart))).trans (quiet.id g)
  have idB : (db₁.entry b).id = id := congrArg (fun d => d.id) extended.entry
  generalize isDb₂ : ({ db₁ with header.foreigncount := db₁.header.foreigncount + 1 } : PrDb) = db₂ at *
  have entry₂ : db₂.entry = db₁.entry := by
    rw [← isDb₂]
    rfl
  have sound₂ := consistent₂.sound
  obtain ⟨inPos, -, idPos⟩ := consistent₂.settled.findByID foundPos somePos
  rw [entry₂, ← idG, ← entry₂] at idPos
  obtain rfl := sound₂.ids pos inPos g inG₁ (by rw [idPos, entry₂])
  have isUser : ¬ (db₂.entry b).isGroup := by
    rw [entry₂]
    unfold PrEntry.isGroup at user ⊢
    rwa [show (db₁.entry b).flags = e.flags from congrArg (fun d => d.flags) extended.entry]
  have isGroup : (db₂.entry pos).isGroup := by
    rw [entry₂]
    rw [← quiet.isGroup pos] at group
    unfold PrEntry.isGroup at group ⊢
    rwa [show (db₁.entry pos).flags = ((db.putEntry pos charged).entry pos).flags from
      congrArg (fun d => d.flags) (extended.others pos (Ne.symm apart))]
  have hereG := consistent₂.toCoherent.entry inG₁
  have hereB := consistent₂.toCoherent.entry inB
  have plainB : id ≠ badId ∧ id ≠ 0 := by
    have plain := sound₂.plain b inB
    rwa [entry₂, idB] at plain
  obtain ⟨-, -, v₃, sound₃, only₃, untouched₃, lists₃⟩ := sound₂.addToEntry hereG plainB first
  have untouchedB := untouched₃ b apart hereB
  have inB₃ : b ∈ v₃.on .id := by rwa [only₃.on]
  have isB : u = b := by
    rcases sound₃.of_findByID foundU with ⟨none, -⟩ | ⟨-, inU, idU⟩
    · exact absurd none someU
    · apply sound₃.ids u inU b inB₃
      rw [idU, untouchedB.2.1, entry₂, idB]
  subst isB
  have cellid : (db₃.entry u).cellid = (db.entry pos).id := by
    rw [untouchedB.2.1, entry₂]
    exact congrArg (fun d => d.cellid) extended.entry
  rw [cellid] at second
  obtain ⟨-, -, v₄, sound₄, only₄, untouched₄, lists₄⟩ :=
    sound₃.addToEntry ((only₃.live u).mpr hereB) (prepared.sound.plain pos inG) second
  have only : ListsOnly db₂ v₁ [] db' v₄ := only₃.trans only₄
  have housed' (housed : Housed db v o) : Housed db₂ v₁ o :=
    ((housed.quiet quiet).extend extended (prepared.fresh .id) user).quiet last
  have ids (c : Nat) (inside : c ∈ v₁.on .id) : (db'.entry c).id = (db₁.entry c).id := by
    rw [only.id_of_mem sound₂ inside, entry₂]
  refine ⟨v₄, consistent₂.lists sound₄ only ?_, fun housed => (housed' housed).lists sound₂ only,
    extended.newId.wrap quiet.id only.on ids, given⟩
  apply consistent₂.symmetric.add sound₂ only inB inG₁ isUser isGroup
  · intro x
    rw [lists₄, untouchedB.ids, entry₂, idG]
  · intro x
    rw [(untouched₄ pos (Ne.symm apart) ((only₃.live pos).mpr hereG)).ids, lists₃, entry₂, idB]
  · intro c inside notB notG
    have here := consistent₂.toCoherent.entry inside
    rw [(untouched₄ c notB ((only₃.live c).mpr here)).ids, (untouched₃ c notG here).ids]

theorem Consistent.prepare (consistent : Consistent labels db v o) :
    ∃ v', Prepared labels db.allocBlock.1 v' o db.allocBlock.2 ∧ v'.on = v.on ∧
      (Housed db v o → Housed db.allocBlock.1 v' o) := by
  obtain ⟨free', coherent, unused, nonzero⟩ := consistent.toCoherent.alloc
  refine ⟨_, ⟨coherent, nonzero, ?_, ?_⟩, rfl, ?_⟩
  · intro c
    change update v.role db.allocBlock.2 Role.loose c = .loose ↔ _
    by_cases here : c = db.allocBlock.2
    · rw [here, update_self]
      simp
    · rw [update_of_ne here]
      exact iff_of_false (consistent.settled.used c) here
  · intro k c known
    change update v.role db.allocBlock.2 Role.loose c = .entry at known
    by_cases here : c = db.allocBlock.2
    · rw [here, update_self] at known
      cases known
    · rw [update_of_ne here] at known
      exact consistent.settled.complete k c known
  · intro housed c inside group
    rw [db.entry_allocBlock] at group
    exact housed c inside group

theorem correctGroupName_short {cname : Name} {cid : Id}
    (done : db.correctGroupName cfg aname cid oid = .ok cname) : aname.length < maxNameLen := by
  exact (ensure_then.mp done).1

theorem createEntry_consistent {creator : Id}
    (consistent : Consistent labels db v o) (fresh : idflag → ∀ c ∈ v.on .id, (db.entry c).id ≠ aid)
    (done : db.createEntry cfg aname aid idflag flag oid creator = .ok (db', id)) :
    ∃ v' o', Consistent labels db' v' o' ∧ (Housed db v o → Housed db' v' o') ∧ NewId db v id db' v' ∧ (idflag → id = aid) := by
  unfold PrDb.createEntry at done
  extract_lets oid' group tentry rest at done
  have checked : (aname.length < maxNameLen ∧ (¬ group → 58 ∉ aname)) ∧ rest () = .ok (db', id) := by
    split at done
    · rename_i isGroup
      obtain ⟨cname, corrected, done⟩ := except_bind_eq_ok.mp done
      obtain ⟨-, done⟩ := ensure_then.mp done
      exact ⟨⟨correctGroupName_short corrected, fun not => absurd isGroup not⟩, done⟩
    · obtain ⟨⟨colon, -, short⟩, done⟩ := ensure_then.mp done
      exact ⟨⟨by omega, fun _ => colon⟩, done⟩
  obtain ⟨⟨short, colon⟩, done⟩ := checked
  dsimp only [rest] at done
  obtain ⟨found, foundName, done⟩ := except_bind_eq_ok.mp done
  obtain ⟨none, done⟩ := ensure_then.mp done
  obtain ⟨-, done⟩ := ensure_then.mp done
  obtain ⟨v₁, prepared, on, housed₁⟩ := consistent.prepare
  have newName : ∀ c ∈ v₁.on .name, (db.allocBlock.1.entry c).name ≠ aname := by
    rw [on, db.entry_allocBlock]
    rcases consistent.sound.of_findByName foundName with ⟨-, out⟩ | ⟨some, -⟩
    · exact out
    · exact absurd none some
  have newId : idflag → ∀ c ∈ v₁.on .id, (db.allocBlock.1.entry c).id ≠ aid := by
    rwa [on, db.entry_allocBlock]
  -- the block is not on any chain yet
  have first {db₂ : PrDb} {v' : View} {n : Id} (new : NewId db₂ v₁ n db' v')
      (same : ∀ c, (db₂.entry c).id = (db.allocBlock.1.entry c).id) : NewId db v n db' v' := by
    intro c inside
    rcases new c inside with new | ⟨d, old, is⟩
    · exact .inl new
    · rw [same d, db.entry_allocBlock] at is
      exact .inr ⟨d, on ▸ old, is⟩
  have used : tentry.flags &&& (prFree ||| prCont) = 0 := by
    dsimp only [tentry]
    split <;> decide
  have grouped : tentry.isGroup ↔ group := by
    change (if group then prGrp else 0) &&& prGrp ≠ 0 ↔ group
    split
    · exact iff_of_true (by decide) ‹_›
    · exact iff_of_false (by decide) ‹_›
  have blank : Blank tentry := ⟨rfl, rfl, rfl, rfl, used, short, fun user => colon (mt grouped.mpr user)⟩
  split at done
  · rename_i foreign
    obtain ⟨v', consistent', housed', new, given⟩ := createForeign_consistent prepared blank newId newName
      (mt grouped.mp foreign.2) done
    exact ⟨v', o, consistent', housed' ∘ housed₁, first new fun _ => rfl, given⟩
  obtain ⟨-, done⟩ := ensure_then.mp done
  have made : ∃ db₂ n, Quiet db.allocBlock.1 db₂ ∧ (∀ c ∈ v₁.on .id, (db₂.entry c).id ≠ n) ∧ (idflag → n = aid) ∧
      n = id ∧ (if group then db₂.createGroup cfg db.allocBlock.2 { tentry with id := n } oid'
        else db₂.createUser db.allocBlock.2 { tentry with id := n }) = .ok db' := by
    have finish {db₂ : PrDb} {n : Id} (made : ((if group then do
          let db ← db₂.createGroup cfg db.allocBlock.2 { tentry with id := n } oid'
          Except.ok (db, n)
        else do
          let db ← db₂.createUser db.allocBlock.2 { tentry with id := n }
          Except.ok (db, n)) : Except PrError (PrDb × Id)) = .ok (db', id)) :
        n = id ∧ (if group then db₂.createGroup cfg db.allocBlock.2 { tentry with id := n } oid'
          else db₂.createUser db.allocBlock.2 { tentry with id := n }) = .ok db' := by
      split at made
      · obtain ⟨db₃, made, done⟩ := except_bind_eq_ok.mp made
        cases done
        exact ⟨rfl, by rwa [if_pos ‹_›]⟩
      · obtain ⟨db₃, made, done⟩ := except_bind_eq_ok.mp made
        cases done
        exact ⟨rfl, by rwa [if_neg ‹_›]⟩
    split at done
    · exact ⟨db.allocBlock.1, aid, .refl _, newId ‹_›, fun _ => rfl, finish done⟩
    · obtain ⟨⟨db₂, n⟩, allocated, done⟩ := except_bind_eq_ok.mp done
      obtain ⟨quiet, unused⟩ := allocID_quiet prepared.sound allocated
      exact ⟨db₂, n, quiet, fun c inside => quiet.id c ▸ unused c inside, fun yes => absurd yes ‹_›, finish done⟩
  obtain ⟨db₂, n, quiet, unused, given, rfl, made⟩ := made
  have newName₂ : ∀ c ∈ v₁.on .name, (db₂.entry c).name ≠ aname := by
    intro c inside
    rw [(quiet.kept.entry c).name]
    exact newName c inside
  have blank₂ : Blank { tentry with id := n } := ⟨rfl, rfl, rfl, rfl, used, short, fun user => blank.user user⟩
  split at made
  · rename_i isGroup
    have owner : tentry.owner = oid' := if_pos isGroup
    generalize isEntry : ({ tentry with id := n } : PrEntry) = e at made blank₂
    have owned : e.owner = oid' := by rw [← isEntry, owner]
    rw [← owned] at made
    obtain ⟨v', o', consistent', housed', new⟩ := createGroup_consistent (prepared.quiet quiet) blank₂
      (by rw [← isEntry]; exact ⟨unused, newName₂⟩) (by rw [← isEntry]; exact grouped.mpr isGroup) made
    rw [show e.id = n by rw [← isEntry]] at new
    exact ⟨v', o', consistent', fun housed => housed' ((housed₁ housed).quiet quiet), first new quiet.id, given⟩
  · rename_i isUser
    obtain ⟨v', consistent', housed', new⟩ := createUser_consistent (prepared.quiet quiet) blank₂ ⟨unused, newName₂⟩
      (mt grouped.mp isUser) made
    exact ⟨v', o, consistent', fun housed => housed' ((housed₁ housed).quiet quiet), first new quiet.id, given⟩

theorem newEntry_consistent {caller : Caller}
    (consistent : Consistent labels db v o) (done : db.newEntry cfg caller aname flag oid = .ok db') :
    ∃ v' o', Consistent labels db' v' o' ∧ (Housed db v o → Housed db' v' o') := by
  obtain ⟨member, -, done⟩ := except_bind_eq_ok.mp done
  obtain ⟨-, done⟩ := ensure_then.mp done
  obtain ⟨⟨db₁, id⟩, created, done⟩ := except_bind_eq_ok.mp done
  cases done
  obtain ⟨v', o', consistent', housed', -⟩ := createEntry_consistent consistent (fun no => absurd no (by decide)) created
  exact ⟨v', o', consistent', housed'⟩

theorem iNewEntry_consistent {cid : Id} (consistent : Consistent labels db v o)
    (done : db.iNewEntry cfg cid aname aid oid = .ok db') :
    ∃ v' o', Consistent labels db' v' o' ∧ (Housed db v o → Housed db' v' o') := by
  obtain ⟨admin, -, done⟩ := except_bind_eq_ok.mp done
  obtain ⟨-, done⟩ := ensure_then.mp done
  obtain ⟨-, done⟩ := ensure_then.mp done
  obtain ⟨found, here, done⟩ := except_bind_eq_ok.mp done
  obtain ⟨none, done⟩ := ensure_then.mp done
  obtain ⟨-, done⟩ := ensure_then.mp done
  obtain ⟨⟨db₁, id⟩, created, done⟩ := except_bind_eq_ok.mp done
  cases done
  have fresh : ∀ c ∈ v.on .id, (db.entry c).id ≠ aid := by
    rcases consistent.sound.of_findByID here with ⟨-, out⟩ | ⟨some, -⟩
    · exact out
    · exact absurd none some
  obtain ⟨v', o', consistent', housed', -⟩ := createEntry_consistent consistent (fun _ => fresh) created
  exact ⟨v', o', consistent', housed'⟩

def View.empty : View := ⟨fun _ => .none, fun _ => [], [], fun _ => [], 0⟩

def Chains.empty : Chains := ⟨[], fun _ => none, 0, 0⟩

theorem empty_roles : Roles {} View.empty.role View.empty.conts View.empty.free where
  blocks b := by
    refine iff_of_false ?_ (not_not_intro rfl)
    rintro ⟨n, rfl, small⟩
    change headerSize + entrySize * n < headerSize at small
    omega
  aligned := ⟨0, rfl⟩
  contLists _ _ := rfl
  onList _ _ known := nomatch known
  owner _ _ known := nomatch known
  freeList := rfl
  onFreeList _ := iff_of_false not_mem_nil Role.noConfusion
  entries _ known := nomatch known
  continued _ _ known := nomatch known
  unused _ known := nomatch known

theorem empty_sound : Sound labels {} View.empty where
  roles := empty_roles
  threaded := ⟨fun k n _ => by cases k <;> rfl, fun _ _ inside => nomatch inside⟩
  live _ _ inside := nomatch inside
  dying := .inl rfl
  ids _ inside := nomatch inside
  names _ inside := nomatch inside
  plain _ inside := nomatch inside
  short _ inside := nomatch inside
  lists _ known := nomatch known

theorem empty_consistent : Consistent labels {} View.empty Chains.empty where
  sound := empty_sound
  intact := rfl
  symmetric _ inside := nomatch inside
  owners := by
    refine ⟨?_, fun _ inside => absurd inside not_mem_nil, fun _ inside => absurd inside not_mem_nil⟩
    intro i known
    cases i with
    | none => rfl
    | some b => exact nomatch (known b rfl).1
  users _ inside := nomatch inside
  whole := rfl
  still := rfl
  settled := ⟨empty_sound, rfl, fun _ => Role.noConfusion, fun _ _ known => nomatch known⟩

theorem initialGroups_consistent {groups : List (Id × Name)} (consistent : Consistent labels db v o)
    (housed : Housed db v o) (fresh : ∀ g ∈ groups, ∀ c ∈ v.on .id, (db.entry c).id ≠ g.1)
    (distinct : (groups.map Prod.fst).Nodup) (done : groups.foldlM (initialGroup cfg) db = .ok db') :
    ∃ v' o', Consistent labels db' v' o' ∧ Housed db' v' o' := by
  induction groups generalizing db v o with
  | nil =>
    cases done
    exact ⟨v, o, consistent, housed⟩
  | cons g groups ih =>
    obtain ⟨db₁, made, done⟩ := except_bind_eq_ok.mp done
    obtain ⟨⟨db₂, id⟩, created, made⟩ := except_bind_eq_ok.mp made
    cases made
    obtain ⟨v₁, o₁, consistent₁, housed₁, new, given⟩ := createEntry_consistent consistent
      (fun _ => fresh g mem_cons_self) created
    rw [map_cons, nodup_cons] at distinct
    apply ih consistent₁ (housed₁ housed) ?_ distinct.2 done
    intro g' later c inside same
    rcases new c inside with new | ⟨d, old, is⟩
    · apply distinct.1
      rw [← given rfl, ← new, same]
      exact mem_map_of_mem later
    · exact fresh g' (mem_cons_of_mem g later) d old (is.trans same)

theorem initdb_consistent (done : initdb cfg = .ok db) : ∃ v o, Consistent labels db v o ∧ Housed db v o := by
  obtain ⟨-, done⟩ := ensure_then.mp done
  obtain ⟨db₁, made, done⟩ := except_bind_eq_ok.mp done
  cases done
  obtain ⟨v, o, consistent, housed⟩ := initialGroups_consistent empty_consistent (fun _ inside => nomatch inside)
    (fun _ _ _ inside => nomatch inside) (by decide) made
  have quiet : Quiet db₁ { db₁ with header.maxID := 0 } := Quiet.header rfl rfl (fun k => by cases k <;> rfl) rfl
  exact ⟨v, o, consistent.quiet quiet, housed.quiet quiet⟩

end OpenAFS.Ptserver
