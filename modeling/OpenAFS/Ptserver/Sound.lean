import OpenAFS.Ptserver.Lists

namespace OpenAFS.Ptserver

open Lib

/-- What the blocks of a database are used for, and the entries on the hash chains. `dying` is an entry that a deletion
    has begun to take apart, 0 if there is none. -/
structure View where
  role : Nat → Role
  conts : Nat → List Nat
  free : List Nat
  on : Thread → List Nat
  dying : Nat := 0

structure Sound (labels : Prop) (db : PrDb) (v : View) : Prop where
  roles : Roles db v.role v.conts v.free
  threaded : Threaded db v.on
  live : ∀ k, ∀ b ∈ v.on k, b ≠ v.dying → v.role b = .entry
  dying : v.dying = 0 ∨ v.role v.dying = .loose
  ids : ∀ b ∈ v.on .id, ∀ c ∈ v.on .id, (db.entry b).id = (db.entry c).id → b = c
  names : ∀ b ∈ v.on .name, ∀ c ∈ v.on .name, (db.entry b).name = (db.entry c).name → b = c
  plain : ∀ b ∈ v.on .id, (db.entry b).id ≠ badId ∧ (db.entry b).id ≠ 0
  short : ∀ b ∈ v.on .name, (db.entry b).name.length < maxNameLen
  lists : ∀ b, v.role b = .entry → ListOK labels db v.conts b

/-- Between the calls every block is in use or free, and every entry is on its two hash chains. -/
structure Settled (labels : Prop) (db : PrDb) (v : View) : Prop extends Sound labels db v where
  whole : v.dying = 0
  used : ∀ b, v.role b ≠ .loose
  complete : ∀ k b, v.role b = .entry → b ∈ v.on k

variable {b : Nat}

namespace Sound

variable {labels : Prop} {db : PrDb} {v : View}

variable (sound : Sound labels db v)
include sound

theorem ne_zero {k : Thread} (inside : b ∈ v.on k) : b ≠ 0 :=
  sound.threaded.nonzero inside

theorem entry (whole : v.dying = 0) {k : Thread} (inside : b ∈ v.on k) :
    v.role b = .entry := by
  apply sound.live k b inside
  rw [whole]
  exact sound.ne_zero inside

theorem findByID (aid : Id) : ∃ b, db.findByID aid = .ok b ∧
      (b = 0 ∧ (∀ c ∈ v.on .id, (db.entry c).id ≠ aid) ∨ b ∈ v.on .id ∧ (db.entry b).id = aid) := by
  unfold PrDb.findByID
  split
  · rename_i special
    refine ⟨0, rfl, .inl ⟨rfl, fun c inside same => ?_⟩⟩
    rw [← same] at special
    exact special.elim (sound.plain c inside).1 (sound.plain c inside).2
  obtain ⟨b, found, meaning⟩ := sound.threaded.findFrom (fun e => e.id = aid)
    (show idHash aid < hashSize from Nat.mod_lt _ (by decide))
  refine ⟨b, found, meaning.imp ?_ ?_⟩
  · rintro ⟨none, out⟩
    refine ⟨none, fun c inside same => ?_⟩
    have hit := out c inside (congrArg idHash same)
    exact of_decide_eq_false hit same
  · rintro ⟨inside, -, hit⟩
    exact ⟨inside, of_decide_eq_true hit⟩

theorem findByID_of_mem (inside : b ∈ v.on .id) : db.findByID (db.entry b).id = .ok b := by
  obtain ⟨c, found, ⟨-, none⟩ | ⟨here, same⟩⟩ := sound.findByID (db.entry b).id
  · exact absurd rfl (none b inside)
  · rw [found, sound.ids c here b inside same]

theorem of_findByID {aid : Id} (found : db.findByID aid = .ok b) :
    b = 0 ∧ (∀ c ∈ v.on .id, (db.entry c).id ≠ aid) ∨ b ≠ 0 ∧ b ∈ v.on .id ∧ (db.entry b).id = aid := by
  obtain ⟨c, found', meaning⟩ := sound.findByID aid
  cases found.symm.trans found'
  exact meaning.imp_right fun here => ⟨sound.ne_zero here.1, here⟩

theorem of_findByName {aname : Name} (found : db.findByName aname = .ok b) :
    b = 0 ∧ (∀ c ∈ v.on .name, (db.entry c).name ≠ aname) ∨
      b ≠ 0 ∧ b ∈ v.on .name ∧ (db.entry b).name = aname.take maxNameLen := by
  obtain ⟨c, found', meaning⟩ := sound.threaded.findFrom
    (fun e => e.name.take maxNameLen = aname.take maxNameLen)
    (show nameHash aname < hashSize from Nat.mod_lt _ (by decide))
  cases found.symm.trans found'
  refine meaning.imp ?_ ?_
  · rintro ⟨none, out⟩
    refine ⟨none, fun c inside same => ?_⟩
    have hit := out c inside (congrArg nameHash same)
    exact of_decide_eq_false hit (by rw [same])
  rintro ⟨inside, -, hit⟩
  refine ⟨sound.ne_zero inside, inside, ?_⟩
  have same := of_decide_eq_true hit
  rwa [List.take_of_length_le (Nat.le_of_lt (sound.short b inside))] at same

end Sound

structure PrEntry.Alike (e e' : PrEntry) : Prop where
  id : e'.id = e.id
  name : e'.name = e.name
  nextID : e'.nextID = e.nextID
  nextName : e'.nextName = e.nextName
  next : e'.next = e.next
  entries : e'.entries = e.entries
  count : e'.count = e.count
  flags : e'.flags = e.flags ∨ e.flags &&& (prFree ||| prCont) = 0 ∧ e'.flags = e.flags ||| prQuota

theorem or_prQuota_and {flags mask : UInt32} (without : prQuota &&& mask = 0) :
    (flags ||| prQuota) &&& mask = flags &&& mask := by
  have distribute : (flags ||| prQuota) &&& mask = flags &&& mask ||| prQuota &&& mask := by
    apply UInt32.toBitVec_inj.mp
    exact BitVec.and_or_distrib_right
  rw [distribute, without, UInt32.or_zero]

namespace PrEntry.Alike

theorem refl (e : PrEntry) : e.Alike e := ⟨rfl, rfl, rfl, rfl, rfl, rfl, rfl, .inl rfl⟩

variable {e e' e'' : PrEntry}

theorem used (alike : e.Alike e') (used : e.flags &&& (prFree ||| prCont) = 0) : e'.flags &&& (prFree ||| prCont) = 0 := by
  rcases alike.flags with same | ⟨-, quota⟩
  · rw [same, used]
  · rw [quota, or_prQuota_and (by decide), used]

theorem trans (first : e.Alike e') (second : e'.Alike e'') : e.Alike e'' := by
  refine ⟨second.id.trans first.id, second.name.trans first.name, second.nextID.trans first.nextID,
    second.nextName.trans first.nextName, second.next.trans first.next, second.entries.trans first.entries,
    second.count.trans first.count, ?_⟩
  rcases first.flags with same | ⟨used, quota⟩
  · rw [← same]
    exact second.flags
  rcases second.flags with same' | ⟨-, quota'⟩
  · exact .inr ⟨used, same'.trans quota⟩
  · refine .inr ⟨used, ?_⟩
    rw [quota', quota, UInt32.or_assoc, UInt32.or_self]

theorem isGroup (alike : e.Alike e') : e'.isGroup ↔ e.isGroup := by
  unfold PrEntry.isGroup
  rcases alike.flags with same | ⟨-, quota⟩
  · rw [same]
  · rw [quota, or_prQuota_and (by decide)]

theorem link (alike : e.Alike e') (k : Thread) : e'.link k = e.link k := by
  cases k with
  | id => exact alike.nextID
  | name => exact alike.nextName

theorem bucket (alike : e.Alike e') (k : Thread) : e'.bucket k = e.bucket k := by
  cases k with
  | id => exact congrArg idHash alike.id
  | name => exact congrArg nameHash alike.name

end PrEntry.Alike

structure Kept (db db' : PrDb) : Prop where
  freePtr : db'.header.freePtr = db.header.freePtr
  eofPtr : db'.header.eofPtr = db.header.eofPtr
  hash : ∀ k, db'.header.hash k = db.header.hash k
  blocks : ∀ b, db'.block b = db.block b ∨ ∃ e e', db.block b = .entry e ∧ db'.block b = .entry e' ∧ e.Alike e'

namespace Kept

theorem refl (db : PrDb) : Kept db db := ⟨rfl, rfl, fun _ => rfl, fun _ => .inl rfl⟩

variable {db db' db'' : PrDb}

theorem trans (first : Kept db db') (second : Kept db' db'') : Kept db db'' := by
  refine ⟨second.freePtr.trans first.freePtr, second.eofPtr.trans first.eofPtr,
    fun k => (second.hash k).trans (first.hash k), fun b => ?_⟩
  rcases second.blocks b with same' | ⟨e, e', old, new, alike⟩
  · rw [same']
    exact first.blocks b
  rcases first.blocks b with same | ⟨d, d', old', new', alike'⟩
  · rw [← same]
    exact .inr ⟨e, e', old, new, alike⟩
  · rw [new'] at old
    cases old
    exact .inr ⟨d, e', old', new, alike'.trans alike⟩

theorem putEntry {e : PrEntry} (form : db.IsEntry b) (alike : (db.entry b).Alike e) : Kept db (db.putEntry b e) := by
  refine ⟨rfl, rfl, fun _ => rfl, fun c => ?_⟩
  by_cases here : c = b
  · obtain ⟨d, old⟩ := form
    have same : db.entry b = d := by
      unfold PrDb.entry
      rw [old]
    rw [here]
    exact .inr ⟨d, e, old, Function.update_self .., same ▸ alike⟩
  · exact .inl (Function.update_of_ne here ..)

theorem entry (kept : Kept db db') (b : Nat) : (db.entry b).Alike (db'.entry b) := by
  unfold PrDb.entry
  rcases kept.blocks b with same | ⟨e, e', old, new, alike⟩
  · rw [same]
    exact .refl _
  · rw [old, new]
    exact alike

theorem form (kept : Kept db db') (b : Nat) : db'.IsEntry b ↔ db.IsEntry b := by
  unfold PrDb.IsEntry
  rcases kept.blocks b with same | ⟨e, e', old, new, -⟩
  · rw [same]
  · simp [old, new]

theorem cont (kept : Kept db db') (flags : (db.cont b).flags = prCont) : db'.cont b = db.cont b := by
  unfold PrDb.cont at *
  rcases kept.blocks b with same | ⟨e, e', old, new, alike⟩
  · rw [same]
  rw [old] at flags ⊢
  rw [new]
  have same : e'.flags = e.flags := by
    rcases alike.flags with same | ⟨used, -⟩
    · exact same
    · rw [show e.flags = prCont from flags] at used
      exact absurd used (by decide)
  dsimp only
  rw [same, alike.id, alike.next]

end Kept

def SameIds (db : PrDb) (v : View) (db' : PrDb) (v' : View) : Prop :=
  ∀ b, v.role b = .entry → db'.ids v'.conts b = db.ids v.conts b

namespace Sound

variable {labels : Prop} {db db' : PrDb} {v : View}

theorem kept (sound : Sound labels db v) (kept : Kept db db') : Sound labels db' v ∧ SameIds db v db' v := by
  have conted (b c : Nat) (here : v.role b = .entry) (inside : c ∈ v.conts b) : db'.cont c = db.cont c :=
    kept.cont (sound.roles.continued b c ((sound.roles.onList b c here).mp inside))
  have lists (b : Nat) (here : v.role b = .entry) := (sound.lists b here).congr (kept.entry b).entries (kept.entry b).count
    (kept.entry b).id rfl fun c inside => by rw [conted b c here inside]; exact ⟨rfl, rfl⟩
  refine ⟨⟨?_, ?_, sound.live, sound.dying, ?_, ?_, ?_, ?_, fun b here => (lists b here).1⟩, fun b here => (lists b here).2⟩
  · apply sound.roles.congr kept.eofPtr kept.freePtr
    · exact fun b _ _ => (kept.entry b).next
    · intro b here
      rw [kept.form]
      exact ⟨(sound.roles.entries b here).1, (kept.entry b).used (sound.roles.entries b here).2⟩
    · intro e c known
      rw [kept.cont (sound.roles.continued e c known)]
      exact sound.roles.continued e c known
    · intro b unused
      have flags := sound.roles.unused b unused
      rcases (kept.entry b).flags with same | ⟨used, -⟩
      · rw [same, flags]
      · rw [flags] at used
        exact absurd used (by decide)
  · apply sound.threaded.congr (Nat.le_of_eq kept.eofPtr.symm)
    · exact fun k n => congrFun (kept.hash k) n
    · intro k b inside
      exact ⟨(kept.entry b).link k, (kept.entry b).bucket k, (kept.form b).mpr (sound.threaded.entries k b inside).1⟩
  · intro b here c there
    rw [(kept.entry b).id, (kept.entry c).id]
    exact sound.ids b here c there
  · intro b here c there
    rw [(kept.entry b).name, (kept.entry c).name]
    exact sound.names b here c there
  · intro b here
    rw [(kept.entry b).id]
    exact sound.plain b here
  · intro b here
    rw [(kept.entry b).name]
    exact sound.short b here

theorem loose (sound : Sound labels db v) {k : Thread} (inside : b ∈ v.on k) (gone : v.role b ≠ .entry) :
    b = v.dying ∧ v.role b = .loose := by
  have same : b = v.dying := by
    by_contra other
    exact gone (sound.live k b inside other)
  refine ⟨same, ?_⟩
  rcases sound.dying with none | loose
  · exact absurd (same.trans none) (sound.ne_zero inside)
  · rwa [same]

theorem listStep (sound : Sound labels db v) {loc : Nat} {role' : Nat → Role} {conts' : Nat → List Nat} {free' : List Nat}
    (step : ListStep db v.role v.conts loc db' role' conts' free') (ok : ListOK labels db' conts' loc) :
    Sound labels db' { v with role := role', conts := conts', free := free' } ∧
      ∀ b ≠ loc, v.role b = .entry → db'.ids conts' b = db.ids v.conts b := by
  have still (k : Thread) (b : Nat) (inside : b ∈ v.on k) : (db'.entry b).rest = (db.entry b).rest ∧ db'.IsEntry b := by
    by_cases alive : v.role b = .entry
    · refine ⟨?_, (step.roles.entries b ((step.live b).mpr alive)).1⟩
      by_cases same : b = loc
      · rw [same]
        exact step.rest
      · rw [step.entry b same alive]
    have block := (step.loose b (sound.loose inside alive).2).2
    have form := (sound.threaded.entries k b inside).1
    unfold PrDb.IsEntry at *
    unfold PrDb.entry
    rw [block]
    exact ⟨rfl, form⟩
  have id (b : Nat) (inside : b ∈ v.on .id) : (db'.entry b).id = (db.entry b).id :=
    congrArg (fun e => e.id) (still _ b inside).1
  have name (b : Nat) (inside : b ∈ v.on .name) : (db'.entry b).name = (db.entry b).name :=
    congrArg (fun e => e.name) (still _ b inside).1
  have lists (b : Nat) (other : b ≠ loc) (known : v.role b = .entry) :
      ListOK labels db' conts' b ∧ db'.ids conts' b = db.ids v.conts b := by
    apply (sound.lists b known).congr
    · rw [step.entry b other known]
    · rw [step.entry b other known]
    · rw [step.entry b other known]
    · exact step.lists b other known
    · intro c inside
      rw [step.cont b other c ((sound.roles.onList b c known).mp inside)]
      exact ⟨rfl, rfl⟩
  refine ⟨⟨step.roles, ?_, ?_, ?_, ?_, ?_, ?_, ?_, ?_⟩, fun b other known => (lists b other known).2⟩
  · apply sound.threaded.congr step.eofPtr
    · intro k n
      cases k with
      | id => exact congrFun step.idHash n
      | name => exact congrFun step.nameHash n
    intro k b inside
    obtain ⟨rest, form⟩ := still k b inside
    refine ⟨?_, ?_, form⟩
    · cases k with
      | id => exact congrArg (fun e => e.nextID) rest
      | name => exact congrArg (fun e => e.nextName) rest
    · cases k with
      | id => exact congrArg (fun e => idHash e.id) rest
      | name => exact congrArg (fun e => nameHash e.name) rest
  · exact fun k b inside other => (step.live b).mpr (sound.live k b inside other)
  · exact sound.dying.imp_right fun loose => (step.loose _ loose).1
  · intro b inside c inside'
    rw [id b inside, id c inside']
    exact sound.ids b inside c inside'
  · intro b inside c inside'
    rw [name b inside, name c inside']
    exact sound.names b inside c inside'
  · intro b inside
    rw [id b inside]
    exact sound.plain b inside
  · intro b inside
    rw [name b inside]
    exact sound.short b inside
  · intro b known
    by_cases same : b = loc
    · rw [same]
      exact ok
    · exact (lists b same ((step.live b).mp known)).1

end Sound

end OpenAFS.Ptserver
