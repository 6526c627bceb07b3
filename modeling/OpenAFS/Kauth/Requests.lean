import OpenAFS.Lib.Machine
import OpenAFS.Kauth.OldKeys

namespace OpenAFS.Kauth

open Lib List Option

structure KeyChange where
  name : Name
  inst : Name
  key : EncryptionKey
  kvno : Int
  now : Date
  keyed : Bool

namespace KaDb

def setPassword (life : Nat) (db : KaDb) (c : KeyChange) : Option KaDb := do
  let index ← db.findBlock c.name c.inst
  if index = 0 then
    none
  else
    let tentry := db.block index
    if c.keyed then
      let (db, tentry) ← newKey life db index { tentry with flags := tentry.flags ||| kafSpecial } c.key c.now
      some (db.put index tentry)
    else
      let old := tentry.asEntry.keyVersion
      let kvno := if c.kvno = 0 then (if old < 1 ∨ old ≥ maxKaKvno then 1 else old + 1) else c.kvno
      some (db.put index { tentry with body := .entry { tentry.asEntry with key := c.key, keyVersion := kvno } })

/-- The keys that get_time may change along with a request; entries that are missing are passed over. -/
def autoCPW (life : Nat) : KaDb → List KeyChange → Option KaDb
  | db, [] => some db
  | db, c :: rest => do
    let index ← db.findBlock c.name c.inst
    if index = 0 then
      autoCPW life db rest
    else
      let db ← db.setPassword life c
      autoCPW life db rest

/-- The part of create_user that makes the entry with its first key, which comes from ka_NewKey if the entry is keyed. -/
def firstKey (life : Nat) (db : KaDb) (index : Nat) (flags : BitVec 32) (c : KeyChange) : Option (KaDb × Block) :=
  if c.keyed then
    newKey life db index
      { flags := flags ||| kafSpecial, body := .entry { name := c.name, instance_ := c.inst, keyVersion := -1 } }
      c.key c.now
  else
    some (db, { flags := flags, body := .entry { name := c.name, instance_ := c.inst, key := c.key } })

def createUser (life : Nat) (db : KaDb) (flags : BitVec 32) (c : KeyChange) (auto : List KeyChange) : Option KaDb := do
  let index ← db.findBlock c.name c.inst
  if index ≠ 0 then
    none
  else
    let (db, index) := db.allocBlock
    let (db, tentry) ← firstKey life db index flags c
    let db ← db.autoCPW life auto
    db.threadBlock index tentry

def deleteUser (life : Nat) (db : KaDb) (name inst : Name) (keyed : Bool) (auto : List KeyChange) : Option KaDb := do
  let index ← db.findBlock name inst
  if index = 0 then
    none
  else
    let tentry := db.block index
    let db ← if keyed then db.delKey index else some db
    let db ← db.unthreadBlock tentry
    let db ← db.freeBlock index
    db.autoCPW life auto

/-- The answers of NextBlock, each asked with the one before, up to the first that is 0. -/
def listEntries (db : KaDb) : Nat → Nat → List Nat
  | 0, _ => []
  | fuel + 1, index =>
    match db.nextBlock index with
    | none => []
    | some (next, _) => if next = 0 then [] else next :: listEntries db fuel next

end KaDb

inductive Request where
  | createUser (flags : BitVec 32) (c : KeyChange) (auto : List KeyChange)
  | setPassword (c : KeyChange)
  | deleteUser (name inst : Name) (keyed : Bool) (auto : List KeyChange)

/-- Only special names are keyed, and they lose their old keys when they go; callers set no flag that marks another kind
of block. -/
def Request.Allowed (special : Name → Name → Bool) : Request → Prop
  | .createUser flags c auto =>
    flags &&& (kafFree ||| kafOldKeys) = 0 ∧ ∀ c' ∈ c :: auto, c'.keyed = true → special c'.name c'.inst = true
  | .setPassword c => c.keyed = true → special c.name c.inst = true
  | .deleteUser name inst keyed auto =>
    (special name inst = true → keyed = true) ∧ ∀ c ∈ auto, c.keyed = true → special c.name c.inst = true

def Request.run (life : Nat) (db : KaDb) : Request → Option KaDb
  | .createUser flags c auto => db.createUser life flags c auto
  | .setPassword c => db.setPassword life c
  | .deleteUser name inst keyed auto => db.deleteUser life name inst keyed auto

/-- The server: a request that fails is aborted and leaves the database alone. -/
def server (life : Nat) : Machine KaDb Request where
  start db := db = KaDb.init
  step := Request.run life

def Keyed (special : Name → Name → Bool) (db : KaDb) (v : Parts) : Prop :=
  ∀ c ∈ v.olds, ∀ b ∈ v.live, (db.block c).entryOf = b → special (db.ident b).1 (db.ident b).2 = true

theorem special_flags {flags : BitVec 32} (plain : flags &&& (kafFree ||| kafOldKeys) = 0) :
    (flags ||| kafSpecial) &&& (kafFree ||| kafOldKeys) = 0 := by
  ext i below
  have bit := congrArg (fun w => w.getLsbD i) plain
  have fixed : (kafSpecial &&& (kafFree ||| kafOldKeys)).getLsbD i = (0 : BitVec 32).getLsbD i := rfl
  simp only [BitVec.getLsbD_and, BitVec.getLsbD_or] at bit fixed
  simp only [← BitVec.getLsbD_eq_getElem, BitVec.getLsbD_and, BitVec.getLsbD_or]
  rw [Bool.and_or_distrib_right, bit, fixed]
  simp

variable {auto : List KeyChange}

namespace Sound

variable {db : KaDb} {v : Parts} {special : Name → Name → Bool} (life : Nat)

structure Rekeyed (special : Name → Name → Bool) (db : KaDb) (v : Parts) (db' : KaDb) (v' : Parts) : Prop where
  sound : Sound db' v'
  live : v'.live = v.live
  loose : v'.loose = v.loose
  idents : ∀ b ∈ v.live, db'.ident b = db.ident b
  keyed : Keyed special db' v'
  owners : ∀ c ∈ v'.olds, (db'.block c).entryOf ∉ v.live → c ∈ v.olds ∧ (db'.block c).entryOf = (db.block c).entryOf

theorem setPassword (sound : Sound db v) (keyed : Keyed special db v) {c : KeyChange}
    (allowed : c.keyed = true → special c.name c.inst = true) :
    (∃ db' v', db.setPassword life c = some db' ∧ Rekeyed special db v db' v') ∨ db.findBlock c.name c.inst = some 0 := by
  rcases sound.findBlock c.name c.inst with ⟨index, found, ⟨rfl, -⟩ | ⟨live, ident⟩⟩
  · exact .inr found
  left
  have known : index ≠ 0 := sound.ne_zero (by simp [Parts.all, live])
  have entry := sound.entries index live
  simp only [KaDb.setPassword, found, bind_eq_bind, bind_some, if_neg known]
  by_cases new : c.keyed = true
  · have owner : index ∈ v.owners := by simp [Parts.owners, live]
    rcases sound.newKey life c.key c.now owner
      { db.block index with flags := (db.block index).flags ||| kafSpecial } with
      ⟨db', tentry, olds, free, done, sound', blocks, owned, entry'⟩
    have good : IsEntry tentry := by
      refine ⟨entry'.form, ?_⟩
      rw [entry'.flags]
      exact special_flags entry.flags
    have names : tentry.asEntry.name = (db'.block index).asEntry.name ∧
        tentry.asEntry.instance_ = (db'.block index).asEntry.instance_ := by
      rw [entry'.name, entry'.inst, blocks index live]
      exact ⟨rfl, rfl⟩
    have written := sound'.rewriteEntry live good (by rw [entry'.next, blocks index live]) names.1 names.2
    have idents : ∀ b ∈ v.live, (db'.put index tentry).ident b = db.ident b := by
      intro b inside
      unfold KaDb.ident
      rw [KaDb.block_put]
      split
      · rename_i here
        rw [here, names.1, names.2, blocks index live]
      · rw [blocks b inside]
    have owners : ∀ o ∈ olds, ((db'.put index tentry).block o).entryOf = (db'.block o).entryOf := by
      intro o inside
      rw [KaDb.block_put, if_neg]
      rintro rfl
      exact (sound'.apart.1 live).1 inside
    refine ⟨db'.put index tentry, _, ?_, written, rfl, rfl, idents, ?_, ?_⟩
    · simp only [new, if_true, done, bind_some]
    · intro o inside b live' here
      rw [idents b live']
      rw [owners o inside] at here
      rcases owned o inside with mine | ⟨old, kept⟩
      · cases mine
        rw [← here, ident]
        exact allowed new
      · rw [kept] at here
        exact keyed o old b live' here
    · intro o inside out
      rw [owners o inside] at out ⊢
      rcases owned o inside with mine | kept
      · cases mine
        exact absurd live out
      · exact kept
  · simp only [new, Bool.false_eq_true, if_false]
    generalize (if c.kvno = 0 then if (db.block index).asEntry.keyVersion < 1 ∨
      (db.block index).asEntry.keyVersion ≥ maxKaKvno then 1 else (db.block index).asEntry.keyVersion + 1
        else c.kvno) = kvno
    have written := @Sound.rewriteEntry db v sound index { db.block index with
      body := .entry { (db.block index).asEntry with key := c.key, keyVersion := kvno } } live
      ⟨⟨_, rfl⟩, entry.flags⟩ rfl rfl rfl
    have idents : ∀ b ∈ v.live, (db.put index { db.block index with
        body := .entry { (db.block index).asEntry with key := c.key, keyVersion := kvno } }).ident b = db.ident b := by
      intro b inside
      unfold KaDb.ident
      rw [KaDb.block_put]
      split
      · rename_i here
        rw [here]
        rfl
      · rfl
    have others : ∀ o ∈ v.olds, (db.put index { db.block index with
        body := .entry { (db.block index).asEntry with key := c.key, keyVersion := kvno } }).block o = db.block o := by
      intro o inside
      rw [KaDb.block_put, if_neg]
      rintro rfl
      exact (sound.apart.1 live).1 inside
    refine ⟨_, v, rfl, written, rfl, rfl, idents, ?_, ?_⟩
    · intro o inside b live' here
      rw [idents b live']
      rw [others o inside] at here
      exact keyed o inside b live' here
    · intro o inside _
      rw [others o inside]
      exact ⟨inside, rfl⟩

theorem Rekeyed.refl (sound : Sound db v) (keyed : Keyed special db v) : Rekeyed special db v db v :=
  ⟨sound, rfl, rfl, fun _ _ => rfl, keyed, fun _ inside _ => ⟨inside, rfl⟩⟩

theorem Rekeyed.trans {db' db'' : KaDb} {v' v'' : Parts} (first : Rekeyed special db v db' v')
    (second : Rekeyed special db' v' db'' v'') : Rekeyed special db v db'' v'' := by
  refine ⟨second.sound, second.live.trans first.live, second.loose.trans first.loose, ?_, second.keyed, ?_⟩
  · intro b inside
    rw [second.idents b (first.live ▸ inside), first.idents b inside]
  intro o inside out
  rcases second.owners o inside (first.live ▸ out) with ⟨inside', same⟩
  rw [same] at out ⊢
  exact first.owners o inside' out

theorem autoCPW (allowed : ∀ c ∈ auto, c.keyed = true → special c.name c.inst = true) :
    ∀ {db : KaDb} {v : Parts}, Sound db v → Keyed special db v →
      ∃ db' v', db.autoCPW life auto = some db' ∧ Rekeyed special db v db' v' := by
  induction auto with
  | nil => exact fun sound keyed => ⟨_, _, rfl, Rekeyed.refl sound keyed⟩
  | cons c rest ih =>
    intro db v sound keyed
    have later : ∀ {db : KaDb} {v : Parts}, Sound db v → Keyed special db v →
        ∃ db' v', db.autoCPW life rest = some db' ∧ Rekeyed special db v db' v' :=
      ih fun c' inside => allowed c' (mem_cons_of_mem _ inside)
    rcases sound.findBlock c.name c.inst with ⟨index, found, -⟩
    simp only [KaDb.autoCPW, found, bind_eq_bind, bind_some]
    by_cases missing : index = 0
    · rw [if_pos missing]
      exact later sound keyed
    rw [if_neg missing]
    rcases setPassword life sound keyed (allowed c mem_cons_self) with
      ⟨db', v', done, changed⟩ | absent
    · rcases later changed.sound changed.keyed with ⟨db'', v'', done', changed'⟩
      refine ⟨db'', v'', ?_, changed.trans changed'⟩
      rw [done, bind_some, done']
    · rw [found] at absent
      exact absurd (Option.some.inj absent) missing

theorem firstKey (c : KeyChange) (sound : Sound db v) (keyed : Keyed special db v) {index : Nat} (loose : v.loose = [index])
    (unowned : ∀ o ∈ v.olds, (db.block o).entryOf ≠ index) {flags : BitVec 32}
    (plain : flags &&& (kafFree ||| kafOldKeys) = 0) :
    ∃ db' tentry v', KaDb.firstKey life db index flags c = some (db', tentry) ∧
      Sound db' v' ∧ Keyed special db' v' ∧ v'.live = v.live ∧ v'.loose = [index] ∧
      (∀ b ∈ v.live, db'.ident b = db.ident b) ∧ IsEntry tentry ∧
      tentry.asEntry.name = c.name ∧ tentry.asEntry.instance_ = c.inst ∧
      (c.keyed = false → ∀ o ∈ v'.olds, (db'.block o).entryOf ≠ index) := by
  by_cases new : c.keyed = true
  · have owner : index ∈ v.owners := by simp [Parts.owners, loose]
    rcases sound.newKey life c.key c.now owner
      { flags := flags ||| kafSpecial, body := .entry { name := c.name, instance_ := c.inst, keyVersion := -1 } } with
      ⟨db', tentry, olds, free, done, sound', blocks, owned, entry⟩
    have idents : ∀ b ∈ v.live, db'.ident b = db.ident b := by
      intro b live
      unfold KaDb.ident
      rw [blocks b live]
    refine ⟨db', tentry, { v with olds := olds, free := free }, ?_, sound', ?_, rfl, loose, idents,
      ⟨entry.form, ?_⟩, entry.name, entry.inst, fun other => ?_⟩
    · rw [KaDb.firstKey, if_pos new]
      exact done
    · intro o inside b live here
      rw [idents b live]
      rcases owned o inside with mine | ⟨old, kept⟩
      · have same : b = index := here.symm.trans (Option.some.inj mine)
        have fresh : b ∈ v.loose := by simp [loose, same]
        exact absurd fresh (sound.apart.1 live).2.2
      · rw [kept] at here
        exact keyed o old b live here
    · rw [entry.flags]
      exact special_flags plain
    · rw [new] at other
      cases other
  · refine ⟨db, _, v, by rw [KaDb.firstKey, if_neg new], sound, keyed, rfl, loose, fun _ _ => rfl, ⟨⟨_, rfl⟩, plain⟩, rfl, rfl, ?_⟩
    exact fun _ => unowned

end Sound

def Settled (special : Name → Name → Bool) (db : KaDb) : Prop :=
  ∃ v, Sound db v ∧ v.loose = [] ∧ Keyed special db v

namespace Settled

variable {db db' : KaDb} {special : Name → Name → Bool} {life : Nat}

theorem init : Settled special KaDb.init := by
  refine ⟨⟨[], [], [], []⟩, ⟨?_, nodup_nil, ⟨0, rfl⟩, ?_, rfl, rfl, ?_, ?_, ?_, ?_⟩, rfl, ?_⟩
  · intro b
    simp only [Parts.all, append_nil, not_mem_nil, false_iff]
    rintro ⟨n, here, below⟩
    have bound : b < headerSize := below
    omega
  · exact fun i _ => rfl
  all_goals simp [Keyed]

theorem createUser (settled : Settled special db) {flags : BitVec 32} {c : KeyChange}
    (plain : flags &&& (kafFree ||| kafOldKeys) = 0)
    (allowed : ∀ c' ∈ c :: auto, c'.keyed = true → special c'.name c'.inst = true)
    (done : db.createUser life flags c auto = some db') : Settled special db' := by
  rcases settled with ⟨v, sound, whole, keyed⟩
  rcases sound.findBlock c.name c.inst with ⟨found, search, meaning⟩
  simp only [KaDb.createUser, search, bind_eq_bind, bind_some] at done
  by_cases used : found = 0
  · have unused : ∀ b ∈ v.live, db.ident b ≠ (c.name, c.inst) := by
      rcases meaning with ⟨-, unused⟩ | ⟨live, -⟩
      · exact unused
      · exact absurd used (sound.ne_zero (by simp [Parts.all, live]))
    rw [if_neg (not_not.mpr used)] at done
    rcases sound.allocBlock with ⟨free, sound₁, fresh, -⟩
    simp only [mem_append, not_or] at fresh
    generalize hindex : db.allocBlock.2 = index at done sound₁ fresh
    have idents₁ (b : Nat) : db.allocBlock.1.ident b = db.ident b := by
      unfold KaDb.ident
      rw [Sound.block_allocBlock]
    have unowned : ∀ o ∈ v.olds, (db.allocBlock.1.block o).entryOf ≠ index := by
      intro o inside same
      rw [Sound.block_allocBlock] at same
      have owned := (sound.oldKeys o inside).owner
      rw [same, Parts.owners, mem_append] at owned
      exact owned.elim fresh.1.1 fresh.2
    have keyed₁ : Keyed special db.allocBlock.1 { v with free := free, loose := index :: v.loose } := by
      intro o inside b live here
      rw [Sound.block_allocBlock] at here
      rw [idents₁]
      exact keyed o inside b live here
    have loose₁ : index :: v.loose = [index] := by rw [whole]
    rcases Sound.firstKey life c sound₁ keyed₁ loose₁ unowned plain with
      ⟨db₂, tentry, v₂, first, sound₂, keyed₂, live₂, loose₂, idents₂, good, name, inst, unowned₂⟩
    rw [first, bind_some] at done
    rcases Sound.autoCPW life (fun c' inside => allowed c' (mem_cons_of_mem _ inside)) sound₂ keyed₂ with
      ⟨db₃, v₃, second, changed⟩
    rw [second, bind_some] at done
    have live₃ : v₃.live = v.live := changed.live.trans live₂
    have idents₃ : ∀ b ∈ v.live, db₃.ident b = db.ident b := by
      intro b live
      rw [changed.idents b (live₂ ▸ live), idents₂ b live, idents₁]
    have unused₃ : ∀ b ∈ v₃.live, db₃.ident b ≠ (tentry.asEntry.name, tentry.asEntry.instance_) := by
      intro b live
      rw [live₃] at live
      rw [idents₃ b live, name, inst]
      exact unused b live
    have loose₃ : v₃.loose = [index] := changed.loose.trans loose₂
    rcases changed.sound.threadBlock loose₃ good unused₃ with ⟨db₄, third, sound₄, blocks₄, ident₄⟩
    cases third.symm.trans done
    refine ⟨_, sound₄, rfl, ?_⟩
    have notOld : ∀ o ∈ v₃.olds, o ≠ index := by
      rintro o inside rfl
      exact (changed.sound.apart.2.1 inside).2 (by simp [loose₃])
    have notLive : index ∉ v₃.live := fun live => (changed.sound.apart.1 live).2.2 (by simp [loose₃])
    intro o inside b live here
    rw [blocks₄ o (notOld o inside)] at here
    rcases List.mem_cons.mp live with new | old
    · rw [new] at here ⊢
      rw [ident₄, name, inst]
      apply allowed c mem_cons_self
      by_contra unkeyed
      have out : (db₃.block o).entryOf ∉ v₂.live := by
        rw [here, ← changed.live]
        exact notLive
      rcases changed.owners o inside out with ⟨inside', same⟩
      rw [same] at here
      exact unowned₂ (by simpa using unkeyed) o inside' here
    · have other : b ≠ index := by
        rintro rfl
        exact notLive old
      have same : db'.ident b = db₃.ident b := by
        unfold KaDb.ident
        rw [blocks₄ b other]
      rw [same]
      exact changed.keyed o inside b old here
  · rw [if_pos used] at done
    cases done

theorem setPassword (settled : Settled special db) {c : KeyChange}
    (allowed : c.keyed = true → special c.name c.inst = true) (done : db.setPassword life c = some db') :
    Settled special db' := by
  rcases settled with ⟨v, sound, whole, keyed⟩
  rcases Sound.setPassword life sound keyed allowed with ⟨db₁, v₁, changed, rekeyed⟩ | absent
  · cases changed.symm.trans done
    exact ⟨v₁, rekeyed.sound, rekeyed.loose.trans whole, rekeyed.keyed⟩
  · rw [KaDb.setPassword, absent] at done
    cases done

theorem deleteUser (settled : Settled special db) {name inst : Name} {wiped : Bool}
    (clean : special name inst = true → wiped = true)
    (allowed : ∀ c ∈ auto, c.keyed = true → special c.name c.inst = true)
    (done : db.deleteUser life name inst wiped auto = some db') : Settled special db' := by
  rcases settled with ⟨v, sound, whole, keyed⟩
  rcases sound.findBlock name inst with ⟨index, search, meaning⟩
  simp only [KaDb.deleteUser, search, bind_eq_bind, bind_some] at done
  by_cases missing : index = 0
  · rw [if_pos missing] at done
    cases done
  rw [if_neg missing] at done
  rcases meaning with ⟨zero, -⟩ | ⟨live, ident⟩
  · exact absurd zero missing
  -- without its old keys, whether they are looked for or not
  have wipe : ∃ db₁ olds free, (if wiped = true then db.delKey index else some db) = some db₁ ∧
      Sound db₁ { v with olds := olds, free := free } ∧ (∀ o ∈ olds, (db₁.block o).entryOf ≠ index) ∧
      (∀ b ∈ v.live, db₁.block b = db.block b) ∧ Owned none db v.olds db₁ olds := by
    by_cases keys : wiped = true
    · rw [if_pos keys]
      exact sound.delKey index
    rw [if_neg keys]
    refine ⟨db, v.olds, v.free, rfl, sound, ?_, fun _ _ => rfl, Owned.refl _ _ _⟩
    intro o inside here
    have isSpecial := keyed o inside index live here
    rw [ident] at isSpecial
    exact keys (clean isSpecial)
  rcases wipe with ⟨db₁, olds, free, first, sound₁, unowned, blocks, owned⟩
  rcases sound₁.unthreadBlock live with ⟨db₂, second, sound₂, bodies⟩
  have unowned₂ : ∀ o ∈ olds, (db₂.block o).entryOf ≠ index := by
    intro o inside
    unfold Block.entryOf
    rw [bodies o]
    exact unowned o inside
  rcases sound₂.freeLoose rfl unowned₂ with ⟨db₃, third, sound₃, blocks₃⟩
  rw [blocks index live] at second
  have freed : index ∉ olds := fun inside => (sound₁.apart.1 live).1 inside
  have keyed₃ : Keyed special db₃
      { live := v.live.filter fun b => b ≠ index, olds := olds, free := index :: free, loose := v.loose } := by
    intro o inside b live' here
    rcases List.mem_filter.mp live' with ⟨old, other⟩
    rw [decide_eq_true_eq] at other
    have notIndex : o ≠ index := by
      rintro rfl
      exact freed inside
    have ident₃ : db₃.ident b = db.ident b := by
      unfold KaDb.ident
      rw [blocks₃ b other, asEntry_of_body (bodies b), blocks b old]
    rw [ident₃]
    rw [blocks₃ o notIndex, Block.entryOf, bodies o] at here
    rcases owned o inside with mine | ⟨inside', same⟩
    · cases mine
    · exact keyed o inside' b old (same.symm.trans here)
  rcases Sound.autoCPW life allowed sound₃ keyed₃ with ⟨db₄, v₄, fourth, changed⟩
  have result : db.deleteUser life name inst wiped auto = some db₄ := by
    simp only [KaDb.deleteUser, search, bind_eq_bind, bind_some, if_neg missing]
    by_cases keys : wiped = true
    · rw [if_pos keys] at first ⊢
      rw [first, bind_some, second, bind_some, third, bind_some, fourth]
    · rw [if_neg keys] at first ⊢
      cases first
      rw [second, bind_some, third, bind_some, fourth]
  have same : db.deleteUser life name inst wiped auto = some db' := by
    simp only [KaDb.deleteUser, search, bind_eq_bind, bind_some, if_neg missing]
    exact done
  cases result.symm.trans same
  exact ⟨v₄, changed.sound, changed.loose.trans whole, changed.keyed⟩

theorem run {request : Request} (settled : Settled special db) (allowed : request.Allowed special)
    (done : request.run life db = some db') : Settled special db' := by
  cases request with
  | createUser flags c auto => exact settled.createUser allowed.1 allowed.2 done
  | setPassword c => exact settled.setPassword allowed done
  | deleteUser name inst keyed auto => exact settled.deleteUser allowed.1 allowed.2 done

theorem reach (reached : (server life).ReachWhere (fun _ request => request.Allowed special) db) : Settled special db := by
  apply reached.invariant
  · intro db start
    rw [show db = KaDb.init from start]
    exact init
  · intro db request db' settled allowed done
    exact settled.run allowed done

end Settled

section Listing

variable {db : KaDb} {v : Parts}

theorem Sound.live_iff (sound : Sound db v) (whole : v.loose = []) {b : Nat} (known : db.IsBlock b) :
    (db.block b).flags &&& (kafFree ||| kafOldKeys) = 0 ↔ b ∈ v.live := by
  constructor
  · intro plain
    have inside := (sound.cover b).mpr known
    simp only [Parts.all, whole, append_nil, mem_append] at inside
    rcases inside with live | old | free
    · exact live
    · rw [(sound.oldKeys b old).flags] at plain
      exact absurd plain (by decide)
    · rw [sound.unused b free] at plain
      exact absurd plain (by decide)
  · intro live
    exact (sound.entries b live).flags

theorem Sound.nextFrom (sound : Sound db v) (whole : v.loose = []) {fuel n : Nat} (more : 0 < fuel)
    (enough : db.eofPtr < headerSize + entrySize * n + fuel) :
    ∃ b r, db.nextFrom fuel (headerSize + entrySize * n) = some (b, r) ∧ (b = 0 ∧ (∀ c ∈ v.live, c < headerSize + entrySize * n) ∨
        b ∈ v.live ∧ headerSize + entrySize * n ≤ b ∧ ∀ c ∈ v.live, headerSize + entrySize * n ≤ c → b ≤ c) := by
  induction fuel generalizing n with
  | zero => cases more
  | succ fuel ih =>
    rw [KaDb.nextFrom]
    by_cases inside : headerSize + entrySize * n < db.eofPtr
    · rw [if_pos inside]
      have known : db.IsBlock (headerSize + entrySize * n) := ⟨n, rfl, inside⟩
      by_cases plain : (db.block (headerSize + entrySize * n)).flags &&& (kafFree ||| kafOldKeys) = 0
      · rw [if_pos plain]
        exact ⟨_, _, rfl, .inr ⟨(sound.live_iff whole known).mp plain, Nat.le_refl _, fun c _ later => later⟩⟩
      rw [if_neg plain]
      have other : headerSize + entrySize * n ∉ v.live := mt (sound.live_iff whole known).mpr plain
      have step : headerSize + entrySize * n + entrySize = headerSize + entrySize * (n + 1) := by
        rw [Nat.mul_succ, Nat.add_assoc]
      have size : 0 < entrySize := by decide
      rw [step]
      rcases ih (by omega) (by rw [← step]; omega) with ⟨b, r, found, meaning⟩
      have below : ∀ c ∈ v.live, c < headerSize + entrySize * (n + 1) → c < headerSize + entrySize * n := by
        intro c live bound
        by_contra above
        rcases sound.isBlock (b := c) (by simp [Parts.all, live]) with ⟨m, here, -⟩
        have same : m = n := by
          unfold entrySize at here bound above
          omega
        rw [same] at here
        exact other (here ▸ live)
      refine ⟨b, r, found, meaning.imp ?_ ?_⟩
      · intro h
        exact ⟨h.1, fun c live => below c live (h.2 c live)⟩
      intro h
      refine ⟨h.1, Nat.le_trans (by rw [← step]; omega) h.2.1, ?_⟩
      intro c live later
      apply h.2.2 c live
      by_contra early
      exact absurd (below c live (by omega)) (by omega)
    · rw [if_neg inside]
      refine ⟨0, 0, rfl, .inl ⟨rfl, ?_⟩⟩
      intro c live
      have bound := sound.lt_eof (b := c) (by simp [Parts.all, live])
      omega

theorem Sound.nextBlock (sound : Sound db v) (whole : v.loose = []) {index : Nat} (start : index = 0 ∨ index ∈ v.live) :
    ∃ b r, db.nextBlock index = some (b, r) ∧
      (b = 0 ∧ (∀ c ∈ v.live, c ≤ index) ∨ b ∈ v.live ∧ index < b ∧ ∀ c ∈ v.live, index < c → b ≤ c) := by
  have behind {c : Nat} (live : c ∈ v.live) : db.IsBlock c := sound.isBlock (by simp [Parts.all, live])
  rcases start with rfl | live
  · rcases sound.nextFrom whole (Nat.succ_pos db.eofPtr) (n := 0) (by omega) with ⟨b, r, found, meaning⟩
    refine ⟨b, r, found, meaning.imp ?_ ?_⟩
    · intro h
      refine ⟨h.1, fun c live => ?_⟩
      rcases behind live with ⟨m, here, -⟩
      have bound := h.2 c live
      omega
    intro h
    refine ⟨h.1, ?_, fun c live _ => ?_⟩
    · have low := h.2.1
      unfold headerSize at low
      omega
    · rcases behind live with ⟨m, here, -⟩
      exact h.2.2 c live (by omega)
  rcases behind live with ⟨n, here, below⟩
  have nonzero : index ≠ 0 := sound.ne_zero (by simp [Parts.all, live])
  have step : index + entrySize = headerSize + entrySize * (n + 1) := by rw [here, Nat.mul_succ, Nat.add_assoc]
  rcases sound.nextFrom whole (Nat.succ_pos db.eofPtr) (n := n + 1) (by omega) with ⟨b, r, found, meaning⟩
  rw [KaDb.nextBlock, if_neg nonzero, if_pos (sound.indexOK (by simp [Parts.all, live])), step]
  have next : ∀ c ∈ v.live, index < c ↔ headerSize + entrySize * (n + 1) ≤ c := by
    intro c live'
    rcases behind live' with ⟨m, there, -⟩
    unfold entrySize at there here step ⊢
    omega
  refine ⟨b, r, found, meaning.imp ?_ ?_⟩
  · intro h
    refine ⟨h.1, fun c live' => ?_⟩
    have bound := h.2 c live'
    have lower := next c live'
    omega
  · intro h
    refine ⟨h.1, (next b h.1).mpr h.2.1, fun c live' later => h.2.2 c live' ((next c live').mp later)⟩

theorem Sound.listEntries (sound : Sound db v) (whole : v.loose = []) {fuel index : Nat}
    (start : index = 0 ∨ index ∈ v.live) (enough : db.eofPtr < index + fuel) :
    (db.listEntries fuel index).Pairwise (· < ·) ∧ ∀ b, b ∈ db.listEntries fuel index ↔ b ∈ v.live ∧ index < b := by
  induction fuel generalizing index with
  | zero =>
    refine ⟨List.Pairwise.nil, fun b => ?_⟩
    simp only [KaDb.listEntries, not_mem_nil, false_iff, not_and, not_lt]
    intro live
    have bound := sound.lt_eof (b := b) (by simp [Parts.all, live])
    omega
  | succ fuel ih =>
    rcases sound.nextBlock whole start with ⟨next, r, found, meaning⟩
    simp only [KaDb.listEntries, found]
    rcases meaning with ⟨zero, done⟩ | ⟨live, later, first⟩
    · rw [if_pos zero]
      refine ⟨List.Pairwise.nil, fun b => ?_⟩
      simp only [not_mem_nil, false_iff, not_and, not_lt]
      exact done b
    have nonzero : next ≠ 0 := by omega
    rw [if_neg nonzero]
    rcases ih (.inr live) (by omega) with ⟨sorted, members⟩
    refine ⟨List.pairwise_cons.mpr ⟨fun b inside => ((members b).mp inside).2, sorted⟩, fun b => ?_⟩
    rw [mem_cons, members]
    constructor
    · rintro (rfl | h)
      · exact ⟨live, later⟩
      · exact ⟨h.1, by omega⟩
    intro h
    have low := first b h.1 h.2
    by_cases same : b = next
    · exact .inl same
    · exact .inr ⟨h.1, by omega⟩

end Listing

structure Chains (db : KaDb) (names : Nat → List Nat) (olds free : List Nat) : Prop where
  names : ∀ i < hashSize, Linked db.load Slot.next (.nameHash i) (names i)
  olds : Linked db.load Slot.next .kvnoPtr olds
  free : Linked db.load Slot.next .freePtr free

/-- The blocks are partitioned, old keys belong to entries, and both ways of looking up find exactly the entries. -/
theorem blocks_partitioned {life : Nat} {special : Name → Name → Bool} {db : KaDb}
    (reached : (server life).ReachWhere (fun _ request => request.Allowed special) db) :
    ∃ (names : Nat → List Nat) (olds free : List Nat), Chains db names olds free ∧
      (∀ i < hashSize, ∀ b ∈ names i, db.bucket b = i) ∧
      (∀ b, db.IsBlock b ↔ b ∈ names (db.bucket b) ∨ b ∈ olds ∨ b ∈ free) ∧
      (∀ b, b ∈ names (db.bucket b) → b ∉ olds ∧ b ∉ free) ∧ (∀ b ∈ olds, b ∉ free) ∧
      (∀ i < hashSize, (names i).Nodup) ∧ olds.Nodup ∧ free.Nodup ∧
      (∀ b ∈ olds, ((db.block b).entryOf ∈ names (db.bucket (db.block b).entryOf)) ∧ ∃ k ∈ (db.block b).keys, k.superseded ≠ 0) ∧
      (∀ name inst, ∃ index, db.findBlock name inst = some index ∧
        ∀ b, b ∈ names (db.bucket b) ∧ db.ident b = (name, inst) ↔ b = index ∧ index ≠ 0) ∧
      (∀ fuel, db.eofPtr < fuel → (db.listEntries fuel 0).Nodup ∧ ∀ b, b ∈ db.listEntries fuel 0 ↔ b ∈ names (db.bucket b)) := by
  rcases Settled.reach reached with ⟨v, sound, whole, -⟩
  have live (b : Nat) : b ∈ (v.live.filter fun c => db.bucket c = db.bucket b) ↔ b ∈ v.live := by
    rw [mem_filter, decide_eq_true_eq]
    exact and_iff_left rfl
  have zero : 0 ∉ v.live := fun inside => sound.ne_zero (by simp [Parts.all, inside]) rfl
  refine ⟨fun i => v.live.filter fun c => db.bucket c = i, v.olds, v.free, ⟨?_, sound.kvno, sound.freeList⟩, ?_, ?_, ?_,
    ?_, ?_, sound.kvno.nodup, sound.freeList.nodup, ?_, ?_, ?_⟩
  · exact sound.names
  · intro i _ b inside
    simpa using (List.mem_filter.mp inside).2
  · intro b
    dsimp only
    rw [live, ← sound.cover]
    simp only [Parts.all, whole, append_nil, mem_append]
  · intro b inside
    dsimp only at inside
    rw [live] at inside
    exact ⟨(sound.apart.1 inside).1, (sound.apart.1 inside).2.1⟩
  · intro b inside
    exact (sound.apart.2.1 inside).1
  · intro i small
    exact (sound.names i small).nodup
  · intro b inside
    have old := sound.oldKeys b inside
    have owner := old.owner
    rw [Parts.owners, whole, append_nil] at owner
    exact ⟨(live _).mpr owner, old.some_key⟩
  · intro name inst
    rcases sound.findBlock name inst with ⟨index, found, meaning⟩
    refine ⟨index, found, fun b => ?_⟩
    dsimp only
    rw [live]
    rcases meaning with ⟨rfl, absent⟩ | ⟨inside, ident⟩
    · constructor
      · intro h
        exact absurd h.2 (absent b h.1)
      · intro h
        exact absurd rfl h.2
    constructor
    · intro h
      refine ⟨sound.distinct b h.1 index inside (h.2.trans ident.symm), ?_⟩
      rintro rfl
      exact zero inside
    · rintro ⟨rfl, -⟩
      exact ⟨inside, ident⟩
  · intro fuel enough
    rcases sound.listEntries whole (.inl rfl) (show db.eofPtr < 0 + fuel by omega) with ⟨sorted, members⟩
    refine ⟨sorted.imp (fun lt => Nat.ne_of_lt lt), fun b => ?_⟩
    dsimp only
    rw [members, live]
    constructor
    · exact And.left
    intro inside
    refine ⟨inside, Nat.pos_of_ne_zero ?_⟩
    rintro rfl
    exact zero inside

theorem blocks_partitioned_one : ∃ db, (server 90).step KaDb.init (.createUser 1 ⟨[65], [], 7, 0, 1000, true⟩ []) = some db ∧
    ∃ (names : Nat → List Nat) (olds free : List Nat), Chains db names olds free ∧
      (∀ i < hashSize, ∀ b ∈ names i, db.bucket b = i) ∧
      (∀ b, db.IsBlock b ↔ b ∈ names (db.bucket b) ∨ b ∈ olds ∨ b ∈ free) ∧
      (∀ b, b ∈ names (db.bucket b) → b ∉ olds ∧ b ∉ free) ∧ (∀ b ∈ olds, b ∉ free) ∧
      (∀ i < hashSize, (names i).Nodup) ∧ olds.Nodup ∧ free.Nodup ∧
      (∀ b ∈ olds, ((db.block b).entryOf ∈ names (db.bucket (db.block b).entryOf)) ∧ ∃ k ∈ (db.block b).keys, k.superseded ≠ 0) ∧
      (∀ name inst, ∃ index, db.findBlock name inst = some index ∧
        ∀ b, b ∈ names (db.bucket b) ∧ db.ident b = (name, inst) ↔ b = index ∧ index ≠ 0) ∧
      (∀ fuel, db.eofPtr < fuel → (db.listEntries fuel 0).Nodup ∧ ∀ b, b ∈ db.listEntries fuel 0 ↔ b ∈ names (db.bucket b)) := by
  have allowed : (Request.createUser 1 ⟨[65], [], 7, 0, 1000, true⟩ []).Allowed (fun _ _ => true) := by
    refine ⟨by decide, fun _ _ _ => rfl⟩
  have taken : ∃ db, (server 90).step KaDb.init (.createUser 1 ⟨[65], [], 7, 0, 1000, true⟩ []) = some db :=
    ⟨_, rfl⟩
  rcases taken with ⟨db, taken⟩
  exact ⟨db, taken, blocks_partitioned (.step (.start rfl) allowed taken)⟩

end OpenAFS.Kauth
