import OpenAFS.Kauth.Partition

namespace OpenAFS.Kauth

open Lib List Option

variable {life : Nat} {now : Date} {ver : Int} {key : EncryptionKey}

theorem scanKeys_some {added : Bool} {keys : List OldKey} (kept : (KaDb.scanKeys life now ver key added keys).keyEntries ≠ 0) :
    ∃ k ∈ (KaDb.scanKeys life now ver key added keys).keys, k.superseded ≠ 0 := by
  induction keys generalizing added with
  | nil => exact absurd rfl kept
  | cons k rest ih =>
    simp only [KaDb.scanKeys] at kept ⊢
    generalize hk : (if decide (¬ added = true ∧ (KaDb.ageKey life now ver k).1.superseded = 0) = true then
      ({ superseded := neverDate, version := ver, key := key } : OldKey) else (KaDb.ageKey life now ver k).1) = k' at kept ⊢
    by_cases counted : k'.superseded ≠ 0
    · exact ⟨k', mem_cons_self, counted⟩
    · rw [if_neg counted, Nat.add_zero] at kept
      rcases ih kept with ⟨found, inside, some_⟩
      exact ⟨found, mem_cons_of_mem _ inside, some_⟩

theorem Linked.headD {load : Slot → Nat} {a : Slot} {cells : List Nat} (linked : Linked load Slot.next a cells) :
    load a = cells.headD 0 := by
  cases cells with
  | nil => exact linked
  | cons b rest => exact linked.1

def Owned (entry : Option Nat) (db : KaDb) (olds : List Nat) (db' : KaDb) (olds' : List Nat) : Prop :=
  ∀ c ∈ olds', some (db'.block c).entryOf = entry ∨ (c ∈ olds ∧ (db'.block c).entryOf = (db.block c).entryOf)

namespace Owned

variable {entry : Option Nat} {db db' db'' : KaDb} {olds olds' olds'' : List Nat}

theorem refl (entry : Option Nat) (db : KaDb) (olds : List Nat) : Owned entry db olds db olds :=
  fun _ member => .inr ⟨member, rfl⟩

theorem trans (first : Owned entry db olds db' olds') (second : Owned entry db' olds' db'' olds'') :
    Owned entry db olds db'' olds'' := by
  intro c member
  rcases second c member with new | ⟨member', same⟩
  · exact .inl new
  rcases first c member' with new | ⟨member'', same'⟩
  · left
    rw [same]
    exact new
  · exact .inr ⟨member'', same.trans same'⟩

theorem drop {before after : List Nat} {b : Nat} (split : olds = before ++ b :: after)
    (bodies : ∀ c ∈ before ++ after, (db'.block c).body = (db.block c).body) :
    Owned entry db olds db' (before ++ after) := by
  intro c member
  right
  constructor
  · rw [split]
    simp only [mem_append, mem_cons] at member ⊢
    tauto
  · unfold Block.entryOf
    rw [bodies c member]

end Owned

namespace Sound

variable {db : KaDb} {v : Parts}

theorem kvno_at (sound : Sound db v) {before after : List Nat} {b : Nat} (split : v.olds = before ++ b :: after) :
    b ≠ 0 ∧ (db.block b).next = after.headD 0 ∧ b ∈ v.olds := by
  have linked := sound.kvno
  rw [split] at linked
  have here := linked.drop
  refine ⟨here.2.1, Linked.headD here.2.2, by simp [split]⟩

theorem newKeyLoop (life : Nat) (now : Date) (ver : Int) (key : EncryptionKey) {rest : List Nat} {tentryaddr : Nat} :
    ∀ {db : KaDb} {v : Parts} {before : List Nat} {fuel : Nat} (added total : Nat), Sound db v → v.olds = before ++ rest → tentryaddr ∈ v.owners → rest.length < fuel →
    ∃ db' olds free added' total', KaDb.newKeyLoop life tentryaddr now ver key fuel db
        (slotAfter Slot.next .kvnoPtr before) (rest.headD 0) added total = some (db', added', total') ∧
      Sound db' { v with olds := olds, free := free } ∧ (∀ c ∈ v.live, db'.block c = db.block c) ∧
      Owned (some tentryaddr) db v.olds db' olds := by
  induction rest with
  | nil =>
    intro db v before fuel added total sound split owner enough
    cases fuel with
    | zero => cases enough
    | succ fuel =>
      refine ⟨db, v.olds, v.free, added, total, ?_, sound, fun _ _ => rfl, Owned.refl _ _ _⟩
      rw [KaDb.newKeyLoop, headD_nil, if_pos rfl]
  | cons b rest ih =>
    intro db v before fuel added total sound split owner enough
    cases fuel with
    | zero => cases enough
    | succ fuel =>
      rcases sound.kvno_at split with ⟨nonzero, next, inside⟩
      have fuel' : rest.length < fuel := by simpa using enough
      have onward : slotAfter Slot.next .kvnoPtr (before ++ [b]) = .next b := slotAfter_concat ..
      have resplit : v.olds = (before ++ [b]) ++ rest := by rw [split, append_assoc]; rfl
      rw [headD_cons, KaDb.newKeyLoop, if_neg nonzero]
      by_cases own : (db.block b).entryOf = tentryaddr
      · simp only [own, ne_eq, not_true_eq_false, if_false]
        generalize scanned : KaDb.scanKeys life now ver key (decide ¬ added = 0) (db.block b).keys = scan
        by_cases empty : scan.keyEntries = 0
        · -- the block goes, and the walk stays at the slot it has come to
          rcases sound.dropOldKeys split with ⟨db', freed, sound', same, bodies⟩
          rw [next] at freed
          simp only [empty, not_true_eq_false, if_false, freed, bind_eq_bind, bind_some, next]
          have again := ih (if added = 0 ∧ scan.added = true then b else added) (total + 0) sound' rfl owner fuel'
          rcases again with ⟨db'', olds, free, added', total', done, sound'', same', owned⟩
          refine ⟨db'', olds, free, added', total', done, sound'', ?_, (Owned.drop split bodies).trans owned⟩
          intro c live
          rw [same' c live, same c (sound.apart.1 live).1]
        have key_ : ∃ k ∈ scan.keys, k.superseded ≠ 0 := by
          subst scanned
          exact scanKeys_some empty
        rcases sound.oldKeys b inside with ⟨⟨entry, keys, form⟩, flags, owned, -⟩
        simp only [empty, not_false_eq_true, if_true, next]
        rw [← onward]
        by_cases modified : scan.modified = true
        · rw [if_pos modified]
          have good : IsOldKeys v.owners
              { flags := (db.block b).flags, next := rest.headD 0, body := .oldKeys tentryaddr scan.keys } :=
            ⟨⟨_, _, rfl⟩, flags, owner, key_⟩
          rcases ih (if added = 0 ∧ scan.added = true then b else added) (total + scan.keyEntries)
              (sound.rewriteOldKeys inside good next.symm) resplit owner fuel' with
            ⟨db', olds, free, added', total', done, sound', same, owned⟩
          refine ⟨db', olds, free, added', total', done, sound', ?_, Owned.trans ?_ owned⟩
          · intro c live
            rw [same c live, KaDb.block_put, if_neg]
            rintro rfl
            exact (sound.apart.1 live).1 inside
          intro c member
          rw [KaDb.block_put]
          split
          · exact .inl rfl
          · exact .inr ⟨member, rfl⟩
        · rw [if_neg modified]
          exact ih _ _ sound resplit owner fuel'
      · simp only [ne_eq, own, not_false_eq_true, if_true, next]
        rw [← onward]
        exact ih _ _ sound resplit owner fuel'

theorem delKeyLoop (tentryaddr : Nat) {rest : List Nat} : ∀ {db : KaDb} {v : Parts} {before : List Nat} {fuel : Nat},
    Sound db v → v.olds = before ++ rest → (∀ c ∈ before, (db.block c).entryOf ≠ tentryaddr) → rest.length < fuel →
    ∃ db' olds free, KaDb.delKeyLoop tentryaddr fuel db (slotAfter Slot.next .kvnoPtr before) (rest.headD 0) = some db' ∧
      Sound db' { v with olds := olds, free := free } ∧ (∀ c ∈ olds, (db'.block c).entryOf ≠ tentryaddr) ∧
      (∀ c ∈ v.live, db'.block c = db.block c) ∧ Owned none db v.olds db' olds := by
  induction rest with
  | nil =>
    intro db v before fuel sound split passed enough
    cases fuel with
    | zero => cases enough
    | succ fuel =>
      rw [append_nil] at split
      refine ⟨db, v.olds, v.free, ?_, sound, ?_, fun _ _ => rfl, Owned.refl _ _ _⟩
      · rw [KaDb.delKeyLoop, headD_nil, if_pos rfl]
      · rwa [split]
  | cons b rest ih =>
    intro db v before fuel sound split passed enough
    cases fuel with
    | zero => cases enough
    | succ fuel =>
      rcases sound.kvno_at split with ⟨nonzero, next, inside⟩
      have fuel' : rest.length < fuel := by simpa using enough
      rw [headD_cons, KaDb.delKeyLoop, if_neg nonzero]
      by_cases own : (db.block b).entryOf = tentryaddr
      · rcases sound.dropOldKeys split with ⟨db', freed, sound', same, bodies⟩
        rw [next] at freed
        simp only [own, ne_eq, not_true_eq_false, if_false, freed, bind_eq_bind, bind_some, next]
        have passed' : ∀ c ∈ before, (db'.block c).entryOf ≠ tentryaddr := by
          intro c member
          have old := passed c member
          unfold Block.entryOf at old ⊢
          rwa [bodies c (by simp [member])]
        rcases ih sound' rfl passed' fuel' with ⟨db'', olds, free, done, sound'', clean, same', owned⟩
        refine ⟨db'', olds, free, done, sound'', clean, ?_, (Owned.drop split bodies).trans owned⟩
        intro c live
        rw [same' c live, same c (sound.apart.1 live).1]
      · have onward : slotAfter Slot.next .kvnoPtr (before ++ [b]) = .next b := slotAfter_concat ..
        have resplit : v.olds = (before ++ [b]) ++ rest := by rw [split, append_assoc]; rfl
        simp only [ne_eq, own, not_false_eq_true, if_true, next]
        rw [← onward]
        apply ih sound resplit _ fuel'
        intro c member
        rcases List.mem_append.mp member with early | here
        · exact passed c early
        · rw [List.mem_singleton.mp here]
          exact own

theorem olds_length (sound : Sound db v) : v.olds.length < db.eofPtr := by
  apply sound.length_lt sound.kvno.nodup
  intro b inside
  simp [Parts.all, inside]

structure SameEntry (x x' : Block) : Prop where
  form : ∃ e, x'.body = .entry e
  flags : x'.flags = x.flags
  next : x'.next = x.next
  name : x'.asEntry.name = x.asEntry.name
  inst : x'.asEntry.instance_ = x.asEntry.instance_

theorem newKey (life : Nat) (key : EncryptionKey) (now : Date) (sound : Sound db v) {tentryaddr : Nat} (owner : tentryaddr ∈ v.owners) (tentry : Block) :
    ∃ db' tentry' olds free, KaDb.newKey life db tentryaddr tentry key now = some (db', tentry') ∧
      Sound db' { v with olds := olds, free := free } ∧ (∀ c ∈ v.live, db'.block c = db.block c) ∧
      Owned (some tentryaddr) db v.olds db' olds ∧ SameEntry tentry tentry' := by
  simp only [KaDb.newKey, bind_eq_bind]
  generalize (if tentry.asEntry.keyVersion + 1 < 1 ∨ tentry.asEntry.keyVersion + 1 ≥ maxKaKvno then 1
    else tentry.asEntry.keyVersion + 1) = ver
  rcases newKeyLoop life now ver key 0 0 sound (show v.olds = [] ++ v.olds from rfl) owner sound.olds_length with ⟨db₁, olds, free, added, total, walked, sound₁, same₁, owned₁⟩
  have head : v.olds.headD 0 = db.kvnoPtr := (Linked.headD sound.kvno).symm
  rw [head] at walked
  have start : slotAfter Slot.next .kvnoPtr [] = .kvnoPtr := rfl
  rw [start] at walked
  simp only [walked, bind_some]
  by_cases missing : added = 0
  · rcases sound₁.allocBlock with ⟨free', sound₂, fresh, nonzero⟩
    simp only [mem_append, not_or] at fresh
    simp only [missing, if_true]
    have good : IsOldKeys (v.live ++ v.loose)
        { flags := kafOldKeys, next := db₁.allocBlock.1.kvnoPtr, body := .oldKeys tentryaddr
            ((List.replicate nOldKeys ({} : OldKey)).set 0 { superseded := neverDate, version := ver, key := key }) } := by
      refine ⟨⟨_, _, rfl⟩, rfl, owner, ?_⟩
      refine ⟨{ superseded := neverDate, version := ver, key := key }, ?_, by simp [neverDate]⟩
      simp [Block.keys, nOldKeys, List.replicate]
    have unowned : ∀ c ∈ olds, (db₁.allocBlock.1.block c).entryOf ≠ db₁.allocBlock.2 := by
      intro c inside same
      rw [block_allocBlock] at same
      have owned := (sound₁.oldKeys c inside).owner
      rw [same, Parts.owners, mem_append] at owned
      exact owned.elim fresh.1.1 fresh.2
    have sound₃ := sound₂.pushOldKeys rfl good rfl unowned
    refine ⟨_, _, db₁.allocBlock.2 :: olds, free', rfl, sound₃, ?_, ?_, ⟨⟨_, rfl⟩, rfl, rfl, rfl, rfl⟩⟩
    · intro c live
      have other : c ≠ db₁.allocBlock.2 := by
        rintro rfl
        exact fresh.1.1 live
      rw [KaDb.block_put, if_neg other, KaDb.block_store _ (by simp), block_allocBlock, same₁ c live]
    apply owned₁.trans
    intro c member
    rcases List.mem_cons.mp member with here | member
    · left
      rw [KaDb.block_put, if_pos here]
      rfl
    right
    have other : c ≠ db₁.allocBlock.2 := by
      rintro rfl
      exact fresh.1.2 member
    rw [KaDb.block_put, if_neg other, KaDb.block_store _ (by simp), block_allocBlock]
    exact ⟨member, rfl⟩
  · simp only [missing, if_false]
    exact ⟨db₁, _, olds, free, rfl, sound₁, same₁, owned₁, ⟨⟨_, rfl⟩, rfl, rfl, rfl, rfl⟩⟩

theorem delKey (sound : Sound db v) (tentryaddr : Nat) :
    ∃ db' olds free, db.delKey tentryaddr = some db' ∧ Sound db' { v with olds := olds, free := free } ∧
      (∀ c ∈ olds, (db'.block c).entryOf ≠ tentryaddr) ∧ (∀ c ∈ v.live, db'.block c = db.block c) ∧
      Owned none db v.olds db' olds := by
  have walked := delKeyLoop tentryaddr sound (show v.olds = [] ++ v.olds from rfl) (fun c inside => absurd inside not_mem_nil)
    sound.olds_length
  have head : v.olds.headD 0 = db.kvnoPtr := (Linked.headD sound.kvno).symm
  rw [head] at walked
  exact walked

end Sound

end OpenAFS.Kauth
