import OpenAFS.Ptserver.Sound

namespace OpenAFS.Ptserver

open Lib List

theorem Roles.length_conts {db : PrDb} {role : Nat → Role} {conts : Nat → List Nat} {free : List Nat} {b : Nat}
    (roles : Roles db role conts free) (here : role b = .entry) : (conts b).length < db.fuel := by
  apply Nat.lt_succ_of_le
  apply length_le_of_nodup (roles.contLists b here).nodup
  intro c inside
  have known := (roles.onList b c here).mp inside
  exact roles.lt_eof (by simp [known])

theorem memberFrom_eq {db : PrDb} {aid : Id} (plain : aid ≠ badId ∧ aid ≠ 0) {fuel : Nat} {a : Slot} {cells : List Nat}
    (linked : Linked db.load Slot.next a cells) (enough : cells.length < fuel)
    (packed : Slots.Packed 0 (cells.map fun c => (db.cont c).entries)) :
    db.memberFrom aid fuel (db.load a) = .ok (decide (aid ∈ Slots.all badId 0 (cells.map fun c => (db.cont c).entries))) := by
  induction cells generalizing fuel a with
  | nil =>
    obtain ⟨fuel, rfl⟩ : ∃ m, fuel = m + 1 := ⟨fuel - 1, by omega⟩
    have stop : db.load a = 0 := linked
    rw [PrDb.memberFrom, if_pos stop]
    rfl
  | cons c cells ih =>
    rw [length_cons] at enough
    obtain ⟨fuel, rfl⟩ : ∃ m, fuel = m + 1 := ⟨fuel - 1, by omega⟩
    rw [PrDb.memberFrom, linked.1, if_neg linked.2.1, map_cons]
    have more : aid ∈ Slots.all badId 0 ((db.cont c).entries :: cells.map fun c => (db.cont c).entries) ↔
        aid ∈ listed (db.cont c).entries ∨ aid ∈ Slots.all badId 0 (cells.map fun c => (db.cont c).entries) := by
      unfold Slots.all listed
      rw [flatMap_cons, mem_append]
    rcases memberIn_cases plain (db.cont c).entries with ⟨found, here⟩ | ⟨found, out, last⟩ | ⟨found, out, -⟩
    · rw [found, decide_eq_true (more.mpr (.inl here))]
    · -- an end of the list is in the last block
      have none : cells.map (fun c => (db.cont c).entries) = [] := @Slots.Packed.last _ 0 [] _ _ packed last
      rw [found, decide_eq_false]
      rw [more, none]
      rintro (here | later)
      · exact out here
      · cases later
    · have later : Slots.Packed 0 (cells.map fun c => (db.cont c).entries) := @Slots.Packed.erase _ 0 [] _ _ packed
      rw [found]
      dsimp only
      rw [db.cont_next, ← db.load_next, ih linked.2.2 (by omega) later]
      congr 1
      rw [decide_eq_decide, more, or_iff_right out]

theorem getListFrom_eq {db : PrDb} {fuel : Nat} {a : Slot} {cells : List Nat}
    (linked : Linked db.load Slot.next a cells) (enough : cells.length < fuel) :
    db.getListFrom fuel (db.load a) = .ok (Slots.all badId 0 (cells.map fun c => (db.cont c).entries)) := by
  induction cells generalizing fuel a with
  | nil =>
    obtain ⟨fuel, rfl⟩ : ∃ m, fuel = m + 1 := ⟨fuel - 1, by omega⟩
    have stop : db.load a = 0 := linked
    rw [PrDb.getListFrom, if_pos stop]
    rfl
  | cons c cells ih =>
    rw [length_cons] at enough
    obtain ⟨fuel, rfl⟩ : ∃ m, fuel = m + 1 := ⟨fuel - 1, by omega⟩
    rw [PrDb.getListFrom, linked.1, if_neg linked.2.1, db.cont_next, ← db.load_next, ih linked.2.2 (by omega)]
    rfl

namespace Sound

variable {labels : Prop} {db : PrDb} {v : View}

theorem member_list (sound : Sound labels db v) {b : Nat} (here : v.role b = .entry) {aid : Id} (plain : aid ≠ badId ∧ aid ≠ 0) :
    (match memberIn aid (db.entry b).entries with
      | some answer => Except.ok answer
      | none => db.memberFrom aid db.fuel (db.entry b).next) = .ok (decide (aid ∈ db.ids v.conts b)) := by
  have packed := (sound.lists b here).packed
  have linked := sound.roles.contLists b here
  have enough := sound.roles.length_conts here
  have more : aid ∈ db.ids v.conts b ↔ aid ∈ listed (db.entry b).entries ∨
      aid ∈ Slots.all badId 0 ((v.conts b).map fun c => (db.cont c).entries) := by
    unfold PrDb.ids PrDb.slots Slots.all listed
    rw [flatMap_cons, mem_append]
  rcases memberIn_cases plain (db.entry b).entries with ⟨found, listed⟩ | ⟨found, out, last⟩ | ⟨found, out, -⟩
  · rw [found, decide_eq_true (more.mpr (.inl listed))]
  · have none : (v.conts b).map (fun c => (db.cont c).entries) = [] := @Slots.Packed.last _ 0 [] _ _ packed last
    rw [found, decide_eq_false]
    rw [more, none]
    rintro (here | later)
    · exact out here
    · cases later
  · have later : Slots.Packed 0 ((v.conts b).map fun c => (db.cont c).entries) := @Slots.Packed.erase _ 0 [] _ _ packed
    rw [found]
    dsimp only
    rw [← db.load_next, memberFrom_eq plain linked enough later]
    congr 1
    rw [decide_eq_decide, more, or_iff_right out]

theorem isAMemberOf (sound : Sound labels db v) (whole : v.dying = 0) {aid gid : Id} (plain : aid ≠ badId ∧ aid ≠ 0)
    (any : gid ≠ anyUserId) (auth : gid ≠ authUserId ∨ aid = anonymousId) (admin : gid ≠ sysAdminId ∨ aid ≠ sysAdminId) :
    ∃ answer, db.isAMemberOf aid gid = .ok answer ∧
      (answer = true ↔ ∃ c ∈ v.on .id, (db.entry c).id = gid ∧ (db.entry c).isGroup ∧ aid ∈ db.ids v.conts c) := by
  unfold PrDb.isAMemberOf
  rw [if_neg any, if_neg (by tauto), if_neg (by tauto)]
  split
  · rename_i special
    refine ⟨false, rfl, iff_of_false Bool.false_ne_true ?_⟩
    rintro ⟨c, inside, rfl, -⟩
    exact special.elim (sound.plain c inside).2 plain.2
  obtain ⟨b, found, meaning⟩ := sound.findByID gid
  rw [found]
  change ∃ answer, (if b = 0 ∨ ¬ (db.entry b).isGroup then _ else _) = _ ∧ _
  rcases meaning with ⟨none, out⟩ | ⟨inside, same⟩
  · rw [if_pos (.inl none)]
    refine ⟨false, rfl, iff_of_false Bool.false_ne_true ?_⟩
    rintro ⟨c, inside, same, -⟩
    exact out c inside same
  by_cases group : (db.entry b).isGroup
  · rw [if_neg (by simp [sound.ne_zero inside, group])]
    refine ⟨_, sound.member_list (sound.entry whole inside) plain, ?_⟩
    rw [decide_eq_true_eq]
    constructor
    · exact fun listed => ⟨b, inside, same, group, listed⟩
    · rintro ⟨c, inside', same', -, listed⟩
      rwa [sound.ids b inside c inside' (same.trans same'.symm)]
  · rw [if_pos (.inr group)]
    refine ⟨false, rfl, iff_of_false Bool.false_ne_true ?_⟩
    rintro ⟨c, inside', same', group', -⟩
    rw [sound.ids c inside' b inside (same'.trans same.symm)] at group'
    exact group group'

theorem getList (sound : Sound labels db v) {b : Nat} (here : v.role b = .entry) (add : Bool) :
    ∃ alist, db.getList (db.entry b) add = .ok alist ∧
      ∀ g, g ∈ alist ↔ g ∈ db.ids v.conts b ∨ add ∧ g ∈ addSpecial (db.entry b) := by
  unfold PrDb.getList
  rw [← db.load_next, getListFrom_eq (sound.roles.contLists b here) (sound.roles.length_conts here)]
  refine ⟨_, rfl, fun g => ?_⟩
  rw [mem_mergeSort, mem_append]
  apply or_congr
  · rfl
  · cases add <;> simp

end Sound

/-- What one entry lists, another entry of the other kind lists in turn. -/
def Symmetric (db : PrDb) (v : View) : Prop :=
  ∀ b ∈ v.on .id, ∀ x ∈ db.ids v.conts b, ∃ c ∈ v.on .id,
    (db.entry c).id = x ∧ ((db.entry c).isGroup ↔ ¬ (db.entry b).isGroup) ∧ (db.entry b).id ∈ db.ids v.conts c

theorem mem_addSpecial {e : PrEntry} {g : Id} (other : g ≠ e.id) : g ∈ addSpecial e ↔
      g = anyUserId ∨ g = authUserId ∧ e.id ≠ anonymousId ∧ e.id ≠ anyUserId ∧ ¬ e.isForeign := by
  unfold addSpecial addAuthGroup
  by_cases usual : e.id ≠ anonymousId ∧ e.id ≠ anyUserId
  · by_cases foreign : e.isForeign
    · simp [foreign, other]
    · simp [foreign, other, usual]
  · rw [if_neg usual]
    have never : ¬ (e.id ≠ anonymousId ∧ e.id ≠ anyUserId ∧ ¬ e.isForeign) := fun all => usual ⟨all.1, all.2.1⟩
    simp only [mem_cons, not_mem_nil, or_false, other, never, and_false]

theorem Symmetric.iff {db : PrDb} {v : View} (symmetric : Symmetric db v) (sound : Sound labels db v) {b : Nat}
    (here : b ∈ v.on .id) (user : ¬ (db.entry b).isGroup) {g : Id} :
    g ∈ db.ids v.conts b ↔ ∃ c ∈ v.on .id, (db.entry c).id = g ∧ (db.entry c).isGroup ∧ (db.entry b).id ∈ db.ids v.conts c := by
  constructor
  · intro listed
    obtain ⟨c, inside, same, kinds, back⟩ := symmetric b here g listed
    exact ⟨c, inside, same, kinds.mpr user, back⟩
  · rintro ⟨c, inside, rfl, -, listed⟩
    obtain ⟨d, inside', same, -, back⟩ := symmetric c inside _ listed
    rwa [sound.ids d inside' b here same] at back

end OpenAFS.Ptserver
