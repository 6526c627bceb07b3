import OpenAFS.Ptserver.Membership
import OpenAFS.Ptserver.OwnerSteps
import OpenAFS.Ptserver.Requests

namespace OpenAFS.Ptserver

open Lib

def Users (db : PrDb) (v : View) : Prop := ∀ b ∈ v.on .id, ¬ (db.entry b).isGroup → 58 ∉ (db.entry b).name

structure Coherent (labels : Prop) (db : PrDb) (v : View) (o : Chains) : Prop where
  sound : Sound labels db v
  intact : v.dying = 0
  symmetric : Symmetric db v
  owners : Owners db v o
  users : Users db v
  whole : o.broken = 0
  still : o.moving = 0

structure Consistent (labels : Prop) (db : PrDb) (v : View) (o : Chains) : Prop extends Coherent labels db v o where
  settled : Settled labels db v

theorem Coherent.entry {db : PrDb} {v : View} {o : Chains} (coherent : Coherent labels db v o) {k : Thread} {b : Nat}
    (inside : b ∈ v.on k) : v.role b = .entry := coherent.sound.entry coherent.intact inside

def Housed (db : PrDb) (v : View) (o : Chains) : Prop :=
  ∀ b ∈ v.on .id, (db.entry b).isGroup → b ∈ o.owned

variable {labels : Prop} {db db' : PrDb} {v v' : View} {o : Chains} {freed : List Nat}

namespace Settled

theorem findByID (settled : Settled labels db v) {aid : Id} {b : Nat} (found : db.findByID aid = .ok b) (some : b ≠ 0) :
    b ∈ v.on .id ∧ v.role b = .entry ∧ (db.entry b).id = aid := by
  rcases settled.of_findByID found with ⟨none, -⟩ | ⟨-, inside, id⟩
  · exact absurd none some
  · exact ⟨inside, settled.entry settled.whole inside, id⟩

theorem listsOnly (settled : Settled labels db v) (sound : Sound labels db' v') (only : ListsOnly db v freed db' v') :
    Settled labels db' v' := by
  refine ⟨sound, only.dying.trans settled.whole, fun b known => ?_, fun k b known => ?_⟩
  · exact settled.used b ((only.loose b).mp known).1
  · rw [only.on]
    exact settled.complete k b ((only.live b).mp known)

end Settled

theorem Symmetric.kept (symmetric : Symmetric db v) (sound : Sound labels db v) (whole : v.dying = 0)
    (kept : Kept db db') : Symmetric db' v := by
  have ids := (sound.kept kept).2
  have group (b : Nat) : (db'.entry b).isGroup ↔ (db.entry b).isGroup := (kept.entry b).isGroup
  intro b inside x listed
  rw [ids b (sound.entry whole inside)] at listed
  obtain ⟨c, inside', same, kind, back⟩ := symmetric b inside x listed
  refine ⟨c, inside', (kept.entry c).id.trans same, ?_, ?_⟩
  · rw [group, group]
    exact kind
  · rw [(kept.entry b).id, ids c (sound.entry whole inside')]
    exact back

theorem Users.kept (users : Users db v) (kept : Kept db db') : Users db' v := by
  intro b inside user
  rw [(kept.entry b).isGroup] at user
  rw [(kept.entry b).name]
  exact users b inside user

theorem Coherent.lists (coherent : Coherent labels db v o) (sound : Sound labels db' v')
    (only : ListsOnly db v freed db' v') (symmetric : Symmetric db' v') : Coherent labels db' v' o := by
  have old := coherent.sound
  refine ⟨sound, only.dying.trans coherent.intact, symmetric, ?_, ?_, coherent.whole, coherent.still⟩
  · apply coherent.owners.congr (SameOwners.listsOnly only old)
    · rw [only.on]
      exact fun _ => id
    · rw [only.on]
      exact fun b inside out => absurd inside out
    intro g member
    cases home : o.home g with
    | none => rfl
    | some b => exact only.id_of_mem old ((coherent.owners.groups g member).2.2 b home).1
  · intro b inside user
    rw [only.on] at inside
    rw [only.isGroup_of_mem old inside] at user
    rw [show (db'.entry b).name = (db.entry b).name from congrArg (fun d => d.name) (only.rest_of_mem old inside)]
    exact coherent.users b inside user

theorem Consistent.lists (consistent : Consistent labels db v o) (sound : Sound labels db' v')
    (only : ListsOnly db v freed db' v') (symmetric : Symmetric db' v') : Consistent labels db' v' o :=
  ⟨consistent.toCoherent.lists sound only symmetric, consistent.settled.listsOnly sound only⟩

theorem Housed.lists (housed : Housed db v o) (sound : Sound labels db v)
    (only : ListsOnly db v freed db' v') : Housed db' v' o := by
  intro b inside group
  rw [only.on] at inside
  exact housed b inside ((only.isGroup_of_mem sound inside).mp group)

theorem Symmetric.add (symmetric : Symmetric db v) (sound : Sound labels db v)
    (only : ListsOnly db v freed db' v') {u g : Nat} (inU : u ∈ v.on .id) (inG : g ∈ v.on .id)
    (user : ¬ (db.entry u).isGroup) (group : (db.entry g).isGroup)
    (listsU : ∀ x, x ∈ db'.ids v'.conts u ↔ x = (db.entry g).id ∨ x ∈ db.ids v.conts u)
    (listsG : ∀ x, x ∈ db'.ids v'.conts g ↔ x = (db.entry u).id ∨ x ∈ db.ids v.conts g)
    (others : ∀ b ∈ v.on .id, b ≠ u → b ≠ g → db'.ids v'.conts b = db.ids v.conts b) : Symmetric db' v' := by
  have grows (b : Nat) (inside : b ∈ v.on .id) (x : Id) (listed : x ∈ db.ids v.conts b) : x ∈ db'.ids v'.conts b := by
    by_cases isU : b = u
    · rw [isU, listsU]
      exact .inr (isU ▸ listed)
    by_cases isG : b = g
    · rw [isG, listsG]
      exact .inr (isG ▸ listed)
    · rwa [others b inside isU isG]
  have ids {b : Nat} (inside : b ∈ v.on .id) := only.id_of_mem sound inside
  have kinds {b : Nat} (inside : b ∈ v.on .id) := only.isGroup_of_mem sound inside
  have old (b : Nat) (inside : b ∈ v.on .id) (x : Id) (listed : x ∈ db.ids v.conts b) : ∃ c ∈ v.on .id,
      (db'.entry c).id = x ∧ ((db'.entry c).isGroup ↔ ¬ (db'.entry b).isGroup) ∧ (db'.entry b).id ∈ db'.ids v'.conts c := by
    obtain ⟨c, inside', same, kind, back⟩ := symmetric b inside x listed
    refine ⟨c, inside', (ids inside').trans same, ?_, ?_⟩
    · rw [kinds inside', kinds inside]
      exact kind
    · rw [ids inside]
      exact grows c inside' _ back
  intro b inside x listed
  rw [only.on] at inside ⊢
  by_cases isU : b = u
  · subst isU
    rcases (listsU x).mp listed with rfl | listed
    · refine ⟨g, inG, ids inG, ?_, ?_⟩
      · rw [kinds inG, kinds inU]
        exact iff_of_true group user
      · rw [ids inU, listsG]
        exact .inl rfl
    · exact old b inside x listed
  by_cases isG : b = g
  · subst isG
    rcases (listsG x).mp listed with rfl | listed
    · refine ⟨u, inU, ids inU, ?_, ?_⟩
      · rw [kinds inG, kinds inU]
        exact iff_of_false user (not_not_intro group)
      · rw [ids inG, listsU]
        exact .inl rfl
    · exact old b inside x listed
  · rw [others b inside isU isG] at listed
    exact old b inside x listed

theorem Symmetric.remove (symmetric : Symmetric db v) (sound : Sound labels db v)
    (only : ListsOnly db v freed db' v') {u g : Nat} (inU : u ∈ v.on .id) (inG : g ∈ v.on .id)
    (user : ¬ (db.entry u).isGroup) (group : (db.entry g).isGroup)
    (listsU : ∀ x, x ∈ db'.ids v'.conts u ↔ x ≠ (db.entry g).id ∧ x ∈ db.ids v.conts u)
    (listsG : ∀ x, x ∈ db'.ids v'.conts g ↔ x ≠ (db.entry u).id ∧ x ∈ db.ids v.conts g)
    (others : ∀ b ∈ v.on .id, b ≠ u → b ≠ g → db'.ids v'.conts b = db.ids v.conts b) : Symmetric db' v' := by
  have ids {b : Nat} (inside : b ∈ v.on .id) := only.id_of_mem sound inside
  have kinds {b : Nat} (inside : b ∈ v.on .id) := only.isGroup_of_mem sound inside
  -- who is listed in an entry in the end was listed before, and the pair is not listed
  have now (b : Nat) (inside : b ∈ v.on .id) (x : Id) : x ∈ db'.ids v'.conts b ↔
      (b = u → x ≠ (db.entry g).id) ∧ (b = g → x ≠ (db.entry u).id) ∧ x ∈ db.ids v.conts b := by
    by_cases isU : b = u
    · subst isU
      have apart : b ≠ g := by
        rintro rfl
        exact user group
      rw [listsU]
      simp [apart]
    by_cases isG : b = g
    · subst isG
      rw [listsG]
      simp [isU]
    · rw [others b inside isU isG]
      simp [isU, isG]
  intro b inside x listed
  rw [only.on] at inside ⊢
  obtain ⟨notG, notU, listed⟩ := (now b inside x).mp listed
  obtain ⟨c, inside', same, kind, back⟩ := symmetric b inside x listed
  refine ⟨c, inside', (ids inside').trans same, ?_, ?_⟩
  · rw [kinds inside', kinds inside]
    exact kind
  rw [ids inside, now c inside']
  refine ⟨?_, ?_, back⟩
  · rintro rfl equal
    exact notU (sound.ids b inside g inG equal) same.symm
  · rintro rfl equal
    exact notG (sound.ids b inside u inU equal) same.symm

theorem addToGroup_consistent {cfg : Config} {cid aid gid : Id} (consistent : Consistent labels db v o)
    (done : db.addToGroup cfg cid aid gid = .ok db') :
    ∃ v', Consistent labels db' v' o ∧ (Housed db v o → Housed db' v' o) := by
  obtain ⟨-, done⟩ := ensure_then.mp done
  obtain ⟨u, foundU, done⟩ := except_bind_eq_ok.mp done
  obtain ⟨someU, done⟩ := ensure_then.mp done
  obtain ⟨user, done⟩ := ensure_then.mp done
  obtain ⟨g, foundG, done⟩ := except_bind_eq_ok.mp done
  obtain ⟨someG, done⟩ := ensure_then.mp done
  obtain ⟨group, done⟩ := ensure_then.mp done
  obtain ⟨access, -, done⟩ := except_bind_eq_ok.mp done
  obtain ⟨-, done⟩ := ensure_then.mp done
  obtain ⟨db₁, first, second⟩ := except_bind_eq_ok.mp done
  have sound := consistent.settled.toSound
  obtain ⟨inU, hereU, rfl⟩ := consistent.settled.findByID foundU someU
  obtain ⟨inG, hereG, rfl⟩ := consistent.settled.findByID foundG someG
  have apart : u ≠ g := by
    rintro rfl
    exact user group
  obtain ⟨-, -, v₁, sound₁, only₁, untouched₁, lists₁⟩ := sound.addToEntry hereG (sound.plain u inU) first
  have sameU := untouched₁ u apart hereU
  rw [← sameU.2.1] at second
  obtain ⟨-, -, v₂, sound₂, only₂, untouched₂, lists₂⟩ :=
    sound₁.addToEntry ((only₁.live u).mpr hereU) (sound.plain g inG) second
  have only : ListsOnly db v [] db' v₂ := only₁.trans only₂
  refine ⟨v₂, consistent.lists sound₂ only ?_, fun housed => housed.lists sound only⟩
  apply consistent.symmetric.add sound only inU inG user group
  · intro x
    rw [lists₂, sameU.ids]
  · intro x
    rw [(untouched₂ g (Ne.symm apart) ((only₁.live g).mpr hereG)).ids, lists₁]
  · intro b inside notU notG
    have here := sound.entry consistent.settled.whole inside
    rw [(untouched₂ b notU ((only₁.live b).mpr here)).ids, (untouched₁ b notG here).ids]

theorem removeFromGroup_consistent {cfg : Config} {cid aid gid : Id} (consistent : Consistent labels db v o)
    (done : db.removeFromGroup cfg cid aid gid = .ok db') :
    ∃ v', Consistent labels db' v' o ∧ (Housed db v o → Housed db' v' o) := by
  obtain ⟨u, foundU, done⟩ := except_bind_eq_ok.mp done
  obtain ⟨someU, done⟩ := ensure_then.mp done
  obtain ⟨g, foundG, done⟩ := except_bind_eq_ok.mp done
  obtain ⟨someG, done⟩ := ensure_then.mp done
  obtain ⟨group, done⟩ := ensure_then.mp done
  obtain ⟨user, done⟩ := ensure_then.mp done
  obtain ⟨access, -, done⟩ := except_bind_eq_ok.mp done
  obtain ⟨-, done⟩ := ensure_then.mp done
  obtain ⟨db₁, first, second⟩ := except_bind_eq_ok.mp done
  have sound := consistent.settled.toSound
  have none {w : View} (whole : w.dying = 0) {d : PrDb} (sound : Sound labels d w) {x : Id} :
      w.dying ∈ w.on .id → (d.entry w.dying).id = x := fun inside => absurd whole (sound.ne_zero inside)
  obtain ⟨inU, hereU, rfl⟩ := consistent.settled.findByID foundU someU
  obtain ⟨inG, hereG, rfl⟩ := consistent.settled.findByID foundG someG
  have apart : u ≠ g := by
    rintro rfl
    exact user group
  obtain ⟨-, a, inA, -, idA, -, v₁, sound₁, only₁, untouched₁, lists₁⟩ :=
    sound.removeFromEntry (sound.plain u inU) (none consistent.settled.whole sound) first
  obtain rfl := sound.ids a inA g inG idA
  obtain ⟨-, c, inC, -, idC, -, v₂, sound₂, only₂, untouched₂, lists₂⟩ :=
    sound₁.removeFromEntry (sound.plain a inG) (none (only₁.dying.trans consistent.settled.whole) sound₁) second
  rw [only₁.on] at inC
  rw [only₁.id_of_mem sound inC] at idC
  obtain rfl := sound.ids c inC u inU idC
  have only : ListsOnly db v [] db' v₂ := only₁.trans only₂
  refine ⟨v₂, consistent.lists sound₂ only ?_, fun housed => housed.lists sound only⟩
  apply consistent.symmetric.remove sound only inU inG user group
  · intro x
    rw [lists₂, (untouched₁ c apart hereU).ids]
  · intro x
    rw [(untouched₂ a (Ne.symm apart) ((only₁.live a).mpr hereG)).ids, lists₁]
  · intro b inside notU notG
    have here := sound.entry consistent.settled.whole inside
    rw [(untouched₂ b notU ((only₁.live b).mpr here)).ids, (untouched₁ b notG here).ids]

end OpenAFS.Ptserver
