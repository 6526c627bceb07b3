import OpenAFS.Ptserver.Removal
import OpenAFS.Ptserver.Sound

namespace OpenAFS.Ptserver

open Lib List

structure ListsOnly (db : PrDb) (v : View) (freed : List Nat) (db' : PrDb) (v' : View) : Prop where
  on : v'.on = v.on
  dying : v'.dying = v.dying
  spared : v.dying ∉ freed
  live : ∀ b, v'.role b = .entry ↔ v.role b = .entry
  loose : ∀ b, v'.role b = .loose ↔ v.role b = .loose ∧ b ∉ freed
  kept : ∀ b, v.role b = .loose → b ∉ freed → db'.block b = db.block b
  rest : ∀ b, v.role b = .entry → (db'.entry b).rest = (db.entry b).rest
  orphan : db'.header.orphan = db.header.orphan

variable {b : Nat}

namespace ListsOnly

theorem refl (db : PrDb) (v : View) : ListsOnly db v [] db v := by
  refine ⟨rfl, rfl, not_mem_nil, fun _ => Iff.rfl, fun _ => ?_, fun _ _ _ => rfl, fun _ _ => rfl, rfl⟩
  simp

variable {labels : Prop} {db db' db'' : PrDb} {v v' v'' : View} {freed freed' : List Nat}

theorem trans (first : ListsOnly db v freed db' v') (second : ListsOnly db' v' freed' db'' v'') :
    ListsOnly db v (freed ++ freed') db'' v'' := by
  refine ⟨second.on.trans first.on, second.dying.trans first.dying, ?_, fun b => (second.live b).trans (first.live b),
    ?_, ?_, ?_, second.orphan.trans first.orphan⟩
  · rw [mem_append, not_or]
    exact ⟨first.spared, first.dying ▸ second.spared⟩
  · intro b
    rw [second.loose, first.loose, mem_append, not_or, and_assoc]
  · intro b known out
    rw [mem_append, not_or] at out
    exact (second.kept b ((first.loose b).mpr ⟨known, out.1⟩) out.2).trans (first.kept b known out.1)
  · exact fun b known => (second.rest b ((first.live b).mpr known)).trans (first.rest b known)

theorem of_step {loc : Nat} {role' : Nat → Role} {conts' : Nat → List Nat} {free' : List Nat}
    (step : ListStep db v.role v.conts loc db' role' conts' free') :
    ListsOnly db v [] db' { v with role := role', conts := conts', free := free' } := by
  refine ⟨rfl, rfl, not_mem_nil, step.live, ?_, ?_, ?_, step.orphan⟩
  · intro b
    rw [and_iff_left not_mem_nil]
    exact ⟨step.used b, fun known => (step.loose b known).1⟩
  · exact fun b known _ => (step.loose b known).2
  intro b known
  by_cases same : b = loc
  · rw [same]
    exact step.rest
  · rw [step.entry b same known]

theorem rest_of_mem (only : ListsOnly db v freed db' v') (sound : Sound labels db v) {k : Thread}
    (inside : b ∈ v.on k) : (db'.entry b).rest = (db.entry b).rest := by
  by_cases alive : v.role b = .entry
  · exact only.rest b alive
  · obtain ⟨same, loose⟩ := sound.loose inside alive
    unfold PrDb.entry
    rw [only.kept b loose (same ▸ only.spared)]

theorem id_of_mem (only : ListsOnly db v freed db' v') (sound : Sound labels db v) {k : Thread}
    (inside : b ∈ v.on k) : (db'.entry b).id = (db.entry b).id := congrArg (fun e => e.id) (only.rest_of_mem sound inside)

theorem isGroup_of_mem (only : ListsOnly db v freed db' v') (sound : Sound labels db v) {k : Thread}
    (inside : b ∈ v.on k) : (db'.entry b).isGroup ↔ (db.entry b).isGroup := by
  unfold PrEntry.isGroup
  rw [show (db'.entry b).flags = (db.entry b).flags from congrArg (fun e => e.flags) (only.rest_of_mem sound inside)]

end ListsOnly

def Untouched (db : PrDb) (v : View) (db' : PrDb) (v' : View) (b : Nat) : Prop :=
  v'.conts b = v.conts b ∧ db'.entry b = db.entry b ∧ ∀ c ∈ v.conts b, db'.cont c = db.cont c

theorem Untouched.ids {db db' : PrDb} {v v' : View} (same : Untouched db v db' v' b) :
    db'.ids v'.conts b = db.ids v.conts b := by
  unfold PrDb.ids
  rw [slots_congr (congrArg (fun e => e.entries) same.2.1) same.1 fun c inside => by rw [same.2.2 c inside]]

theorem Untouched.trans {db db' db'' : PrDb} {v v' v'' : View} (first : Untouched db v db' v' b)
    (second : Untouched db' v' db'' v'' b) : Untouched db v db'' v'' b := by
  refine ⟨second.1.trans first.1, second.2.1.trans first.2.1, fun c inside => ?_⟩
  rw [second.2.2 c (first.1 ▸ inside), first.2.2 c inside]

namespace Sound

variable {labels : Prop} {db db' : PrDb} {v : View}

theorem untouched (sound : Sound labels db v) {loc : Nat} {role' : Nat → Role} {conts' : Nat → List Nat} {free' : List Nat}
    (step : ListStep db v.role v.conts loc db' role' conts' free') (other : b ≠ loc)
    (known : v.role b = .entry) : Untouched db v db' { v with role := role', conts := conts', free := free' } b := by
  refine ⟨step.lists b other known, step.entry b other known, fun c inside => ?_⟩
  exact step.cont b other c ((sound.roles.onList b c known).mp inside)

theorem addToEntry (sound : Sound labels db v) {loc : Nat} (here : v.role loc = .entry) {aid : Id}
    (plain : aid ≠ badId ∧ aid ≠ 0) (done : db.addToEntry (db.entry loc) loc aid = .ok db') :
    (db.entry loc).id ≠ aid ∧ aid ∉ db.ids v.conts loc ∧ ∃ v', Sound labels db' v' ∧ ListsOnly db v [] db' v' ∧
      (∀ b ≠ loc, v.role b = .entry → Untouched db v db' v' b) ∧
      ∀ x, x ∈ db'.ids v'.conts loc ↔ x = aid ∨ x ∈ db.ids v.conts loc := by
  obtain ⟨different, role', conts', free', step, extends_⟩ := addToEntry_step sound.roles here done
  obtain ⟨fresh, ok, perm⟩ := extends_ (sound.lists loc here) plain.1 plain.2
  refine ⟨different, fresh, _, (sound.listStep step ok).1, .of_step step, ?_, ?_⟩
  · exact fun b other known => sound.untouched step other known
  · intro x
    rw [perm.mem_iff, mem_cons]

theorem removeFromEntry (sound : Sound labels db v) {aid bid : Id} (plain : aid ≠ badId ∧ aid ≠ 0)
    (other : v.dying ∈ v.on .id → (db.entry v.dying).id = aid) (done : db.removeFromEntry aid bid = .ok db') :
    aid ≠ bid ∧ ∃ loc, loc ∈ v.on .id ∧ v.role loc = .entry ∧ (db.entry loc).id = bid ∧ aid ∈ db.ids v.conts loc ∧
      ∃ v', Sound labels db' v' ∧ ListsOnly db v [] db' v' ∧ (∀ b ≠ loc, v.role b = .entry → Untouched db v db' v' b) ∧
      ∀ x, x ∈ db'.ids v'.conts loc ↔ x ≠ aid ∧ x ∈ db.ids v.conts loc := by
  obtain ⟨loc, found, ⟨rfl, -⟩ | ⟨inside, id⟩⟩ := sound.findByID bid
  · -- the entry is looked up
    obtain ⟨-, done⟩ := ensure_then.mp done
    obtain ⟨temp, found', done⟩ := except_bind_eq_ok.mp done
    cases found.symm.trans found'
    exact absurd rfl (ensure_then.mp done).1
  have different : aid ≠ bid := by
    exact (ensure_then.mp done).1
  have here : v.role loc = .entry := by
    by_contra gone
    obtain ⟨rfl, -⟩ := sound.loose inside gone
    exact different ((other inside).symm.trans id)
  obtain ⟨-, role', conts', free', step, shrinks⟩ := removeFromEntry_step sound.roles here found done
  obtain ⟨ok, perm⟩ := shrinks (sound.lists loc here) plain.1 plain.2
  have once := perm.nodup_iff.mp (sound.lists loc here).once
  refine ⟨different, loc, inside, here, id, perm.mem_iff.mpr mem_cons_self, _, (sound.listStep step ok).1,
    .of_step step, ?_, ?_⟩
  · exact fun b other known => sound.untouched step other known
  intro x
  rw [perm.mem_iff, mem_cons]
  constructor
  · intro member
    refine ⟨?_, .inr member⟩
    rintro rfl
    exact (List.nodup_cons.mp once).1 member
  · exact fun known => known.2.resolve_left known.1

theorem removeFromAll (sound : Sound labels db v) {aid : Id} (plain : aid ≠ badId ∧ aid ≠ 0)
    (other : v.dying ∈ v.on .id → (db.entry v.dying).id = aid) {l : List Id} (done : PrDb.removeFromAll aid l db = .ok db') :
    aid ∉ l ∧ ∃ v', Sound labels db' v' ∧ ListsOnly db v [] db' v' ∧
      (∀ b, v.role b = .entry → b ∉ v.on .id ∨ (db.entry b).id ∉ l → Untouched db v db' v' b) ∧
      ∀ b ∈ v.on .id, v.role b = .entry → (db.entry b).id ∈ l → ∀ x, x ∈ db'.ids v'.conts b ↔ x ≠ aid ∧ x ∈ db.ids v.conts b := by
  induction l generalizing db v with
  | nil =>
    cases done
    exact ⟨not_mem_nil, v, sound, .refl _ v, fun _ _ _ => ⟨rfl, rfl, fun _ _ => rfl⟩, by simp⟩
  | cons bid rest ih =>
    obtain ⟨db₁, first, done⟩ := except_bind_eq_ok.mp done
    obtain ⟨different, loc, inside, here, id, -, v₁, sound₁, only, others, this⟩ :=
      sound.removeFromEntry plain other first
    have ids {b : Nat} (inside : b ∈ v.on .id) := only.id_of_mem sound inside
    have other₁ : v₁.dying ∈ v₁.on .id → (db₁.entry v₁.dying).id = aid := by
      rw [only.on, only.dying]
      exact fun inside => (ids inside).trans (other inside)
    obtain ⟨absent, v', sound', only', untouched, touched⟩ := ih sound₁ other₁ done
    refine ⟨by simp [different, absent], v', sound', only.trans only', ?_, ?_⟩
    · intro b known out
      have apart : b ≠ loc := by
        rintro rfl
        rcases out with off | missing
        · exact off inside
        · exact missing (by simp [id])
      have early := others b apart known
      refine early.trans (untouched b ((only.live b).mpr known) ?_)
      rw [only.on]
      refine out.imp_right fun missing later => missing ?_
      rw [early.2.1] at later
      exact mem_cons_of_mem _ later
    intro b member known listed x
    have member₁ : b ∈ v₁.on .id := by rwa [only.on]
    have known₁ := (only.live b).mpr known
    have first : x ∈ db₁.ids v₁.conts b ↔ (b = loc → x ≠ aid) ∧ x ∈ db.ids v.conts b := by
      by_cases same : b = loc
      · rw [same, this]
        simp
      · rw [(others b same known).ids]
        simp [same]
    by_cases again : (db₁.entry b).id ∈ rest
    · rw [touched b member₁ known₁ again, first]
      constructor
      · exact fun all => ⟨all.1, all.2.2⟩
      · exact fun all => ⟨all.1, fun _ => all.1, all.2⟩
    rw [(untouched b known₁ (.inr again)).ids, first]
    have same : b = loc := by
      rw [ids member] at again
      exact sound.ids b member loc inside (((List.mem_cons.mp listed).resolve_right again).trans id.symm)
    simp [same]

end Sound

end OpenAFS.Ptserver
