import OpenAFS.Ptserver.Steps

namespace OpenAFS.Ptserver

open Lib List

def View.drop (v : View) (loc : Nat) : View :=
  { v with role := fun c => if c = loc ∨ v.role c = .cont loc then .loose else v.role c, dying := loc }

theorem View.role_drop {v : View} {loc c : Nat} {r : Role} (other : r ≠ .loose) :
    (v.drop loc).role c = r ↔ (c ≠ loc ∧ v.role c ≠ .cont loc) ∧ v.role c = r := by
  unfold View.drop
  dsimp only
  by_cases gone : c = loc ∨ v.role c = .cont loc
  · rw [if_pos gone]
    refine iff_of_false (Ne.symm other) ?_
    rw [← not_or]
    exact fun all => all.1 gone
  · rw [if_neg gone]
    rw [not_or] at gone
    exact (and_iff_right gone).symm

namespace Sound

variable {labels : Prop} {db db' : PrDb} {v : View}

theorem drop (sound : Sound labels db v) (whole : v.dying = 0) {loc : Nat} (here : v.role loc = .entry) :
    Sound labels db (v.drop loc) := by
  refine ⟨sound.roles.drop here, sound.threaded, ?_, ?_, sound.ids, sound.names, sound.plain, sound.short, ?_⟩
  · intro k b inside other
    have known := sound.entry whole inside
    exact (View.role_drop (by simp)).mpr ⟨⟨other, by simp [known]⟩, known⟩
  · right
    exact if_pos (.inl rfl)
  · intro b known
    exact sound.lists b ((View.role_drop (by simp)).mp known).2

theorem freeBlock (sound : Sound labels db v) {b : Nat} (loose : v.role b = .loose) (other : b ≠ v.dying) :
    Sound labels (db.freeBlock b) { v with role := Function.update v.role b .free, free := b :: v.free } ∧
      ListsOnly db v [b] (db.freeBlock b) { v with role := Function.update v.role b .free, free := b :: v.free } ∧
      ∀ c, v.role c = .entry → Untouched db v (db.freeBlock b)
        { v with role := Function.update v.role b .free, free := b :: v.free } c := by
  have block (c : Nat) (apart : c ≠ b) : (db.freeBlock b).block c = db.block c := Function.update_of_ne apart ..
  have entry (c : Nat) (apart : c ≠ b) : (db.freeBlock b).entry c = db.entry c := by
    unfold PrDb.entry
    rw [block c apart]
  have cont (c : Nat) (apart : c ≠ b) : (db.freeBlock b).cont c = db.cont c := by
    unfold PrDb.cont
    rw [block c apart]
  have apart {c : Nat} {r : Role} (known : v.role c = r) (used : r ≠ .loose) : c ≠ b := by
    rintro rfl
    exact used (known.symm.trans loose)
  have off {k : Thread} {c : Nat} (inside : c ∈ v.on k) : c ≠ b := by
    rintro rfl
    exact other (sound.loose inside (by simp [loose])).1
  have untouched (c : Nat) (known : v.role c = .entry) : Untouched db v (db.freeBlock b)
      { v with role := Function.update v.role b .free, free := b :: v.free } c := by
    refine ⟨rfl, entry c (apart known (by simp)), fun d inside => ?_⟩
    exact cont d (apart ((sound.roles.onList c d known).mp inside) (by simp))
  refine ⟨⟨sound.roles.freeBlock loose, ?_, ?_, ?_, ?_, ?_, ?_, ?_, ?_⟩, ?_, untouched⟩
  · refine sound.threaded.congr (Nat.le_refl db.header.eofPtr) (fun k n => by cases k <;> rfl) ?_
    intro k c inside
    have form := (sound.threaded.entries k c inside).1
    refine ⟨by rw [entry c (off inside)], by rw [entry c (off inside)], ?_⟩
    unfold PrDb.IsEntry at *
    rwa [block c (off inside)]
  · intro k c inside different
    exact (update_role (by simp)).mpr ⟨off inside, sound.live k c inside different⟩
  · refine sound.dying.imp_right fun gone => ?_
    exact (update_role (by simp)).mpr ⟨Ne.symm other, gone⟩
  · intro c inside d inside'
    rw [entry c (off inside), entry d (off inside')]
    exact sound.ids c inside d inside'
  · intro c inside d inside'
    rw [entry c (off inside), entry d (off inside')]
    exact sound.names c inside d inside'
  · intro c inside
    rw [entry c (off inside)]
    exact sound.plain c inside
  · intro c inside
    rw [entry c (off inside)]
    exact sound.short c inside
  · intro c known
    have used := ((update_role (by simp)).mp known).2
    have same := untouched c used
    exact ((sound.lists c used).congr (by rw [same.2.1]) (by rw [same.2.1]) (by rw [same.2.1]) same.1
      fun d inside => by rw [same.2.2 d inside]; exact ⟨rfl, rfl⟩).1
  · refine ⟨rfl, rfl, by simpa using Ne.symm other, ?_, ?_, ?_, ?_, rfl⟩
    · intro c
      rw [update_role (by simp), and_iff_right_of_imp]
      exact fun known => apart known (by simp)
    · intro c
      rw [update_role (by simp), mem_singleton, and_comm]
    · intro c _ out
      exact block c (by simpa using out)
    · intro c known
      rw [entry c (apart known (by simp))]

theorem deleteFrom (sound : Sound labels db v) {aid : Id} (plain : aid ≠ badId ∧ aid ≠ 0)
    (other : v.dying ∈ v.on .id → (db.entry v.dying).id = aid) {nptr : Nat} {cells : List Nat} {fuel : Nat}
    (linked : Linked id (fun b => (db.entry b).next) nptr cells) (loose : ∀ c ∈ cells, v.role c = .loose ∧ c ≠ v.dying)
    (done : PrDb.deleteFrom aid fuel nptr db = .ok db') :
    ∃ v', Sound labels db' v' ∧ ListsOnly db v cells db' v' ∧ (∀ b, v.role b = .entry → b ∉ v.on .id → Untouched db v db' v' b) ∧
      ∀ b ∈ v.on .id, v.role b = .entry → ∀ x, x ∈ db'.ids v'.conts b ↔
        ((∃ c ∈ cells, (db.entry b).id ∈ listed (db.cont c).entries) → x ≠ aid) ∧ x ∈ db.ids v.conts b := by
  induction cells generalizing db v fuel nptr with
  | nil =>
    cases fuel with
    | zero => cases done
    | succ fuel =>
      have stop : nptr = 0 := linked
      rw [PrDb.deleteFrom, if_pos stop] at done
      cases done
      exact ⟨v, sound, .refl _ v, fun _ _ _ => ⟨rfl, rfl, fun _ _ => rfl⟩, by simp⟩
  | cons c cells ih =>
    cases fuel with
    | zero => cases done
    | succ fuel =>
      have once := List.nodup_cons.mp linked.nodup
      obtain rfl : nptr = c := linked.1
      rw [PrDb.deleteFrom, if_neg linked.2.1] at done
      obtain ⟨db₁, first, done⟩ := except_bind_eq_ok.mp done
      obtain ⟨-, v₁, sound₁, only₁, untouched₁, touched₁⟩ := sound.removeFromAll plain other first
      obtain ⟨looseC, notDying⟩ := loose nptr mem_cons_self
      obtain ⟨sound₂, only₂, untouched₂⟩ :=
        sound₁.freeBlock ((only₁.loose nptr).mpr ⟨looseC, not_mem_nil⟩) (only₁.dying ▸ notDying)
      have only : ListsOnly db v [nptr] _ _ := only₁.trans only₂
      -- the rest of the list is where it was
      have rest (d : Nat) (inside : d ∈ cells) : (db₁.freeBlock nptr).block d = db.block d := by
        apply only.kept d (loose d (mem_cons_of_mem _ inside)).1
        rw [mem_singleton]
        rintro rfl
        exact once.1 inside
      have cont (d : Nat) (inside : d ∈ cells) : (db₁.freeBlock nptr).cont d = db.cont d := by
        unfold PrDb.cont
        rw [rest d inside]
      have linked₂ : Linked id (fun b => ((db₁.freeBlock nptr).entry b).next) (db.cont nptr).next cells := by
        rw [db.cont_next]
        apply linked.2.2.congr_values
        intro d inside
        unfold PrDb.entry
        rw [rest d inside]
      have ids {b : Nat} (inside : b ∈ v.on .id) : ((db₁.freeBlock nptr).entry b).id = (db.entry b).id :=
        only.id_of_mem sound inside
      obtain ⟨v', sound', only', untouched', touched'⟩ := ih sound₂
        (by rw [only.on, only.dying]; exact fun inside => (ids inside).trans (other inside)) linked₂
        (fun d inside => by
          obtain ⟨known, apart⟩ := loose d (mem_cons_of_mem _ inside)
          rw [only.loose, only.dying, mem_singleton]
          refine ⟨⟨known, ?_⟩, apart⟩
          rintro rfl
          exact once.1 inside) done
      refine ⟨v', sound', only.trans only', ?_, ?_⟩
      · intro b known off
        have known₁ := (only₁.live b).mpr known
        have early := (untouched₁ b known (.inl off)).trans (untouched₂ b known₁)
        exact early.trans (untouched' b ((only.live b).mpr known) (by rwa [only.on]))
      intro b inside known x
      have known₁ := (only₁.live b).mpr known
      rw [touched' b (by rwa [only.on]) ((only.live b).mpr known), ids inside, (untouched₂ b known₁).ids]
      have later : (∃ d ∈ cells, (db.entry b).id ∈ listed ((db₁.freeBlock nptr).cont d).entries) ↔
          ∃ d ∈ cells, (db.entry b).id ∈ listed (db.cont d).entries := by
        refine exists_congr fun d => and_congr_right fun inside => ?_
        rw [cont d inside]
      rw [later, exists_mem_cons_iff, or_imp, and_assoc, and_left_comm]
      by_cases here : (db.entry b).id ∈ listed (db.cont nptr).entries
      · rw [touched₁ b inside known here, imp_iff_right here, and_left_comm]
      · rw [(untouched₁ b known (.inr here)).ids, and_iff_right (fun listed => absurd listed here)]

end Sound

end OpenAFS.Ptserver
