import OpenAFS.Ptserver.Deletion

namespace OpenAFS.Ptserver

open Lib List

variable {labels : Prop} {db db' : PrDb} {v v' : View} {o : Chains}

theorem or_and_again {p q r : Prop} : p ∨ q ∧ (p ∨ q ∧ r) ↔ p ∨ q ∧ r := by
  tauto

variable {aid newid oid cid : Id} {loc : Nat} {db₁ : PrDb} {name : Name} {cfg : Config}

theorem Sound.renumberIn (sound : Sound labels db v) (whole : v.dying = 0)
    (plain : aid ≠ badId ∧ aid ≠ 0) (plain' : newid ≠ badId ∧ newid ≠ 0) {l : List Id}
    (done : PrDb.renumberIn aid newid l db = .ok db') :
    ∃ v', Sound labels db' v' ∧ ListsOnly db v [] db' v' ∧ (∀ b ∈ v.on .id, (db.entry b).id ∉ l → Untouched db v db' v' b) ∧
      ∀ b ∈ v.on .id, (db.entry b).id ∈ l → ∀ x, x ∈ db'.ids v'.conts b ↔ x = newid ∨ x ≠ aid ∧ x ∈ db.ids v.conts b := by
  induction l generalizing db v with
  | nil =>
    cases done
    exact ⟨v, sound, .refl _ v, fun _ _ _ => ⟨rfl, rfl, fun _ _ => rfl⟩, by simp⟩
  | cons y rest ih =>
    obtain ⟨pos, found, done⟩ := except_bind_eq_ok.mp done
    obtain ⟨some, done⟩ := ensure_then.mp done
    obtain ⟨db₁, removed, done⟩ := except_bind_eq_ok.mp done
    obtain ⟨db₂, added, done⟩ := except_bind_eq_ok.mp done
    have none {w : View} (whole : w.dying = 0) {d : PrDb} (sound : Sound labels d w) {x : Id} :
        w.dying ∈ w.on .id → (d.entry w.dying).id = x := fun inside => absurd whole (sound.ne_zero inside)
    obtain ⟨-, loc, inLoc, here, idLoc, -, v₁, sound₁, only₁, untouched₁, lists₁⟩ :=
      sound.removeFromEntry plain (none whole sound) removed
    have isLoc : pos = loc := by
      rcases sound.of_findByID found with ⟨absent, -⟩ | ⟨-, inPos, idPos⟩
      · exact absurd absent some
      · exact sound.ids pos inPos loc inLoc (idPos.trans idLoc.symm)
    subst isLoc
    obtain ⟨-, -, v₂, sound₂, only₂, untouched₂, lists₂⟩ := sound₁.addToEntry ((only₁.live pos).mpr here) plain' added
    have only : ListsOnly db v [] db₂ v₂ := only₁.trans only₂
    have whole₂ : v₂.dying = 0 := only.dying.trans whole
    have ids {b : Nat} (member : b ∈ v.on .id) : (db₂.entry b).id = (db.entry b).id := only.id_of_mem sound member
    obtain ⟨v', sound', only', untouched', touched'⟩ := ih sound₂ whole₂ done
    have step {b : Nat} (member : b ∈ v.on .id) (apart : b ≠ pos) : Untouched db v db₂ v₂ b := by
      have known := sound.entry whole member
      exact (untouched₁ b apart known).trans (untouched₂ b apart ((only₁.live b).mpr known))
    refine ⟨v', sound', only.trans only', ?_, ?_⟩
    · intro b member out
      rw [mem_cons, not_or] at out
      refine (step member ?_).trans (untouched' b (by rwa [only.on]) (by rw [ids member]; exact out.2))
      rintro rfl
      exact out.1 idLoc
    intro b member listed x
    have first : x ∈ db₂.ids v₂.conts b ↔
        if b = pos then x = newid ∨ x ≠ aid ∧ x ∈ db.ids v.conts b else x ∈ db.ids v.conts b := by
      split
      · rename_i same
        rw [same, lists₂, lists₁]
      · rename_i apart
        rw [(step member apart).ids]
    by_cases again : (db.entry b).id ∈ rest
    · rw [touched' b (by rwa [only.on]) (by rwa [ids member]), first]
      split
      · exact or_and_again
      · rfl
    · have same : b = pos := sound.ids b member pos inLoc (((List.mem_cons.mp listed).resolve_right again).trans idLoc.symm)
      rw [(untouched' b (by rwa [only.on]) (by rwa [ids member])).ids, first, if_pos same]

theorem Sound.renumberFrom (sound : Sound labels db v) (whole : v.dying = 0)
    (plain : aid ≠ badId ∧ aid ≠ 0) (plain' : newid ≠ badId ∧ newid ≠ 0) {nptr fuel : Nat} {cells : List Nat}
    (inside : loc ∈ v.on .id) (linked : Linked id (fun b => (db.cont b).next) nptr cells)
    (mine : ∀ c ∈ cells, c ∈ v.conts loc) (own : ∀ c ∈ cells, (db.entry loc).id ∉ listed (db.cont c).entries)
    (done : PrDb.renumberFrom aid newid fuel nptr db = .ok db') :
    ∃ v', Sound labels db' v' ∧ ListsOnly db v [] db' v' ∧
      (∀ b ∈ v.on .id, (∀ c ∈ cells, (db.entry b).id ∉ listed (db.cont c).entries) → Untouched db v db' v' b) ∧
      ∀ b ∈ v.on .id, (∃ c ∈ cells, (db.entry b).id ∈ listed (db.cont c).entries) →
        ∀ x, x ∈ db'.ids v'.conts b ↔ x = newid ∨ x ≠ aid ∧ x ∈ db.ids v.conts b := by
  induction cells generalizing db v fuel nptr with
  | nil =>
    cases fuel with
    | zero => cases done
    | succ fuel =>
      have stop : nptr = 0 := linked
      rw [PrDb.renumberFrom, if_pos stop] at done
      cases done
      exact ⟨v, sound, .refl _ v, fun _ _ _ => ⟨rfl, rfl, fun _ _ => rfl⟩, by simp⟩
  | cons c cells ih =>
    cases fuel with
    | zero => cases done
    | succ fuel =>
      obtain rfl : nptr = c := linked.1
      rw [PrDb.renumberFrom, if_neg linked.2.1] at done
      obtain ⟨db₁, first, done⟩ := except_bind_eq_ok.mp done
      obtain ⟨v₁, sound₁, only₁, untouched₁, touched₁⟩ := sound.renumberIn whole plain plain' first
      have still := untouched₁ loc inside (own nptr mem_cons_self)
      have cont (d : Nat) (member : d ∈ cells) : db₁.cont d = db.cont d :=
        still.2.2 d (mine d (mem_cons_of_mem _ member))
      have ids {b : Nat} (member : b ∈ v.on .id) : (db₁.entry b).id = (db.entry b).id := only₁.id_of_mem sound member
      obtain ⟨v', sound', only', untouched', touched'⟩ := ih sound₁ (only₁.dying.trans whole) (by rwa [only₁.on])
        (linked.2.2.congr_values fun d member => by rw [cont d member])
        (fun d member => by rw [still.1]; exact mine d (mem_cons_of_mem _ member))
        (fun d member => by rw [ids inside, cont d member]; exact own d (mem_cons_of_mem _ member)) done
      refine ⟨v', sound', only₁.trans only', ?_, ?_⟩
      · intro b member out
        refine (untouched₁ b member (out nptr mem_cons_self)).trans (untouched' b (by rwa [only₁.on]) ?_)
        intro d later
        rw [ids member, cont d later]
        exact out d (mem_cons_of_mem _ later)
      rintro b member ⟨d, inD, hit⟩ x
      have same : (∃ d ∈ cells, (db₁.entry b).id ∈ listed (db₁.cont d).entries) ↔
          ∃ d ∈ cells, (db.entry b).id ∈ listed (db.cont d).entries := by
        refine exists_congr fun d => and_congr_right fun member' => ?_
        rw [ids member, cont d member']
      by_cases later : ∃ d ∈ cells, (db.entry b).id ∈ listed (db.cont d).entries
      · rw [touched' b (by rwa [only₁.on]) (same.mpr later)]
        by_cases here : (db.entry b).id ∈ listed (db.cont nptr).entries
        · rw [touched₁ b member here, or_and_again]
        · rw [(untouched₁ b member here).ids]
      have none : ∀ d ∈ cells, (db₁.entry b).id ∉ listed (db₁.cont d).entries :=
        fun d member' again => mt same.mp later ⟨d, member', again⟩
      have here : (db.entry b).id ∈ listed (db.cont nptr).entries := by
        rcases List.mem_cons.mp inD with rfl | more
        · exact hit
        · exact absurd ⟨d, more, hit⟩ later
      rw [(untouched' b (by rwa [only₁.on]) none).ids, touched₁ b member here]

theorem Sound.renumberAll (sound : Sound labels db v) (whole : v.dying = 0)
    (plain : aid ≠ badId ∧ aid ≠ 0) (plain' : newid ≠ badId ∧ newid ≠ 0) {fuel : Nat} (inside : loc ∈ v.on .id)
    (own : (db.entry loc).id ∉ db.ids v.conts loc)
    (first : PrDb.renumberIn aid newid (listed (db.entry loc).entries) db = .ok db₁)
    (rest : PrDb.renumberFrom aid newid fuel (db.entry loc).next db₁ = .ok db') :
    ∃ v', Sound labels db' v' ∧ ListsOnly db v [] db' v' ∧ Untouched db v db' v' loc ∧
      ∀ b ∈ v.on .id, ∀ x, x ∈ db'.ids v'.conts b ↔
        if (db.entry b).id ∈ db.ids v.conts loc then x = newid ∨ x ≠ aid ∧ x ∈ db.ids v.conts b
        else x ∈ db.ids v.conts b := by
  rw [mem_ids, not_or] at own
  have here := sound.entry whole inside
  obtain ⟨v₁, sound₁, only₁, untouched₁, touched₁⟩ := sound.renumberIn whole plain plain' first
  have still := untouched₁ loc inside own.1
  have ids {b : Nat} (member : b ∈ v.on .id) : (db₁.entry b).id = (db.entry b).id := only₁.id_of_mem sound member
  have linked : Linked id (fun b => (db₁.cont b).next) (db.entry loc).next (v.conts loc) := by
    apply (sound.roles.contLists loc here).values.congr_values
    intro c member
    rw [still.2.2 c member, db.cont_next]
    rfl
  have same (b : Nat) (member : b ∈ v.on .id) :
      (∃ d ∈ v.conts loc, (db₁.entry b).id ∈ listed (db₁.cont d).entries) ↔
        ∃ d ∈ v.conts loc, (db.entry b).id ∈ listed (db.cont d).entries := by
    refine exists_congr fun d => and_congr_right fun member' => ?_
    rw [ids member, still.2.2 d member']
  have none {b : Nat} (member : b ∈ v.on .id)
      (out : ¬ ∃ d ∈ v.conts loc, (db.entry b).id ∈ listed (db.cont d).entries) :
      ∀ d ∈ v.conts loc, (db₁.entry b).id ∉ listed (db₁.cont d).entries :=
    fun d member' again => out ((same b member).mp ⟨d, member', again⟩)
  obtain ⟨v₂, sound₂, only₂, untouched₂, touched₂⟩ := sound₁.renumberFrom (only₁.dying.trans whole) plain plain'
    (by rwa [only₁.on]) linked (fun c member => by rwa [still.1]) (none inside own.2) rest
  refine ⟨v₂, sound₂, only₁.trans only₂, still.trans (untouched₂ loc (by rwa [only₁.on]) (none inside own.2)), ?_⟩
  intro b member x
  have member₁ : b ∈ v₁.on .id := by rwa [only₁.on]
  simp only [@mem_ids db v.conts loc]
  by_cases later : ∃ d ∈ v.conts loc, (db.entry b).id ∈ listed (db.cont d).entries
  · rw [if_pos (.inr later), touched₂ b member₁ ((same b member).mpr later)]
    by_cases main : (db.entry b).id ∈ listed (db.entry loc).entries
    · rw [touched₁ b member main, or_and_again]
    · rw [(untouched₁ b member main).ids]
  rw [(untouched₂ b member₁ (none member later)).ids]
  by_cases main : (db.entry b).id ∈ listed (db.entry loc).entries
  · rw [if_pos (.inl main), touched₁ b member main]
  · rw [if_neg (not_or.mpr ⟨main, later⟩), (untouched₁ b member main).ids]

theorem link_removeFromHash {hit : PrEntry → Bool} {k k' : Thread} {i b : Nat}
    (done : db.removeFromHash hit k i = .ok (db', b)) (other : k' ≠ k) (c : Nat) :
    (db'.entry c).link k' = (db.entry c).link k' := by
  obtain ⟨⟨trail, current⟩, -, done⟩ := except_bind_eq_ok.mp done
  dsimp only at done
  split at done
  · cases done
    rfl
  split at done
  · cases done
    rfl
  cases done
  rw [PrDb.entry_putEntry]
  split
  · rename_i here
    rw [PrEntry.link_setLink, if_neg other, here]
  · rfl

theorem Sound.changeID {db₂ : PrDb} {found : Nat} (sound : Sound labels db v) (whole : v.dying = 0)
    (inside : loc ∈ v.on .id) (unused : ∀ c ∈ v.on .id, (db.entry c).id ≠ newid) (short : labels → v.conts loc = [])
    (removed : db.removeFromIDHash (db.entry loc).id = .ok (db₁, found))
    (added : (db₁.putEntry loc { db.entry loc with id := newid }).addToIDHash newid loc = .ok db₂) :
    found = loc ∧ (newid ≠ badId ∧ newid ≠ 0) ∧ ∃ v', Sound labels db₂ v' ∧ v'.dying = 0 ∧ v'.role = v.role ∧
      v'.conts = v.conts ∧ (∀ k b, b ∈ v'.on k ↔ b ∈ v.on k) ∧ SameIds db v db₂ v' ∧
      (∀ b, (db₂.entry b).data = if b = loc then { (db.entry loc).data with id := newid } else (db.entry b).data) ∧
      db₂.header.orphan = db.header.orphan := by
  have here := sound.entry whole inside
  obtain ⟨db₁', done, only₁, sound₁⟩ := sound.removeFromIDHash inside
  cases removed.symm.trans done
  have data := only₁.data loc
  have names : (db₁.entry loc).nextName = (db.entry loc).nextName := by
    exact link_removeFromHash (ensure_then.mp removed).2 (by simp : Thread.name ≠ .id) loc
  have mem (k : Thread) (b : Nat) : b ∈ (v.off .id loc).on k ↔ b ∈ v.on k ∧ (k = .id → b ≠ loc) := View.mem_off
  have out : loc ∉ (v.off .id loc).on .id := fun again => ((mem _ _).mp again).2 rfl rfl
  obtain ⟨sound₂, ids₂⟩ := sound₁.rewrite here (e := { db.entry loc with id := newid })
    (congrArg (fun d => d.flags) data).symm (congrArg (fun d => d.next) data).symm
    (congrArg (fun d => d.entries) data).symm (congrArg (fun d => d.count) data).symm (by
      intro k on
      cases k with
      | id => exact absurd on out
      | name => exact names.symm) (.inr ⟨out, short⟩) (.inl (congrArg (fun d => d.name) data).symm)
  have this : (db₁.putEntry loc { db.entry loc with id := newid }).entry loc = { db.entry loc with id := newid } := by
    rw [PrDb.entry_putEntry, if_pos rfl]
  have others (b : Nat) (other : b ≠ loc) :
      (db₁.putEntry loc { db.entry loc with id := newid }).entry b = db₁.entry b := by
    rw [PrDb.entry_putEntry, if_neg other]
  have plain : newid ≠ badId ∧ newid ≠ 0 := by
    exact (ensure_then.mp added).1
  have isNew : ((db₁.putEntry loc { db.entry loc with id := newid }).entry loc).id = newid := by rw [this]
  obtain ⟨only₃, sound₃⟩ := sound₂.addToIDHash here out (by
    intro c member
    obtain ⟨old, other⟩ := (mem _ _).mp member
    rw [isNew, others c (other rfl), only₁.id]
    exact unused c old) (by rwa [isNew])
  refine ⟨rfl, plain, _, sound₃, whole, rfl, rfl, ?_, ?_, ?_, ?_⟩
  · intro k b
    rw [View.mem_onto, mem]
    by_cases same : b = loc
    · cases k with
      | id => simp [same, inside]
      | name => simp
    · simp [same]
  · intro b known
    have second : (db₁.putEntry loc { db.entry loc with id := newid }).ids v.conts b = db₁.ids v.conts b := ids₂ b known
    exact (only₃.ids v.conts b).trans (second.trans (only₁.ids v.conts b))
  · intro b
    rw [only₃.data]
    split
    · rename_i same
      rw [same, this]
      rfl
    · rename_i other
      rw [others b other, only₁.data]
  · exact only₃.orphan.trans only₁.orphan

theorem changeId_consistent (consistent : Consistent labels db v o) (inside : loc ∈ v.on .id)
    (empty : (db.entry loc).owned = 0) (short : labels → (db.entry loc).next = 0)
    (done : db.changeId (db.entry loc).id newid loc = .ok db') :
    ∃ v', Consistent labels db' v' o ∧ (Housed db v o → Housed db' v' o) ∧ loc ∈ v'.on .id := by
  have sound := consistent.sound
  have here := consistent.entry inside
  obtain ⟨pos, search, done⟩ := except_bind_eq_ok.mp done
  obtain ⟨none, done⟩ := ensure_then.mp done
  obtain ⟨-, done⟩ := ensure_then.mp done
  obtain ⟨⟨db₁, found⟩, removed, done⟩ := except_bind_eq_ok.mp done
  obtain ⟨db₂, added, done⟩ := except_bind_eq_ok.mp done
  obtain ⟨db₃, first, rest⟩ := except_bind_eq_ok.mp done
  have unused : ∀ c ∈ v.on .id, (db.entry c).id ≠ newid := by
    rcases sound.of_findByID search with ⟨-, out⟩ | ⟨some, -⟩
    · exact out
    · exact absurd none some
  have single : labels → v.conts loc = [] := by
    intro marked
    have linked := (sound.roles.contLists loc here).values
    rw [show db.load (.next loc) = 0 from short marked] at linked
    exact Linked.eq_nil linked
  have isLoc : (if found ≠ 0 then found else loc) = loc := by
    obtain ⟨_, done', -⟩ := sound.removeFromIDHash inside
    cases removed.symm.trans done'
    exact ite_self loc
  rw [isLoc] at added first rest
  obtain ⟨-, plain, v₂, sound₂, whole₂, role₂, conts₂, on₂, ids₂, data₂, orphan₂⟩ :=
    sound.changeID consistent.intact inside unused single removed added
  have inside₂ : loc ∈ v₂.on .id := (on₂ _ _).mpr inside
  have id₂ (b : Nat) : (db₂.entry b).id = if b = loc then newid else (db.entry b).id := by
    have same := congrArg (fun d => d.id) (data₂ b)
    split at same <;> rename_i this
    · rw [if_pos this]
      exact same
    · rw [if_neg this]
      exact same
  have lists₂ {b : Nat} (member : b ∈ v.on .id) : db₂.ids v₂.conts b = db.ids v.conts b := ids₂ b (consistent.entry member)
  have own : (db₂.entry loc).id ∉ db₂.ids v₂.conts loc := by
    rw [lists₂ inside, id₂, if_pos rfl]
    intro listed
    obtain ⟨c, member, same, -⟩ := consistent.symmetric loc inside newid listed
    exact unused c member same
  obtain ⟨v₃, sound₃, only₃, untouched₃, touched₃⟩ :=
    sound₂.renumberAll whole₂ (sound.plain loc inside) plain inside₂ own first rest
  have on₃ (k : Thread) (b : Nat) : b ∈ v₃.on k ↔ b ∈ v.on k := by rw [only₃.on, on₂]
  have id₃ {b : Nat} (member : b ∈ v.on .id) : (db'.entry b).id = if b = loc then newid else (db.entry b).id :=
    (only₃.id_of_mem sound₂ ((on₂ _ _).mpr member)).trans (id₂ b)
  have otherId {b : Nat} (member : b ∈ v.on .id) (other : b ≠ loc) : (db'.entry b).id = (db.entry b).id := by
    rw [id₃ member, if_neg other]
  have word₂ {α : Type} (f : PrEntry → α) (same : ∀ e : PrEntry, f e = f e.data ∧ f { e with id := newid } = f e) (b : Nat) :
      f (db₂.entry b) = f (db.entry b) := by
    rw [(same _).1, data₂]
    split
    · rename_i this
      rw [(same _).2, ← (same _).1, this]
    · exact ((same _).1).symm
  have owners₃ : SameOwners (v.on .id) db db' := by
    have first : SameOwners (v.on .id) db db₂ := by
      refine ⟨orphan₂, ?_, ?_, ?_, ?_⟩
      · exact fun b _ => word₂ (fun d => d.owner) (fun _ => ⟨rfl, rfl⟩) b
      · exact fun b _ => word₂ (fun d => d.owned) (fun _ => ⟨rfl, rfl⟩) b
      · exact fun b _ => word₂ (fun d => d.nextOwned) (fun _ => ⟨rfl, rfl⟩) b
      · intro b _
        unfold PrEntry.isGroup
        rw [word₂ (fun d => d.flags) (fun _ => ⟨rfl, rfl⟩) b]
    exact first.trans ((SameOwners.listsOnly only₃ sound₂).mono fun b member => (on₂ _ _).mpr member)
  have name₃ {b : Nat} (member : b ∈ v.on .id) : (db'.entry b).name = (db.entry b).name :=
    (congrArg (fun d => d.name) (only₃.rest_of_mem sound₂ ((on₂ _ _).mpr member))).trans
      (word₂ (fun d => d.name) (fun _ => ⟨rfl, rfl⟩) b)
  have lists₃ {b : Nat} (member : b ∈ v.on .id) (x : Id) : x ∈ db'.ids v₃.conts b ↔
      if b ≠ loc ∧ (db.entry b).id ∈ db.ids v.conts loc then x = newid ∨ x ≠ (db.entry loc).id ∧ x ∈ db.ids v.conts b
      else x ∈ db.ids v.conts b := by
    rw [touched₃ b ((on₂ _ _).mpr member), lists₂ member, lists₂ inside, id₂]
    by_cases same : b = loc
    · subst same
      rw [lists₂ inside, id₂, if_pos rfl] at own
      rw [if_pos rfl, if_neg own, if_neg (by simp)]
    · rw [if_neg same]
      simp only [same, ne_eq, not_false_eq_true, true_and]
  have kinds {b c : Nat} (inB : b ∈ v.on .id) (inC : c ∈ v.on .id)
      (kind : (db.entry c).isGroup ↔ ¬ (db.entry b).isGroup) : (db'.entry c).isGroup ↔ ¬ (db'.entry b).isGroup := by
    rw [owners₃.group b inB, owners₃.group c inC]
    exact kind
  -- two other entries list each other as before
  have pair {b c : Nat} (inB : b ∈ v.on .id) (inC : c ∈ v.on .id) (notB : b ≠ loc) (notC : c ≠ loc)
      (kind : (db.entry c).isGroup ↔ ¬ (db.entry b).isGroup) (back : (db.entry b).id ∈ db.ids v.conts c) :
      ∃ c' ∈ v₃.on .id, (db'.entry c').id = (db.entry c).id ∧ ((db'.entry c').isGroup ↔ ¬ (db'.entry b).isGroup) ∧
        (db'.entry b).id ∈ db'.ids v₃.conts c' := by
    refine ⟨c, (on₃ _ _).mpr inC, otherId inC notC, kinds inB inC kind, ?_⟩
    rw [otherId inB notB, lists₃ inC]
    split
    · exact .inr ⟨fun same => notB (sound.ids b inB loc inside same), back⟩
    · exact back
  have symmetric₃ : Symmetric db' v₃ := by
    intro b member x listed
    rw [on₃] at member
    rw [lists₃ member] at listed
    by_cases self : b = loc
    · subst self
      rw [if_neg (by simp)] at listed
      obtain ⟨c, inC, rfl, kind, back⟩ := consistent.symmetric b member x listed
      have notC : c ≠ b := by
        rintro rfl
        exact (iff_not_self kind).elim
      refine ⟨c, (on₃ _ _).mpr inC, otherId inC notC, kinds member inC kind, ?_⟩
      rw [id₃ member, if_pos rfl, lists₃ inC, if_pos ⟨notC, listed⟩]
      exact .inl rfl
    split at listed
    · rename_i renumbered
      rcases listed with rfl | ⟨other, old⟩
      · -- the entry itself under its new id
        obtain ⟨d, inD, same, kind, -⟩ := consistent.symmetric loc inside _ renumbered.2
        obtain rfl := sound.ids d inD b member same
        refine ⟨loc, (on₃ _ _).mpr inside, by rw [id₃ inside, if_pos rfl], kinds member inside ?_, ?_⟩
        · rw [kind, not_not]
        · rw [otherId member self, lists₃ inside, if_neg (by simp)]
          exact renumbered.2
      · obtain ⟨c, inC, rfl, kind, back⟩ := consistent.symmetric b member x old
        exact pair member inC self (fun same => other (by rw [same])) kind back
    · rename_i kept
      obtain ⟨c, inC, rfl, kind, back⟩ := consistent.symmetric b member x listed
      refine pair member inC self ?_ kind back
      rintro rfl
      exact kept ⟨self, back⟩
  have coherent : Coherent labels db' v₃ o := by
    refine ⟨sound₃, only₃.dying.trans whole₂, symmetric₃, ?_, ?_, consistent.whole, consistent.still⟩
    · apply consistent.owners.congr owners₃ (fun b member => (on₃ _ _).mpr member)
        (fun b member out => absurd ((on₃ _ _).mp member) out)
      intro g member
      cases home : o.home g with
      | none => rfl
      | some b =>
        have known := (consistent.owners.groups g member).2.2
        apply otherId (known b home).1
        rintro rfl
        -- the entry owns nothing
        have linked := (consistent.owners.chain (home ▸ known)).values
        rw [show db.load (headOf (some b)) = 0 from empty] at linked
        have onIt := Owners.mem_chain.mpr ⟨member, home⟩
        rw [Linked.eq_nil linked] at onIt
        exact not_mem_nil onIt
    · intro b member user
      rw [on₃] at member
      rw [owners₃.group b member] at user
      rw [name₃ member]
      exact consistent.users b member user
  refine ⟨v₃, ⟨coherent, sound₃, coherent.intact, ?_, ?_⟩, ?_, (on₃ _ _).mpr inside⟩
  · intro b loose
    have loose₂ := ((only₃.loose b).mp loose).1
    rw [role₂] at loose₂
    exact consistent.settled.used b loose₂
  · intro k b known
    rw [only₃.live, role₂] at known
    exact (on₃ _ _).mpr (consistent.settled.complete k b known)
  · intro housed b member group
    rw [on₃] at member
    exact housed b member ((owners₃.group b member).mp group)

theorem changeOwner_consistent (consistent : Consistent labels db v o) (inside : loc ∈ v.on .id)
    (done : db.changeOwner oid loc = .ok db') :
    ∃ o', Consistent labels db' v o' ∧ (Housed db v o → Housed db' v o') := by
  have sound := consistent.sound
  obtain ⟨⟨group, -⟩, done⟩ := ensure_then.mp done
  obtain ⟨db₂, disowned, chained⟩ := except_bind_eq_ok.mp done
  have form := (sound.threaded.entries .id loc inside).1
  have only₁ := OwnersOnly.putEntry (e := { db.entry loc with owner := oid }) form rfl
  have owners₁ := consistent.owners.startMoving consistent.still inside oid sound
  have this : ((db.putEntry loc { db.entry loc with owner := oid }).entry loc).owner = oid := by
    rw [PrDb.entry_putEntry, if_pos rfl]
  generalize db.putEntry loc { db.entry loc with owner := oid } = db₁ at *
  have sound₁ : Sound labels db₁ v := (sound.kept only₁.kept).1
  rw [← only₁.id loc] at disowned
  obtain ⟨only₂, owner₂, owners₂⟩ := owners₁.disown sound₁ inside
    (fun p inP _ => by
      change p ≠ o.broken
      rw [consistent.whole]
      exact sound.ne_zero inP)
    (fun member => by
      rw [consistent.owners.owner loc member (by rw [consistent.still]; exact sound.ne_zero inside)]
      change db₁.ownerOf (o.home loc) = db.ownerOf (o.home loc)
      cases o.home loc with
      | none => rfl
      | some b => exact only₁.id b) disowned
  have stopped := owners₂.stopMoving (by simp)
  have sound₂ : Sound labels db₂ v := (sound₁.kept only₂.kept).1
  obtain ⟨p, inP, idP⟩ := Owners.addToOwnerChain_found sound₂ chained
  have group₂ : (db₂.entry loc).isGroup := by
    rwa [(only₂.kept.entry loc).isGroup, (only₁.kept.entry loc).isGroup]
  obtain ⟨db₃, added, only₃, -, owners₃⟩ := stopped.addToOwnerChain sound₂ inside group₂ inP
    (by
      change p ≠ o.broken
      rw [consistent.whole]
      exact sound.ne_zero inP) (by simp) (by rw [owner₂, this, idP])
  rw [only₂.id, only₁.id, idP] at added
  cases chained.symm.trans added
  have only := (only₁.trans only₂).trans only₃
  have coherent := consistent.toCoherent.ownersOnly only owners₃ consistent.whole rfl
  refine ⟨_, ⟨coherent, coherent.sound, consistent.intact, consistent.settled.used, consistent.settled.complete⟩, ?_⟩
  intro housed b member grouped
  rw [(only.kept.entry b).isGroup] at grouped
  change b ∈ loc :: o.owned.filter fun c => c ≠ loc
  by_cases same : b = loc
  · rw [same]
    exact mem_cons_self
  · apply mem_cons_of_mem
    rw [mem_filter, decide_eq_true_eq]
    exact ⟨housed b member grouped, same⟩

theorem Sound.changeName {found : Nat} (sound : Sound labels db v)
    (here : v.role loc = .entry) (inside : loc ∈ v.on .name) (unused : ∀ c ∈ v.on .name, (db.entry c).name ≠ name)
    (short : name.length < maxNameLen) (removed : db.removeFromNameHash (db.entry loc).name = .ok (db₁, found))
    (result : db' = (db₁.putEntry loc { db.entry loc with name := name }).addToNameHash name loc) :
    found = loc ∧ ∃ v', Sound labels db' v' ∧ v'.dying = v.dying ∧ v'.role = v.role ∧ v'.conts = v.conts ∧
      (∀ k b, b ∈ v'.on k ↔ b ∈ v.on k) ∧ SameIds db v db' v' ∧
      (∀ b, (db'.entry b).data = if b = loc then { (db.entry loc).data with name := name } else (db.entry b).data) ∧
      db'.header.orphan = db.header.orphan := by
  obtain ⟨db₁', done, only₁, sound₁⟩ := sound.removeFromNameHash inside
  cases removed.symm.trans done
  have data := only₁.data loc
  have links : (db₁.entry loc).nextID = (db.entry loc).nextID :=
    link_removeFromHash removed (by simp : Thread.id ≠ .name) loc
  have mem (k : Thread) (b : Nat) : b ∈ (v.off .name loc).on k ↔ b ∈ v.on k ∧ (k = .name → b ≠ loc) := View.mem_off
  have out : loc ∉ (v.off .name loc).on .name := fun again => ((mem _ _).mp again).2 rfl rfl
  obtain ⟨sound₂, ids₂⟩ := sound₁.rewrite here (e := { db.entry loc with name := name })
    (congrArg (fun d => d.flags) data).symm (congrArg (fun d => d.next) data).symm
    (congrArg (fun d => d.entries) data).symm (congrArg (fun d => d.count) data).symm (by
      intro k on
      cases k with
      | id => exact links.symm
      | name => exact absurd on out) (.inl (congrArg (fun d => d.id) data).symm) (.inr out)
  have this : (db₁.putEntry loc { db.entry loc with name := name }).entry loc = { db.entry loc with name := name } := by
    rw [PrDb.entry_putEntry, if_pos rfl]
  have others (b : Nat) (other : b ≠ loc) :
      (db₁.putEntry loc { db.entry loc with name := name }).entry b = db₁.entry b := by
    rw [PrDb.entry_putEntry, if_neg other]
  have isNew : ((db₁.putEntry loc { db.entry loc with name := name }).entry loc).name = name := by rw [this]
  obtain ⟨only₃, sound₃⟩ := sound₂.addToNameHash here out (by
    intro c member
    obtain ⟨old, other⟩ := (mem _ _).mp member
    rw [isNew, others c (other rfl), only₁.name]
    exact unused c old) (by rwa [isNew])
  rw [isNew, ← result] at only₃ sound₃
  refine ⟨rfl, _, sound₃, rfl, rfl, rfl, ?_, ?_, ?_, ?_⟩
  · intro k b
    rw [View.mem_onto, mem]
    by_cases same : b = loc
    · cases k with
      | id => simp
      | name => simp [same, inside]
    · simp [same]
  · intro b known
    have second : (db₁.putEntry loc { db.entry loc with name := name }).ids v.conts b = db₁.ids v.conts b := ids₂ b known
    exact (only₃.ids v.conts b).trans (second.trans (only₁.ids v.conts b))
  · intro b
    rw [only₃.data]
    split
    · rename_i same
      rw [same, this]
      rfl
    · rename_i other
      rw [others b other, only₁.data]
  · exact only₃.orphan.trans only₁.orphan

theorem rename_consistent (consistent : Consistent labels db v o) (inside : loc ∈ v.on .id)
    (short : name.length < maxNameLen) (plain : ¬ (db.entry loc).isGroup → 58 ∉ name)
    (done : db.rename name loc = .ok db') : ∃ v', Consistent labels db' v' o ∧ (Housed db v o → Housed db' v' o) := by
  have sound := consistent.sound
  have here := consistent.entry inside
  have onName := consistent.settled.complete .name loc here
  obtain ⟨pos, search, done⟩ := except_bind_eq_ok.mp done
  obtain ⟨none, done⟩ := ensure_then.mp done
  obtain ⟨⟨db₁, found⟩, removed, done⟩ := except_bind_eq_ok.mp done
  have isLoc : (if found ≠ 0 then found else loc) = loc := by
    obtain ⟨_, done', -⟩ := sound.removeFromNameHash onName
    cases removed.symm.trans done'
    exact ite_self loc
  dsimp only at done
  rw [isLoc, Except.ok.injEq] at done
  have unused : ∀ c ∈ v.on .name, (db.entry c).name ≠ name := by
    rcases sound.of_findByName search with ⟨-, out⟩ | ⟨some, -⟩
    · exact out
    · exact absurd none some
  obtain ⟨-, v', sound', dying', role', conts', on', ids', data', orphan'⟩ :=
    sound.changeName here onName unused short removed done.symm
  have word {α : Type} (f : PrEntry → α) (same : ∀ e : PrEntry, f e = f e.data ∧ f { e with name := name } = f e) (b : Nat) :
      f (db'.entry b) = f (db.entry b) := by
    rw [(same _).1, data']
    split
    · rename_i this
      rw [(same _).2, ← (same _).1, this]
    · exact ((same _).1).symm
  have id' := word (fun d => d.id) (fun _ => ⟨rfl, rfl⟩)
  have kind' (b : Nat) : (db'.entry b).isGroup ↔ (db.entry b).isGroup := by
    unfold PrEntry.isGroup
    rw [word (fun d => d.flags) (fun _ => ⟨rfl, rfl⟩) b]
  have owners' : SameOwners (v.on .id) db db' :=
    ⟨orphan', fun b _ => word (fun d => d.owner) (fun _ => ⟨rfl, rfl⟩) b,
      fun b _ => word (fun d => d.owned) (fun _ => ⟨rfl, rfl⟩) b,
      fun b _ => word (fun d => d.nextOwned) (fun _ => ⟨rfl, rfl⟩) b, fun b _ => kind' b⟩
  have symmetric' : Symmetric db' v' := by
    intro b member x listed
    rw [on'] at member
    rw [ids' b (consistent.entry member)] at listed
    obtain ⟨c, inC, same, kind, back⟩ := consistent.symmetric b member x listed
    refine ⟨c, (on' _ _).mpr inC, (id' c).trans same, ?_, ?_⟩
    · rw [kind', kind']
      exact kind
    · rw [id', ids' c (consistent.entry inC)]
      exact back
  have coherent : Coherent labels db' v' o := by
    refine ⟨sound', dying'.trans consistent.intact, symmetric', ?_, ?_, consistent.whole, consistent.still⟩
    · apply consistent.owners.congr owners' (fun b member => (on' _ _).mpr member)
        (fun b member out => absurd ((on' _ _).mp member) out)
      intro g _
      cases o.home g with
      | none => rfl
      | some b => exact id' b
    intro b member user
    rw [on'] at member
    rw [kind'] at user
    have name' := congrArg (fun d => d.name) (data' b)
    split at name'
    · rename_i this
      subst this
      rw [show (db'.entry b).name = name from name']
      exact plain user
    · rw [show (db'.entry b).name = (db.entry b).name from name']
      exact consistent.users b member user
  refine ⟨v', ⟨coherent, sound', coherent.intact, ?_, ?_⟩, ?_⟩
  · intro b
    rw [role']
    exact consistent.settled.used b
  · intro k b known
    rw [role'] at known
    exact (on' _ _).mpr (consistent.settled.complete k b known)
  · intro housed b member group
    rw [on'] at member
    exact housed b member ((kind' b).mp group)

theorem correctGroupName_fits {aname cname : Name}
    (done : db.correctGroupName cfg aname cid oid = .ok cname) : cname.length < maxNameLen := by
  obtain ⟨short, done⟩ := ensure_then.mp done
  obtain ⟨member, -, done⟩ := except_bind_eq_ok.mp done
  obtain ⟨pre, -, done⟩ := except_bind_eq_ok.mp done
  cases pre with
  | none =>
    obtain ⟨-, done⟩ := ensure_then.mp done
    cases done
    exact short
  | some pre =>
    obtain ⟨-, done⟩ := ensure_then.mp done
    split at done
    · obtain ⟨-, done⟩ := ensure_then.mp done
      cases done
      exact short
    · obtain ⟨⟨fits, -⟩, done⟩ := ensure_then.mp done
      cases done
      exact fits

theorem changeName_consistent {name : Option Name}
    (consistent : Consistent labels db v o) (inside : loc ∈ v.on .id) (done : db.changeName cfg cid name loc = .ok db') :
    ∃ v', Consistent labels db' v' o ∧ (Housed db v o → Housed db' v' o) := by
  unfold PrDb.changeName at done
  dsimp only at done
  split at done
  · rename_i group
    obtain ⟨cname, corrected, done⟩ := except_bind_eq_ok.mp done
    split at done
    · cases done
      exact ⟨v, consistent, id⟩
    obtain ⟨-, corrected⟩ := ensure_then.mp corrected
    obtain ⟨cname', correct, corrected⟩ := except_bind_eq_ok.mp corrected
    obtain ⟨-, corrected⟩ := ensure_then.mp corrected
    cases corrected
    exact rename_consistent consistent inside (correctGroupName_fits correct) (absurd group) done
  · obtain ⟨cname, corrected, done⟩ := except_bind_eq_ok.mp done
    obtain ⟨-, corrected⟩ := ensure_then.mp corrected
    obtain ⟨⟨colon, -, short⟩, corrected⟩ := ensure_then.mp corrected
    cases corrected
    exact rename_consistent consistent inside (by omega) (fun _ => colon) done

/-- The check for a change of an entry: where the id changes, the entry owns nothing. -/
def Renumbers (labels : Prop) (db : PrDb) (aid newid : Id) : Prop :=
  newid ≠ 0 ∧ newid ≠ aid → ∀ loc, db.findByID aid = .ok loc → loc ≠ 0 →
    (db.entry loc).owned = 0 ∧ (labels → (db.entry loc).next = 0)

theorem changeEntry_consistent (consistent : Consistent labels db v o)
    (renumbers : Renumbers labels db aid newid) (done : db.changeEntry cfg aid cid name oid newid = .ok db') :
    ∃ v' o', Consistent labels db' v' o' ∧ (Housed db v o → Housed db' v' o') := by
  obtain ⟨loc, found, done⟩ := except_bind_eq_ok.mp done
  obtain ⟨some, done⟩ := ensure_then.mp done
  obtain ⟨admin, -, done⟩ := except_bind_eq_ok.mp done
  obtain ⟨-, done⟩ := ensure_then.mp done
  obtain ⟨member, -, done⟩ := except_bind_eq_ok.mp done
  obtain ⟨-, done⟩ := ensure_then.mp done
  obtain ⟨inside, -, rfl⟩ := consistent.settled.findByID found some
  extract_lets chown last rest at done
  -- the id
  obtain ⟨db₁, v₁, consistent₁, housed₁, inside₁, done⟩ : ∃ db₁ v₁, Consistent labels db₁ v₁ o ∧
      (Housed db v o → Housed db₁ v₁ o) ∧ loc ∈ v₁.on .id ∧ rest db₁ = .ok db' := by
    split at done
    · rename_i changes
      obtain ⟨-, done⟩ := ensure_then.mp done
      obtain ⟨db₁, changed, done⟩ := except_bind_eq_ok.mp done
      obtain ⟨empty, short⟩ := renumbers changes loc found some
      obtain ⟨v₁, consistent₁, housed₁, inside₁⟩ := changeId_consistent consistent inside empty short changed
      exact ⟨db₁, v₁, consistent₁, housed₁, inside₁, done⟩
    · exact ⟨db, v, consistent, id, inside, done⟩
  dsimp only [rest] at done
  -- the owner
  obtain ⟨db₂, o₂, consistent₂, housed₂, done⟩ : ∃ db₂ o₂, Consistent labels db₂ v₁ o₂ ∧
      (Housed db₁ v₁ o → Housed db₂ v₁ o₂) ∧ last db₂ = .ok db' := by
    split at done
    · obtain ⟨db₂, changed, done⟩ := except_bind_eq_ok.mp done
      obtain ⟨o₂, consistent₂, housed₂⟩ := changeOwner_consistent consistent₁ inside₁ changed
      exact ⟨db₂, o₂, consistent₂, housed₂, done⟩
    · exact ⟨db₁, o, consistent₁, id, done⟩
  -- the name
  dsimp only [last] at done
  split at done
  · obtain ⟨v₃, consistent₃, housed₃⟩ := changeName_consistent consistent₂ inside₁ done
    exact ⟨v₃, o₂, consistent₃, housed₃ ∘ housed₂ ∘ housed₁⟩
  split at done
  · obtain ⟨v₃, consistent₃, housed₃⟩ := changeName_consistent consistent₂ inside₁ done
    exact ⟨v₃, o₂, consistent₃, housed₃ ∘ housed₂ ∘ housed₁⟩
  · cases done
    exact ⟨v₁, o₂, consistent₂, housed₂ ∘ housed₁⟩

end OpenAFS.Ptserver
