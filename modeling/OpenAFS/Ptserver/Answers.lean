import OpenAFS.Ptserver.Changes

namespace OpenAFS.Ptserver

open Lib

variable {labels : Prop}

/-- The search in the list of a group and the list of the groups of a user agree but for the group of all users that
    are known: a user of another cell is in it for the search only. -/
theorem answers_agree_iff {db : PrDb} {v : View} (settled : Settled labels db v) (symmetric : Symmetric db v) {b : Nat}
    (here : v.role b = .entry) (user : ¬ (db.entry b).isGroup) (known : (db.entry b).id ≠ anonymousId) {g : Id}
    (group : ∀ c, v.role c = .entry → (db.entry c).id = g → (db.entry c).isGroup) :
    (db.isAMemberOf (db.entry b).id g = .ok true ↔ ∃ alist, db.getList (db.entry b) true = .ok alist ∧ g ∈ alist) ↔
      ¬ (g = authUserId ∧ ((db.entry b).isForeign ∨ (db.entry b).id = anyUserId) ∧ g ∉ db.ids v.conts b) := by
  have sound := settled.toSound
  have inside := settled.complete .id b here
  have other : g ≠ (db.entry b).id := fun same => user (group b here same.symm)
  obtain ⟨alist, got, meaning⟩ := sound.getList here true
  have listed : (∃ alist, db.getList (db.entry b) true = .ok alist ∧ g ∈ alist) ↔ g ∈ db.ids v.conts b ∨ g = anyUserId ∨
        g = authUserId ∧ (db.entry b).id ≠ anonymousId ∧ (db.entry b).id ≠ anyUserId ∧ ¬ (db.entry b).isForeign := by
    rw [got]
    simp only [Except.ok.injEq, exists_eq_left', meaning, true_and, mem_addSpecial other]
  rw [listed]
  by_cases any : g = anyUserId
  · have answer : db.isAMemberOf (db.entry b).id g = .ok true := by
      unfold PrDb.isAMemberOf
      rw [if_pos any]
    have apart : g ≠ authUserId := by
      rw [any]
      decide
    exact iff_of_true (iff_of_true answer (.inr (.inl any))) fun all => apart all.1
  by_cases auth : g = authUserId
  · have answer : db.isAMemberOf (db.entry b).id g = .ok true := by
      unfold PrDb.isAMemberOf
      rw [if_neg any, if_pos ⟨auth, known⟩]
    rw [iff_true_left answer]
    by_cases listed : g ∈ db.ids v.conts b
    · exact iff_of_true (.inl listed) fun all => all.2.2 listed
    · rw [or_iff_right listed, or_iff_right any, and_iff_right auth, and_iff_right auth, and_iff_right known,
        and_iff_left listed, not_or]
      exact and_comm
  · obtain ⟨answer, asked, truth⟩ := sound.isAMemberOf settled.whole (sound.plain b inside) any (.inl auth) (by
      by_contra both
      rw [not_or, not_not, not_not] at both
      exact other (both.1.trans both.2.symm))
    rw [asked, symmetric.iff sound inside user]
    simp only [Except.ok.injEq, truth, any, auth, false_and, or_false, not_false_eq_true]

theorem answers_agree_admin : ∃ db v b, Settled True db v ∧ v.role b = .entry ∧ (db.entry b).id = 1 ∧
    ((db.isAMemberOf (db.entry b).id sysAdminId = .ok true ↔
        ∃ alist, db.getList (db.entry b) true = .ok alist ∧ sysAdminId ∈ alist) ↔
      ¬ (sysAdminId = authUserId ∧ ((db.entry b).isForeign ∨ (db.entry b).id = anyUserId) ∧ sysAdminId ∉ db.ids v.conts b)) := by
  have fine : (((initdb { noAuth := true }).bind fun db =>
      db.iNewEntry { noAuth := true } sysAdminId [117] 1 0).toOption.any fun db =>
        (db.findByID 1).toOption.any fun b => (db.findByID sysAdminId).toOption.any fun g =>
          decide (b ≠ 0 ∧ g ≠ 0 ∧ ¬ (db.entry b).isGroup ∧ (db.entry g).isGroup)) = true := by
    decide +kernel
  obtain ⟨db, made, fine⟩ := exists_of_any fine
  obtain ⟨b, found, fine⟩ := exists_of_any fine
  obtain ⟨g, foundG, fine⟩ := exists_of_any fine
  obtain ⟨some, someG, user, group⟩ := of_decide_eq_true fine
  obtain ⟨first, initial, made⟩ := except_bind_eq_ok.mp made
  have created : ∃ v o, Consistent True first v o ∧ Housed first v o := initdb_consistent initial
  obtain ⟨v₀, o₀, consistent₀, -⟩ := created
  obtain ⟨v, o, consistent, -⟩ := iNewEntry_consistent consistent₀ made
  obtain ⟨inside, here, id⟩ := consistent.settled.findByID found some
  obtain ⟨inG, -, idG⟩ := consistent.settled.findByID foundG someG
  refine ⟨db, v, b, consistent.settled, here, id, answers_agree_iff consistent.settled consistent.symmetric here user ?_ ?_⟩
  · rw [id]
    decide
  · intro c known same
    have inC := consistent.settled.complete .id c known
    rwa [consistent.settled.ids c inC g inG (same.trans idG.symm)]

/-- A user of another cell is a known user for the search, but not for the list. -/
theorem answers_disagree : ¬ ∀ (db : PrDb) (v : View), Settled True db v → Symmetric db v → ∀ b, v.role b = .entry →
    ¬ (db.entry b).isGroup → (db.entry b).id ≠ anonymousId → ∀ g < 0, (db.isAMemberOf (db.entry b).id g = .ok true ↔
        ∃ alist, db.getList (db.entry b) true = .ok alist ∧ g ∈ alist) := by
  intro claim
  have fine : (((initdb { noAuth := true }).bind fun db =>
      (db.iNewEntry { noAuth := true } sysAdminId (authUserGroup ++ [64, 120]) (-300) sysAdminId).bind fun db =>
        db.newEntry { noAuth := true } { id := sysAdminId } [117, 64, 120] 0 0).toOption.any fun db =>
          (db.findByName [117, 64, 120]).toOption.any fun n => (db.findByID (db.entry n).id).toOption.any fun b =>
            (db.isAMemberOf (db.entry b).id authUserId).toOption.any fun known =>
              decide (b ≠ 0 ∧ ¬ (db.entry b).isGroup ∧ (db.entry b).id ≠ anonymousId ∧ known = true ∧
                (db.entry b).next = 0 ∧ authUserId ∉ listed (db.entry b).entries ++ addSpecial (db.entry b))) = true := by
    decide +kernel
  obtain ⟨db, made, fine⟩ := exists_of_any fine
  obtain ⟨n, -, fine⟩ := exists_of_any fine
  obtain ⟨b, found, fine⟩ := exists_of_any fine
  obtain ⟨known, asked, fine⟩ := exists_of_any fine
  obtain ⟨some, user, named, rfl, single, out⟩ := of_decide_eq_true fine
  obtain ⟨first, initial, made⟩ := except_bind_eq_ok.mp made
  obtain ⟨second, grouped, made⟩ := except_bind_eq_ok.mp made
  have created : ∃ v o, Consistent True first v o ∧ Housed first v o := initdb_consistent initial
  obtain ⟨v₀, o₀, consistent₀, -⟩ := created
  obtain ⟨v₁, o₁, consistent₁, -⟩ := iNewEntry_consistent consistent₀ grouped
  obtain ⟨v, o, consistent, -⟩ := newEntry_consistent consistent₁ made
  obtain ⟨inside, here, id⟩ := consistent.settled.findByID found some
  obtain ⟨alist, got, inIt⟩ :=
    (claim db v consistent.settled consistent.symmetric b here user named authUserId (by decide)).mp asked
  obtain ⟨alist', got', meaning⟩ := consistent.sound.getList here true
  cases got.symm.trans got'
  have linked := (consistent.sound.roles.contLists b here).values
  rw [show db.load (.next b) = 0 from single] at linked
  apply out
  rw [List.mem_append]
  rcases (meaning authUserId).mp inIt with listed | ⟨-, special⟩
  · rw [mem_ids, linked.eq_nil] at listed
    exact .inl (listed.resolve_right (by simp))
  · exact .inr special

end OpenAFS.Ptserver
