import OpenAFS.Budb.Moves

namespace OpenAFS.Budb

open Lib List

variable {κ : Type} {ty : EntryType κ} {keyOf : Nat → κ} {db db' : Db} {v : View} {new old : List Nat}

namespace Chains

theorem table (chains : Chains ty keyOf db v new old) (side : Bool) :
    Buckets (db.load ty v) .link (.head side) (· < db.mht.lengthOf side)
      (fun ea => hashOf ty keyOf ea % db.mht.lengthOf side) (cond side old new) := by
  cases side
  · exact chains.newTable
  · exact chains.oldTable

theorem onSide (chains : Chains ty keyOf db v new old) {side : Bool} {ea : Nat} (inside : ea ∈ cond side old new) : ea ∈ v.cells := by
  cases side
  · exact chains.inNew inside
  · exact chains.inOld inside

end Chains

def chainOf (ty : EntryType κ) (keyOf : Nat → κ) (db : Db) (side : Bool) (cells : List Nat) (i : Nat) : List Nat :=
  cells.filter fun c => hashOf ty keyOf c % db.mht.lengthOf side = i

variable {side : Bool} {cells after : List Nat} {ea ta : Nat}

theorem mem_chainOf {i : Nat} :
    ea ∈ chainOf ty keyOf db side cells i ↔ ea ∈ cells ∧ hashOf ty keyOf ea % db.mht.lengthOf side = i := by
  unfold chainOf
  rw [mem_filter, decide_eq_true_eq]

theorem Layout.cells_lt_eofPtr (lay : Layout ty db v) (once : cells.Nodup) (inside : cells ⊆ v.cells) :
    cells.length < db.eofPtr := by
  have below : ∀ x ∈ 0 :: cells, x < db.eofPtr := by
    intro x member
    rcases List.mem_cons.mp member with rfl | cell
    · have behind := lay.eof.1
      unfold sizeofDbHeader at behind
      omega
    · have := (lay.cell_inside (inside cell) (lt_of_le_of_lt (Nat.zero_le _) ty.threadInside)).2
      omega
  have nodup : (0 :: cells).Nodup := List.nodup_cons.mpr ⟨fun zero => lay.cell_ne_zero (inside zero) rfl, once⟩
  exact length_le_of_nodup nodup below

theorem removeAfter_found (thread fuel : Nat) {mid : List Nat} {c : Nat} (lay : Layout ty db v)
    (linked : Linked (db.load ty v) .link (.link c) (mid ++ ta :: after)) (fresh : ta ∉ mid) (cell : c ∈ v.cells)
    (cells : ∀ b ∈ mid, b ∈ v.cells) (enough : mid.length < fuel) :
    ∃ db', db.removeAfter ty ta thread c fuel = .ok (some db') ∧
      Stored ty db v (slotAfter .link (.link c) mid) thread db' ∧ Layout ty db' v := by
  induction mid generalizing c fuel with
  | nil =>
    obtain ⟨fuel, rfl⟩ := Nat.exists_eq_succ_of_ne_zero (Nat.ne_of_gt enough)
    obtain ⟨db', done, stored, lay'⟩ := lay.setThread cell thread
    have here : db.thread ty c = ta := linked.1
    refine ⟨db', ?_, stored, lay'⟩
    refine except_bind_eq_ok.mpr ⟨(), ensure_eq_ok.mpr (lay.cell_inside cell ty.threadInside).2, ?_⟩
    rw [here, if_neg linked.2.1, if_pos rfl]
    exact except_bind_eq_ok.mpr ⟨db', done, rfl⟩
  | cons b mid ih =>
    obtain ⟨fuel, rfl⟩ := Nat.exists_eq_succ_of_ne_zero (Nat.ne_of_gt (Nat.lt_of_le_of_lt (Nat.zero_le _) enough))
    rw [length_cons] at enough
    have here : db.thread ty c = b := linked.1
    have other : b ≠ ta := fun same => fresh (same ▸ mem_cons_self)
    obtain ⟨db', done, stored, lay'⟩ := ih fuel linked.2.2 (fun again => fresh (mem_cons_of_mem _ again))
      (cells b mem_cons_self) (fun d member => cells d (mem_cons_of_mem _ member)) (by omega)
    refine ⟨db', ?_, stored, lay'⟩
    refine except_bind_eq_ok.mpr ⟨(), ensure_eq_ok.mpr (lay.cell_inside cell ty.threadInside).2, ?_⟩
    rw [here, if_neg linked.2.1, if_neg other]
    exact done

theorem removeAfter_missing {rest : List Nat} {c thread fuel : Nat} (lay : Layout ty db v)
    (linked : Linked (db.load ty v) .link (.link c) rest) (missing : ta ∉ rest) (cell : c ∈ v.cells)
    (cells : ∀ b ∈ rest, b ∈ v.cells) (enough : rest.length < fuel) : db.removeAfter ty ta thread c fuel = .ok none := by
  induction rest generalizing c fuel with
  | nil =>
    obtain ⟨fuel, rfl⟩ := Nat.exists_eq_succ_of_ne_zero (Nat.ne_of_gt enough)
    have here : db.thread ty c = 0 := linked
    refine except_bind_eq_ok.mpr ⟨(), ensure_eq_ok.mpr (lay.cell_inside cell ty.threadInside).2, ?_⟩
    rw [here, if_pos rfl]
  | cons b rest ih =>
    obtain ⟨fuel, rfl⟩ := Nat.exists_eq_succ_of_ne_zero (Nat.ne_of_gt (Nat.lt_of_le_of_lt (Nat.zero_le _) enough))
    rw [length_cons] at enough
    have here : db.thread ty c = b := linked.1
    have other : b ≠ ta := fun same => missing (same ▸ mem_cons_self)
    refine except_bind_eq_ok.mpr ⟨(), ensure_eq_ok.mpr (lay.cell_inside cell ty.threadInside).2, ?_⟩
    rw [here, if_neg linked.2.1, if_neg other]
    exact ih linked.2.2 (fun again => missing (mem_cons_of_mem _ again)) (cells b mem_cons_self)
      (fun d member => cells d (mem_cons_of_mem _ member)) (by omega)

theorem removeFromList_found (thread : Nat) {bi bo : Nat} {before : List Nat} (lay : Layout ty db v)
    (loaded : db.Loaded side bi) (small : bo < nHTBuckets)
    (linked : Linked (db.load ty v) .link (.head side (bi * nHTBuckets + bo)) (before ++ ta :: after))
    (cells : ∀ b ∈ before ++ ta :: after, b ∈ v.cells) :
    ∃ db', db.removeFromList ty side bi bo ta thread = .ok (some db') ∧
      Stored ty db v (slotAfter .link (.head side (bi * nHTBuckets + bo)) before) thread db' ∧ Layout ty db' v := by
  have once := linked.nodup
  have few := lay.cells_lt_eofPtr once cells
  have bucket := lay.bucket_eq loaded small
  unfold Db.removeFromList
  extract_lets head
  have shape : head = db.load ty v (.head side (bi * nHTBuckets + bo)) := bucket
  cases before with
  | nil =>
    obtain ⟨db', done, stored, lay'⟩ := lay.setBucket loaded small thread
    have here : head = ta := shape.trans linked.1
    refine ⟨db', ?_, stored, lay'⟩
    rw [if_neg (by rw [here]; exact linked.2.1), if_pos here]
    exact except_bind_eq_ok.mpr ⟨db', done, rfl⟩
  | cons b mid =>
    have here : head = b := shape.trans linked.1
    have apart := List.nodup_cons.mp once
    have other : b ≠ ta := fun same => apart.1 (same ▸ by simp)
    have middle := List.nodup_append.mp apart.2
    simp only [cons_append, length_cons, length_append] at few
    obtain ⟨db', done, stored, lay'⟩ := removeAfter_found thread db.eofPtr lay linked.2.2
      (fun again => middle.2.2 ta again ta mem_cons_self rfl) (cells b (by simp)) (fun d member => cells d (by simp [member]))
      (by omega)
    refine ⟨db', ?_, stored, lay'⟩
    rw [if_neg (by rw [here]; exact linked.2.1), here, if_neg other]
    exact done

theorem removeFromList_missing (thread : Nat) {bi bo : Nat} (lay : Layout ty db v)
    (loaded : db.Loaded side bi) (small : bo < nHTBuckets)
    (linked : Linked (db.load ty v) .link (.head side (bi * nHTBuckets + bo)) cells) (inside : ∀ b ∈ cells, b ∈ v.cells)
    (missing : ta ∉ cells) : db.removeFromList ty side bi bo ta thread = .ok none := by
  have few := lay.cells_lt_eofPtr linked.nodup inside
  have bucket := lay.bucket_eq loaded small
  unfold Db.removeFromList
  extract_lets head
  have shape : head = db.load ty v (.head side (bi * nHTBuckets + bo)) := bucket
  cases cells with
  | nil => exact if_pos (shape.trans linked)
  | cons b rest =>
    have here : head = b := shape.trans linked.1
    have other : b ≠ ta := fun same => missing (same ▸ mem_cons_self)
    rw [length_cons] at few
    rw [if_neg (by rw [here]; exact linked.2.1), here, if_neg other]
    exact removeAfter_missing lay linked.2.2 (fun again => missing (mem_cons_of_mem _ again)) (inside b mem_cons_self)
      (fun d member => inside d (mem_cons_of_mem _ member)) (by omega)

def View.withCells (v : View) (cells : List Nat) : View := { v with cells }

theorem load_withCells (db : Db) (v : View) (cells : List Nat) : db.load ty (v.withCells cells) = db.load ty v := by
  funext s
  cases s with
  | head old i => cases old <;> rfl
  | link ea => rfl

theorem Layout.withCells (lay : Layout ty db v) (placed : ∀ ea ∈ cells, Placed ty v.owned ea)
    (apart : cells.Pairwise (Apart ty)) : Layout ty db (v.withCells cells) := by
  refine ⟨lay.sameLength, ?_, ?_, lay.free, lay.block, lay.nodup, lay.eof, placed, apart⟩
  · intro old
    cases old
    · exact lay.table false
    · exact lay.table true
  intro old
  cases old
  · exact lay.cached false
  · exact lay.cached true

theorem Layout.setEntries (lay : Layout ty db v) (entries : Nat) : Layout ty { db with ht.entries := entries } v := by
  refine ⟨?_, ?_, lay.cached, lay.free, lay.block, lay.nodup, lay.eof, lay.placed, lay.apart⟩
  · intro old
    cases old
    · exact lay.sameLength false
    · exact lay.sameLength true
  intro old
  cases old
  · exact lay.table false
  · exact lay.table true

structure Removed (ty : EntryType κ) (keyOf : Nat → κ) (db : Db) (v : View) (new old : List Nat) (ea : Nat) (db' : Db) : Prop where
  layout : Layout ty db' (v.withCells (v.cells.filter fun c => c ≠ ea))
  chains : Chains ty keyOf db' (v.withCells (v.cells.filter fun c => c ≠ ea)) (new.filter fun c => c ≠ ea) (old.filter fun c => c ≠ ea)
  ht : db'.ht = { db.ht with entries := db.ht.entries - 1 }
  lengthOf : ∀ old, db'.mht.lengthOf old = db.mht.lengthOf old
  progress : db'.mht.progress = db.mht.progress
  keys : ∀ c ∈ v.cells, ty.key (db'.entry c) = ty.key (db.entry c)

theorem Chains.remove {before : List Nat} (chains : Chains ty keyOf db v new old)
    (once : v.cells.Nodup) (within : hashOf ty keyOf ea % db.mht.lengthOf side < db.mht.lengthOf side)
    (split : chainOf ty keyOf db side (cond side old new) (hashOf ty keyOf ea % db.mht.lengthOf side) = before ++ ea :: after)
    (stored : Stored ty db v (slotAfter .link (.head side (hashOf ty keyOf ea % db.mht.lengthOf side)) before)
      (db.load ty v (.link ea)) db') :
    Chains ty keyOf db' (v.withCells (v.cells.filter fun c => c ≠ ea)) (new.filter fun c => c ≠ ea) (old.filter fun c => c ≠ ea) := by
  have both := List.nodup_append.mp (chains.cells.nodup_iff.mp once)
  have listed : ∀ b ∈ before ++ ea :: after, b ∈ cond side old new := by
    intro b member
    rw [← split] at member
    exact (mem_chainOf.mp member).1
  have taken := (chains.table side).unlink Slot.link_injective (Slot.head_injective side)
    (fun _ _ => by simp) within split stored.here (by
      rintro s (⟨k, known, rfl⟩ | ⟨c, member, -, rfl⟩) different
      · exact stored.others _ known different
      · exact stored.others _ (chains.onSide member) different)
  have other : ∀ s : Slot, s.InUse db v → (∃ k, s = .head (!side) k) ∨ (∃ c ∈ cond side new old, s = .link c) →
      db'.load ty v s = db.load ty v s := by
    intro s used which
    apply stored.others s used
    rintro rfl
    rcases @slotAfter_mem _ Slot.link (Slot.head side (hashOf ty keyOf ea % db.mht.lengthOf side)) before with
      first | ⟨b, inside, later⟩
    · rw [first] at which
      rcases which with ⟨k, same⟩ | ⟨c, -, same⟩
      · cases side <;> simp at same
      · simp at same
    rw [later] at which
    rcases which with ⟨k, same⟩ | ⟨c, member, same⟩
    · simp at same
    have here := listed b (mem_append_left _ inside)
    cases Slot.link_injective same
    cases side
    · exact both.2.2 b here b member rfl
    · exact both.2.2 b member b here rfl
  have here : ea ∈ cond side old new := listed ea (by simp)
  have tables (side' : Bool) : Buckets (db'.load ty (v.withCells (v.cells.filter fun c => c ≠ ea))) .link (.head side')
      (· < db'.mht.lengthOf side') (fun c => hashOf ty keyOf c % db'.mht.lengthOf side')
      ((cond side' old new).filter fun c => c ≠ ea) := by
    rw [load_withCells, stored.kept.lengthOf]
    by_cases same : side' = side
    · subst same
      exact taken
    have flipped : side = !side' := Bool.eq_not_of_ne (Ne.symm same)
    subst flipped
    have missing : ea ∉ cond side' old new := by
      intro again
      cases side'
      · exact both.2.2 ea again ea here rfl
      · exact both.2.2 ea here ea again rfl
    rw [filter_ne_of_notMem missing]
    refine (chains.table side').congr ?_ ?_ ?_
    · intro k known
      exact other _ known (.inl ⟨k, by rw [Bool.not_not]⟩)
    · intro c member
      refine other _ (chains.onSide member) (.inr ⟨c, ?_, rfl⟩)
      cases side' <;> exact member
    · exact fun _ _ => rfl
  refine ⟨?_, tables false, tables true, ?_, ?_, ?_, ?_⟩
  · have kept := chains.cells.filter fun c => decide (c ≠ ea)
    rw [filter_append] at kept
    exact kept
  · intro none
    rw [stored.kept.lengthOf] at none
    rw [chains.newEmpty none]
    rfl
  · intro none
    rw [stored.kept.lengthOf] at none
    rw [chains.oldEmpty none]
    rfl
  · intro c member
    rw [stored.kept.lengthOf, stored.kept.progress]
    exact chains.passed c (mem_of_mem_filter member)
  · intro c member
    have old := mem_of_mem_filter member
    exact (stored.keys c (chains.inOld old)).trans (chains.known c old)

theorem hashOutT_found (side : Bool) (lay : Layout ty db v) (chains : Chains ty keyOf db v new old)
    (here : ea ∈ cond side old new) :
    ∃ db', db.htHashOutT ty (hashOf ty keyOf ea) ea (db.entry ea) side = .ok (db', true) ∧ Removed ty keyOf db v new old ea db' := by
  have nonempty : db.mht.lengthOf side ≠ 0 := by
    intro none
    cases side
    · rw [show cond false old new = new from rfl, chains.newEmpty none] at here
      cases here
    · rw [show cond true old new = old from rfl, chains.oldEmpty none] at here
      cases here
  have within : hashOf ty keyOf ea % db.mht.lengthOf side < db.mht.lengthOf side := Nat.mod_lt _ (Nat.pos_of_ne_zero nonempty)
  obtain ⟨db₁, bi, bo, done₁, kept₁, disk₁, lay₁, loaded, small, index⟩ := lay.getTableBlock (hashOf ty keyOf ea) nonempty (by
    rintro rfl
    exact chains.passed ea here)
  have chains₁ := chains.read kept₁ disk₁
  have found : ea ∈ chainOf ty keyOf db₁ side (cond side old new) (hashOf ty keyOf ea % db₁.mht.lengthOf side) :=
    mem_chainOf.mpr ⟨here, rfl⟩
  obtain ⟨before, after, split⟩ := append_of_mem found
  have within₁ : hashOf ty keyOf ea % db₁.mht.lengthOf side < db₁.mht.lengthOf side := by
    rw [kept₁.lengthOf]
    exact within
  have linked := chains₁.table side _ within₁
  have index₁ : bi * nHTBuckets + bo = hashOf ty keyOf ea % db₁.mht.lengthOf side := by
    rw [index, kept₁.lengthOf]
  change Linked _ _ _ (chainOf ty keyOf db₁ side (cond side old new) _) at linked
  rw [split, ← index₁] at linked
  have full : db₁.bucket side bi bo ≠ 0 := by
    rw [lay₁.bucket_eq loaded small]
    intro zero
    cases before with
    | nil => exact linked.2.1 (linked.1.symm.trans zero)
    | cons b rest => exact linked.2.1 (linked.1.symm.trans zero)
  have thread : db.entry ea ty.threadOffset = db₁.load ty v (.link ea) := by
    unfold Db.load
    rw [disk₁]
    rfl
  obtain ⟨db₂, done₂, stored, lay₂⟩ := removeFromList_found (db₁.load ty v (.link ea)) lay₁ loaded small linked (by
    intro b member
    rw [← split] at member
    exact chains.onSide (mem_chainOf.mp member).1)
  rw [index₁] at stored
  have removed := chains₁.remove lay₁.cells_nodup within₁ split stored
  refine ⟨{ db₂ with ht.entries := db₂.ht.entries - 1 }, ?_, ?_, ?_, ?_, ?_, ?_, ?_⟩
  · unfold Db.htHashOutT
    rw [if_neg nonempty]
    refine except_bind_eq_ok.mpr ⟨_, done₁, ?_⟩
    change (if db₁.bucket side bi bo = 0 then _ else _) = _
    rw [if_neg full, thread]
    exact except_bind_eq_ok.mpr ⟨some db₂, done₂, rfl⟩
  · exact (lay₂.withCells (fun c member => lay.placed c (mem_of_mem_filter member)) (lay.apart.filter _)).setEntries _
  · exact removed.congr (fun old => by cases old <;> rfl) rfl (fun _ _ => rfl) fun _ _ => rfl
  · change { db₂.ht with entries := db₂.ht.entries - 1 } = _
    rw [stored.kept.ht, kept₁.ht]
  · intro old
    exact (stored.kept.lengthOf old).trans (kept₁.lengthOf old)
  · exact stored.kept.progress.trans kept₁.progress
  · intro c member
    refine (stored.keys c member).trans ?_
    unfold Db.entry
    rw [disk₁]

theorem htGetTableBlock_passed {hash : Nat} (passed : hash % db.mht.lengthOf true < db.mht.progress) :
    db.htGetTableBlock hash true = .ok (db, none) := by
  unfold Db.htGetTableBlock
  extract_lets length hi
  by_cases none : length = 0
  · rw [if_pos none]
  · rw [if_neg none, if_pos ⟨rfl, passed⟩]

theorem hashOutT_missing (side : Bool) (thread : Nat → Nat) (lay : Layout ty db v) (chains : Chains ty keyOf db v new old)
    (missing : ea ∉ cond side old new) :
    ∃ db', db.htHashOutT ty (hashOf ty keyOf ea) ea thread side = .ok (db', false) ∧ Kept db db' ∧ db'.disk = db.disk ∧
      Layout ty db' v := by
  unfold Db.htHashOutT
  by_cases zero : db.mht.lengthOf side = 0
  · exact ⟨db, if_pos zero, Kept.refl db, rfl, lay⟩
  rw [if_neg zero]
  by_cases passed : side = true ∧ hashOf ty keyOf ea % db.mht.lengthOf side < db.mht.progress
  · obtain ⟨rfl, passed⟩ := passed
    exact ⟨db, except_bind_eq_ok.mpr ⟨_, htGetTableBlock_passed passed, rfl⟩, Kept.refl db, rfl, lay⟩
  obtain ⟨db₁, bi, bo, done₁, kept₁, disk₁, lay₁, loaded, small, index⟩ := lay.getTableBlock (hashOf ty keyOf ea) zero (by
    intro side_
    exact Nat.not_lt.mp fun less => passed ⟨side_, less⟩)
  refine ⟨db₁, except_bind_eq_ok.mpr ⟨_, done₁, ?_⟩, kept₁, disk₁, lay₁⟩
  change (if db₁.bucket side bi bo = 0 then _ else _) = _
  by_cases empty : db₁.bucket side bi bo = 0
  · rw [if_pos empty]
  rw [if_neg empty]
  have chains₁ := chains.read kept₁ disk₁
  have within : bi * nHTBuckets + bo < db₁.mht.lengthOf side := by
    rw [index, kept₁.lengthOf]
    exact Nat.mod_lt _ (Nat.pos_of_ne_zero zero)
  have linked := chains₁.table side _ within
  have absent := removeFromList_missing (thread ty.threadOffset) lay₁ loaded small linked (by
    intro b member
    exact chains₁.onSide (mem_of_mem_filter member)) fun again => missing (mem_of_mem_filter again)
  exact except_bind_eq_ok.mpr ⟨none, absent, rfl⟩

end OpenAFS.Budb
