import OpenAFS.Budb.Removal

namespace OpenAFS.Budb

open Lib List

variable {κ : Type} {ty : EntryType κ} {keyOf : Nat → κ} {db db' : Db} {v v' : View} {new old : List Nat}

structure Whole (ty : EntryType κ) (keyOf : Nat → κ) (db : Db) (v : View) (new old : List Nat) : Prop where
  layout : Layout ty db v
  chains : Chains ty keyOf db v new old
  entries : db.ht.entries = v.cells.length
  progress : db.ht.progress = db.mht.progress
  within : db.mht.lengthOf true ≠ 0 → db.mht.progress < db.mht.lengthOf true

structure Carried (ty : EntryType κ) (db : Db) (v : View) (db' : Db) (v' : View) : Prop where
  cells : v'.cells = v.cells
  owned : v'.owned = v.owned
  keys : ∀ ea ∈ v.cells, ty.key (db'.entry ea) = ty.key (db.entry ea)
  threads : ∀ ea ∈ v.cells, db'.thread ty ea = db.thread ty ea

theorem Carried.rfl' : Carried ty db v db v := ⟨rfl, rfl, fun _ _ => rfl, fun _ _ => rfl⟩

theorem Whole.adjust (whole : Whole ty keyOf db v new old) (known : ∀ ea ∈ v.cells, ty.key (db.entry ea) = keyOf ea) :
    ∃ v' new' old', Whole ty keyOf db.htMaybeAdjust v' new' old' ∧ Carried ty db v db.htMaybeAdjust v' := by
  have lay := whole.layout
  unfold Db.htMaybeAdjust
  by_cases busy : db.mht.oldLength ≠ 0
  · rw [if_pos busy]
    exact ⟨v, new, old, whole, Carried.rfl'⟩
  rw [if_neg busy]
  have none : db.mht.oldLength = 0 := not_not.mp busy
  split
  · have noBlocks : v.oldB = [] := by
      have length : db.mht.oldLength = v.oldB.length * nHTBuckets := (lay.table true).length_eq
      rw [none] at length
      apply eq_nil_of_length_eq_zero
      exact (Nat.mul_eq_zero.mp length.symm).resolve_right (by decide)
    have noOld : old = [] := whole.chains.oldEmpty none
    have agree : db.mht.lengthOf false = db.ht.length := lay.sameLength false
    have length : db.ht.length = v.newB.length * nHTBuckets := agree ▸ (lay.table false).length_eq
    have emptyNew : (htResetT db.mht.blocks 0).blocks = .none := htResetT_nil (lay.cached false)
    have emptyOld : db.mht.oldBlocks.blocks = .none := (lay.cached true).free noBlocks
    have oldArray : htResetT db.mht.oldBlocks db.ht.length = db.mht.oldBlocks := by
      unfold htResetT
      rw [emptyOld]
    have nil (array : BlockArray) (B : List Nat) (null : array.blocks = .none) : Cached db.disk array B := by
      obtain ⟨size, blocks⟩ := array
      cases null
      exact Cached.none db.disk size B
    refine ⟨{ v with newB := [], oldB := v.newB }, [], new, ⟨⟨?_, ?_, ?_, lay.free, ?_, ?_, lay.eof, lay.placed, lay.apart⟩,
      ⟨?_, ?_, ?_, fun _ => rfl, ?_, ?_, ?_⟩, whole.entries, rfl, ?_⟩, rfl, rfl, fun _ _ => rfl, fun _ _ => rfl⟩
    · intro old
      cases old <;> rfl
    · intro old
      cases old
      · exact ⟨rfl, (Nat.zero_mul _).symm⟩
      · exact ⟨(lay.table false).chain, length⟩
    · intro old
      cases old
      · exact nil _ _ emptyNew
      · change Cached db.disk (htResetT db.mht.oldBlocks db.ht.length) v.newB
        rw [oldArray]
        exact nil _ _ emptyOld
    · intro a inside
      apply lay.block
      simp only [View.all, mem_append, not_mem_nil, false_or] at inside ⊢
      tauto
    · have nodup := lay.nodup
      unfold View.all at nodup ⊢
      rw [noBlocks] at nodup
      simpa using nodup
    · have cells := whole.chains.cells
      rw [noOld, append_nil] at cells
      exact cells
    · intro i within
      exact absurd within (Nat.not_lt_zero _)
    · intro i within
      have linked := whole.chains.newTable i (show i < db.mht.lengthOf false from agree.symm ▸ within)
      simp only [agree] at linked
      exact Linked.of_values (n := db.load ty v (.head false i)) linked.values rfl
    · intro zero
      exact whole.chains.newEmpty (agree.trans zero)
    · exact fun _ _ => Nat.zero_le _
    · exact fun ea inside => known ea (whole.chains.inNew inside)
    · intro some
      exact Nat.pos_of_ne_zero some
  · exact ⟨v, new, old, whole, Carried.rfl'⟩

theorem Whole.ensureTable (whole : Whole ty keyOf db v new old) :
    ∃ db' v', (if db.mht.length = 0 then db.htAllocTable ty else .ok db) = .ok db' ∧ Whole ty keyOf db' v' new old ∧
      Carried ty db v db' v' ∧ db'.mht.lengthOf false ≠ 0 := by
  by_cases none : db.mht.length = 0
  · obtain ⟨db', newB, free, done, made⟩ := whole.layout.allocTable none
    obtain ⟨table, length, ht⟩ := made.ht
    have noNew : new = [] := whole.chains.newEmpty none
    have oldLength : db'.mht.lengthOf true = db.mht.lengthOf true := made.oldLength
    refine ⟨db', { v with newB, free }, by rw [if_pos none]; exact done,
      ⟨made.layout, ⟨whole.chains.cells, ?_, ?_, ?_, ?_, ?_, ?_⟩, ?_, ?_, ?_⟩, ⟨rfl, rfl, ?_, ?_⟩, made.some⟩
    · intro i within
      rw [noNew]
      exact made.empty i within
    · rw [oldLength]
      refine whole.chains.oldTable.congr made.heads (fun c inside => ?_) fun _ _ => rfl
      exact (made.cells c (whole.chains.inOld inside)).2
    · exact fun zero => absurd zero made.some
    · rw [oldLength]
      exact whole.chains.oldEmpty
    · rw [oldLength, made.progress]
      exact whole.chains.passed
    · intro ea inside
      exact (made.cells ea (whole.chains.inOld inside)).1.trans (whole.chains.known ea inside)
    · rw [ht]
      exact whole.entries
    · rw [ht, made.progress]
      exact whole.progress
    · rw [oldLength, made.progress]
      exact whole.within
    · exact fun ea cell => (made.cells ea cell).1
    · exact fun ea cell => (made.cells ea cell).2
  · exact ⟨db, v, if_neg none, whole, Carried.rfl', none⟩

theorem Chains.rekey {keyOf' : Nat → κ} (chains : Chains ty keyOf db v new old) (same : ∀ c ∈ v.cells, keyOf' c = keyOf c) :
    Chains ty keyOf' db v new old := by
  have hash (c : Nat) (cell : c ∈ v.cells) : hashOf ty keyOf' c = hashOf ty keyOf c := congrArg ty.hashFunction (same c cell)
  refine ⟨chains.cells, ?_, ?_, chains.newEmpty, chains.oldEmpty, ?_, ?_⟩
  · refine chains.newTable.congr (fun _ _ => rfl) (fun _ _ => rfl) ?_
    intro c inside
    rw [hash c (chains.inNew inside)]
  · refine chains.oldTable.congr (fun _ _ => rfl) (fun _ _ => rfl) ?_
    intro c inside
    rw [hash c (chains.inOld inside)]
  · intro c inside
    rw [hash c (chains.inOld inside)]
    exact chains.passed c inside
  · intro c inside
    rw [same c (chains.inOld inside)]
    exact chains.known c inside

theorem Whole.rekey {keyOf' : Nat → κ} (whole : Whole ty keyOf db v new old) (same : ∀ c ∈ v.cells, keyOf' c = keyOf c) :
    Whole ty keyOf' db v new old :=
  ⟨whole.layout, whole.chains.rekey same, whole.entries, whole.progress, whole.within⟩

structure Inserted (ty : EntryType κ) (keyOf : Nat → κ) (db : Db) (v : View) (ea : Nat) (e : Nat → Nat) (db' : Db)
    (e' : Nat → Nat) (v' : View) (new' old' : List Nat) : Prop where
  whole : Whole ty keyOf db' v' new' old'
  cells : v'.cells = ea :: v.cells
  owned : v'.owned = v.owned
  keys : ∀ c ∈ v.cells, ty.key (db'.entry c) = ty.key (db.entry c)
  inNew : ea ∈ new'
  thread : db'.thread ty ea = e' ty.threadOffset
  data : ∀ i ≠ ty.threadOffset, e' i = e i
  some : db'.mht.lengthOf false ≠ 0

variable {ea : Nat}

theorem Whole.insert {e : Nat → Nat} (whole : Whole ty keyOf db v new old)
    (known : ∀ c ∈ v.cells, ty.key (db.entry c) = keyOf c) (home : Placed ty v.owned ea)
    (apart : ∀ c ∈ v.cells, Apart ty ea c) (key : keyOf ea = ty.key e) :
    ∃ db' e' v' new' old', db.insert ty ea e = .ok (db', e') ∧ Inserted ty keyOf db v ea e db' e' v' new' old' := by
  obtain ⟨v₁, new₁, old₁, whole₁, carried₁⟩ := whole.adjust known
  obtain ⟨db₂, v₂, done₂, whole₂, carried₂, some₂⟩ := whole₁.ensureTable
  have cells₂ : v₂.cells = v.cells := carried₂.cells.trans carried₁.cells
  have owned₂ : v₂.owned = v.owned := carried₂.owned.trans carried₁.owned
  obtain ⟨db₃, bi, bo, done₃, kept₃, disk₃, lay₃, loaded, small, index⟩ := whole₂.layout.getTableBlock
    (Db.htHashEntry ty e) some₂ (fun no => nomatch no)
  have chains₃ := whole₂.chains.read kept₃ disk₃
  have hash : Db.htHashEntry ty e = hashOf ty keyOf ea := congrArg ty.hashFunction key.symm
  have layNew : Layout ty db₃ (v₂.withCells (ea :: v₂.cells)) := by
    refine lay₃.withCells ?_ (List.pairwise_cons.mpr ⟨?_, lay₃.apart⟩)
    · intro c member
      rcases List.mem_cons.mp member with rfl | old
      · rw [owned₂]
        exact home
      · exact lay₃.placed c old
    · rw [cells₂]
      exact apart
  have fresh : ea ∉ v₂.cells := (List.nodup_cons.mp layNew.cells_nodup).1
  obtain ⟨db₄, done₄, stored₄, lay₄⟩ := layNew.setThread (show ea ∈ _ from mem_cons_self) (db₃.bucket false bi bo)
  obtain ⟨db₅, done₅, stored₅, lay₅⟩ := lay₄.setBucket (stored₄.kept.loaded false bi loaded) small ea
  have kept₅ := stored₄.kept.trans stored₅.kept
  have index₃ : bi * nHTBuckets + bo = hashOf ty keyOf ea % db₃.mht.lengthOf false := by
    rw [index, hash, kept₃.lengthOf]
  have linkUsed : (Slot.link ea).InUse db₃ (v₂.withCells (ea :: v₂.cells)) := mem_cons_self
  have others (s : Slot) (used : s.InUse db₃ (v₂.withCells (ea :: v₂.cells))) (a : s ≠ .link ea)
      (b : s ≠ .head false (bi * nHTBuckets + bo)) : db₅.load ty v₂ s = db₃.load ty v₂ s := by
    have last := stored₅.others s (used.keep stored₄.kept) b
    have first := stored₄.others s used a
    rw [load_withCells] at last first
    rw [last, load_withCells, first, load_withCells]
  have head : db₅.load ty v₂ (.head false (bi * nHTBuckets + bo)) = ea := by
    have here := stored₅.here
    rwa [load_withCells] at here
  have link : db₅.load ty v₂ (.link ea) = db₃.bucket false bi bo := by
    have last := stored₅.others _ (linkUsed.keep stored₄.kept) (by simp)
    have here := stored₄.here
    rw [load_withCells] at last here
    rw [last, load_withCells, here]
  have keys (c : Nat) (cell : c ∈ v₂.cells) : ty.key (db₅.entry c) = ty.key (db₂.entry c) := by
    have same : db₃.entry c = db₂.entry c := by
      unfold Db.entry
      rw [disk₃]
    rw [stored₅.keys c (mem_cons_of_mem _ cell), stored₄.keys c (mem_cons_of_mem _ cell), same]
  have chains : Chains ty keyOf db₅ (v₂.withCells (ea :: v₂.cells)) (ea :: new₁) old₁ := by
    refine ⟨chains₃.cells.cons ea, ?_, ?_, ?_, ?_, ?_, ?_⟩
    · rw [load_withCells, kept₅.lengthOf]
      refine chains₃.newTable.push (layNew.cell_ne_zero linkUsed) ?_ ?_ ?_ ?_ fun _ _ => rfl
      · rw [← index₃]
        exact head
      · rw [← index₃, link]
        exact lay₃.bucket_eq loaded small
      · intro i known other
        rw [← index₃] at other
        exact others _ known (by simp) (by simpa using other)
      · intro c inside
        have cell := chains₃.inNew inside
        refine others _ (mem_cons_of_mem _ cell) ?_ (by simp)
        intro same
        exact fresh (Slot.link_injective same ▸ cell)
    · rw [load_withCells, kept₅.lengthOf]
      refine chains₃.oldTable.congr (fun i known => others _ known (by simp) (by simp)) ?_ fun _ _ => rfl
      intro c inside
      have cell := chains₃.inOld inside
      refine others _ (mem_cons_of_mem _ cell) ?_ (by simp)
      intro same
      exact fresh (Slot.link_injective same ▸ cell)
    · intro zero
      rw [kept₅.lengthOf, kept₃.lengthOf] at zero
      exact absurd zero some₂
    · rw [kept₅.lengthOf]
      exact chains₃.oldEmpty
    · rw [kept₅.lengthOf, kept₅.progress]
      exact chains₃.passed
    · intro c inside
      have cell := chains₃.inOld inside
      exact (keys c cell).trans (whole₂.chains.known c inside)
  refine ⟨{ db₅ with ht.entries := db₅.ht.entries + 1 }, Function.update e ty.threadOffset (db₃.bucket false bi bo),
    v₂.withCells (ea :: v₂.cells), ea :: new₁, old₁, ?_, ⟨⟨lay₅.setEntries _, ?_, ?_, ?_, ?_⟩, ?_, owned₂, ?_,
    mem_cons_self, ?_, ?_, ?_⟩⟩
  · refine optional_then.mpr ⟨db₂, done₂, except_bind_eq_ok.mpr ⟨_, done₃, ?_⟩⟩
    refine except_bind_eq_ok.mpr ⟨db₄, ?_, except_bind_eq_ok.mpr ⟨db₅, done₅, rfl⟩⟩
    rw [Function.update_self]
    exact done₄
  · exact chains.congr (fun old => by cases old <;> rfl) rfl (fun _ _ => rfl) fun _ _ => rfl
  · change db₅.ht.entries + 1 = (ea :: v₂.cells).length
    rw [kept₅.ht, kept₃.ht, whole₂.entries, length_cons]
  · change db₅.ht.progress = db₅.mht.progress
    rw [kept₅.ht, kept₃.ht, kept₅.progress, kept₃.progress]
    exact whole₂.progress
  · intro some
    change db₅.mht.progress < db₅.mht.lengthOf true
    rw [kept₅.progress, kept₃.progress, kept₅.lengthOf, kept₃.lengthOf]
    refine whole₂.within ?_
    rw [← kept₃.lengthOf, ← kept₅.lengthOf]
    exact some
  · change ea :: v₂.cells = ea :: v.cells
    rw [cells₂]
  · intro c cell
    refine (keys c (cells₂ ▸ cell)).trans ?_
    rw [carried₂.keys c (carried₁.cells ▸ cell), carried₁.keys c cell]
  · rw [Function.update_self]
    exact link
  · intro i other
    exact Function.update_of_ne other ..
  · change db₅.mht.lengthOf false ≠ 0
    rw [kept₅.lengthOf, kept₃.lengthOf]
    exact some₂

theorem Whole.moveEntries (whole : Whole ty keyOf db v new old) (some : db.mht.lengthOf false ≠ 0) :
    ∃ db' v' new' old', db.htMoveEntries ty = .ok db' ∧ Whole ty keyOf db' v' new' old' ∧ v'.cells = v.cells ∧
      v'.owned = v.owned ∧ (∀ ea ∈ v.cells, ty.key (db'.entry ea) = ty.key (db.entry ea)) ∧
      ∀ ea ∈ new, db'.thread ty ea = db.thread ty ea := by
  unfold Db.htMoveEntries
  by_cases none : db.mht.oldLength = 0
  · exact ⟨db, v, new, old, if_pos none, whole, rfl, rfl, fun _ _ => rfl, fun _ _ => rfl⟩
  rw [if_neg none]
  obtain ⟨db₁, new₁, old₁, done₁, advanced⟩ := moveSome_advanced whole.layout whole.chains some (whole.within none)
  have entries : db₁.ht.entries = v.cells.length := by
    rw [advanced.ht]
    exact whole.entries
  by_cases end_ : db₁.mht.oldLength ≤ db₁.mht.progress
  · have noOld : old₁ = [] := advanced.chains.all_passed end_
    have header : db₁.ht.oldLength ≠ 0 := by
      have agree : db₁.mht.oldLength = db₁.ht.oldLength := advanced.layout.sameLength true
      rw [← agree]
      have same : db₁.mht.oldLength = db.mht.oldLength := advanced.lengthOf true
      rw [same]
      exact none
    obtain ⟨db₂, done₂, freed⟩ := advanced.layout.freeTable header
    refine ⟨db₂, _, new₁, [], except_bind_eq_ok.mpr ⟨db₁, done₁, (if_pos end_).trans done₂⟩,
      ⟨freed.layout, ⟨?_, ?_, ?_, ?_, fun _ => rfl, ?_, ?_⟩, ?_, ?_, ?_⟩, rfl, rfl, ?_, ?_⟩
    · have cells := advanced.chains.cells
      rw [noOld] at cells
      exact cells
    · rw [freed.lengthOf]
      refine advanced.chains.newTable.congr freed.heads (fun c inside => ?_) fun _ _ => rfl
      exact (freed.cells c (advanced.chains.inNew inside)).2
    · intro i within
      have zero : db₂.mht.lengthOf true = 0 := freed.oldLength
      rw [zero] at within
      exact absurd within (Nat.not_lt_zero _)
    · rw [freed.lengthOf]
      exact advanced.chains.newEmpty
    · intro c inside
      cases inside
    · intro c inside
      cases inside
    · rw [freed.ht]
      exact entries
    · rw [freed.ht, freed.progress]
    · exact fun some => absurd freed.oldLength some
    · exact fun ea cell => (freed.cells ea cell).1.trans (advanced.keys ea cell)
    · intro ea inside
      exact (freed.cells ea (whole.chains.inNew inside)).2.trans (advanced.threads ea inside)
  · refine ⟨{ db₁ with ht.progress := db₁.mht.progress }, v, new₁, old₁,
      except_bind_eq_ok.mpr ⟨db₁, done₁, if_neg end_⟩, ⟨?_, ?_, entries, rfl, fun _ => ?_⟩, rfl, rfl, advanced.keys,
      advanced.threads⟩
    · have lay := advanced.layout
      refine ⟨?_, ?_, lay.cached, lay.free, lay.block, lay.nodup, lay.eof, lay.placed, lay.apart⟩
      · intro old
        cases old
        · exact lay.sameLength false
        · exact lay.sameLength true
      intro old
      cases old
      · exact lay.table false
      · exact lay.table true
    · exact advanced.chains.congr (fun old => by cases old <;> rfl) rfl (fun _ _ => rfl) fun _ _ => rfl
    · exact Nat.not_le.mp end_

theorem Whole.hashIn {e : Nat → Nat} (whole : Whole ty keyOf db v new old)
    (known : ∀ c ∈ v.cells, ty.key (db.entry c) = keyOf c) (home : Placed ty v.owned ea)
    (apart : ∀ c ∈ v.cells, Apart ty ea c) (key : keyOf ea = ty.key e) :
    ∃ db' e' v' new' old', db.htHashIn ty ea e = .ok (db', e') ∧ Whole ty keyOf db' v' new' old' ∧
      v'.cells = ea :: v.cells ∧ v'.owned = v.owned ∧ (∀ c ∈ v.cells, ty.key (db'.entry c) = keyOf c) ∧
      db'.thread ty ea = e' ty.threadOffset ∧ ∀ i ≠ ty.threadOffset, e' i = e i := by
  obtain ⟨db₁, e', v₁, new₁, old₁, done₁, inserted⟩ := whole.insert known home apart key
  obtain ⟨db₂, v₂, new₂, old₂, done₂, whole₂, cells, owned, keys, threads⟩ :=
    inserted.whole.moveEntries inserted.some
  refine ⟨db₂, e', v₂, new₂, old₂, except_bind_eq_ok.mpr ⟨_, done₁, except_bind_eq_ok.mpr ⟨db₂, done₂, rfl⟩⟩, whole₂,
    cells.trans inserted.cells, owned.trans inserted.owned, ?_, ?_, inserted.data⟩
  · intro c cell
    rw [keys c (inserted.cells ▸ mem_cons_of_mem _ cell), inserted.keys c cell]
    exact known c cell
  · exact (threads ea inserted.inNew).trans inserted.thread

theorem Removed.whole (whole : Whole ty keyOf db v new old) (removed : Removed ty keyOf db v new old ea db')
    (cell : ea ∈ v.cells) :
    Whole ty keyOf db' (v.withCells (v.cells.filter fun c => c ≠ ea)) (new.filter fun c => c ≠ ea)
      (old.filter fun c => c ≠ ea) := by
  refine ⟨removed.layout, removed.chains, ?_, ?_, ?_⟩
  · have count := (perm_cons_filter_ne cell whole.layout.cells_nodup).length_eq
    rw [length_cons] at count
    rw [removed.ht]
    change db.ht.entries - 1 = (v.cells.filter fun c => c ≠ ea).length
    rw [whole.entries]
    omega
  · rw [removed.ht, removed.progress]
    exact whole.progress
  · rw [removed.lengthOf, removed.progress]
    exact whole.within

theorem Whole.remove (whole : Whole ty keyOf db v new old)
    (known : ∀ c ∈ v.cells, ty.key (db.entry c) = keyOf c) (cell : ea ∈ v.cells) :
    ∃ db' done new' old', db.remove ty ea (db.entry ea) = .ok (db', done) ∧
      Whole ty keyOf db' (v.withCells (v.cells.filter fun c => c ≠ ea)) new' old' ∧
      (∀ c ∈ v.cells, ty.key (db'.entry c) = ty.key (db.entry c)) ∧ (done = false → db'.mht.lengthOf false ≠ 0) := by
  have hash : Db.htHashEntry ty (db.entry ea) = hashOf ty keyOf ea := congrArg ty.hashFunction (known ea cell)
  unfold Db.remove
  rw [hash]
  rcases List.mem_append.mp (whole.chains.cells.mem_iff.mp cell) with inNew | inOld
  · -- the old table, if there is one, does not have it
    obtain ⟨db₁, done₁, kept, disk, lay⟩ : ∃ db₁,
        (if db.mht.oldLength ≠ 0 then db.htHashOutT ty (hashOf ty keyOf ea) ea (db.entry ea) true else .ok (db, false)) =
          .ok (db₁, false) ∧ Kept db db₁ ∧ db₁.disk = db.disk ∧ Layout ty db₁ v := by
      by_cases two : db.mht.oldLength ≠ 0
      · rw [if_pos two]
        refine hashOutT_missing true (db.entry ea) whole.layout whole.chains ?_
        intro again
        have both := List.nodup_append.mp (whole.chains.cells.nodup_iff.mp whole.layout.cells_nodup)
        exact both.2.2 ea inNew ea again rfl
      · exact ⟨db, if_neg two, Kept.refl db, rfl, whole.layout⟩
    have whole₁ : Whole ty keyOf db₁ v new old := by
      refine ⟨lay, whole.chains.read kept disk, ?_, ?_, ?_⟩
      · rw [kept.ht]
        exact whole.entries
      · rw [kept.ht, kept.progress]
        exact whole.progress
      · rw [kept.lengthOf, kept.progress]
        exact whole.within
    have entry : db₁.entry = db.entry := by
      funext c i
      unfold Db.entry
      rw [disk]
    obtain ⟨db₂, done₂, removed⟩ := hashOutT_found false lay whole₁.chains inNew
    rw [entry] at done₂
    have some : db₁.mht.lengthOf false ≠ 0 := by
      intro zero
      rw [whole₁.chains.newEmpty zero] at inNew
      cases inNew
    refine ⟨db₂, false, _, _, optional_then.mpr ⟨_, done₁, ?_⟩, removed.whole whole₁ cell, ?_, fun _ => ?_⟩
    · refine except_bind_eq_ok.mpr ⟨(), ensure_eq_ok.mpr some, except_bind_eq_ok.mpr ⟨_, done₂, ?_⟩⟩
      exact except_bind_eq_ok.mpr ⟨(), ensure_eq_ok.mpr rfl, rfl⟩
    · intro c member
      rw [removed.keys c member, entry]
    · rw [removed.lengthOf]
      exact some
  · have two : db.mht.oldLength ≠ 0 := by
      intro zero
      rw [whole.chains.oldEmpty zero] at inOld
      cases inOld
    obtain ⟨db₁, done₁, removed⟩ := hashOutT_found true whole.layout whole.chains inOld
    refine ⟨db₁, true, _, _, ?_, removed.whole whole cell, removed.keys, fun no => nomatch no⟩
    exact optional_then.mpr ⟨_, by rw [if_pos two]; exact done₁, rfl⟩

theorem Whole.hashOut (whole : Whole ty keyOf db v new old)
    (known : ∀ c ∈ v.cells, ty.key (db.entry c) = keyOf c) (cell : ea ∈ v.cells) :
    ∃ db' v' new' old', db.htHashOut ty ea (db.entry ea) = .ok db' ∧ Whole ty keyOf db' v' new' old' ∧
      v'.cells = (v.cells.filter fun c => c ≠ ea) ∧ v'.owned = v.owned ∧ ∀ c ∈ v'.cells, ty.key (db'.entry c) = keyOf c := by
  obtain ⟨db₁, done, new₁, old₁, done₁, whole₁, keys₁, some₁⟩ := whole.remove known cell
  have fewer : ∀ c ∈ v.cells.filter fun c => c ≠ ea, c ∈ v.cells := fun c member => mem_of_mem_filter member
  cases done with
  | true =>
    refine ⟨db₁, _, new₁, old₁, except_bind_eq_ok.mpr ⟨_, done₁, rfl⟩, whole₁, rfl, rfl, ?_⟩
    intro c member
    rw [keys₁ c (fewer c member)]
    exact known c (fewer c member)
  | false =>
    obtain ⟨db₂, v₂, new₂, old₂, done₂, whole₂, cells₂, owned₂, keys₂, -⟩ := whole₁.moveEntries (some₁ rfl)
    have known₂ : ∀ c ∈ v₂.cells, ty.key (db₂.entry c) = keyOf c := by
      intro c member
      rw [cells₂] at member
      rw [keys₂ c member, keys₁ c (fewer c member)]
      exact known c (fewer c member)
    obtain ⟨v₃, new₃, old₃, whole₃, carried⟩ := whole₂.adjust known₂
    refine ⟨_, v₃, new₃, old₃, except_bind_eq_ok.mpr ⟨_, done₁, except_bind_eq_ok.mpr ⟨db₂, done₂, rfl⟩⟩, whole₃,
      carried.cells.trans cells₂, carried.owned.trans owned₂, ?_⟩
    intro c member
    rw [carried.cells] at member
    rw [carried.keys c member]
    exact known₂ c member

end OpenAFS.Budb
