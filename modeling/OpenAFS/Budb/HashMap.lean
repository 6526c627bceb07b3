import OpenAFS.Budb.Growing

namespace OpenAFS.Budb

open Lib List

variable {κ : Type} {ty : EntryType κ} {keyOf : Nat → κ} {db db' : Db} {v : View} {new old : List Nat}

theorem Whole.read (whole : Whole ty keyOf db v new old) (kept : Kept db db') (disk : db'.disk = db.disk)
    (lay : Layout ty db' v) : Whole ty keyOf db' v new old := by
  refine ⟨lay, whole.chains.read kept disk, ?_, ?_, ?_⟩
  · rw [kept.ht]
    exact whole.entries
  · rw [kept.ht, kept.progress]
    exact whole.progress
  · rw [kept.lengthOf, kept.progress]
    exact whole.within

theorem lookupBucket_chain (lay : Layout ty db v) (chains : Chains ty keyOf db v new old) (hash : Nat) (side : Bool) :
    ∃ db' a cells, db.htLookupBucket hash side = (db', a) ∧ Kept db db' ∧ db'.disk = db.disk ∧ Layout ty db' v ∧
      Linked id (db'.thread ty) a cells ∧ cells ⊆ cond side old new ∧
      ∀ c ∈ cond side old new, hashOf ty keyOf c = hash → c ∈ cells := by
  unfold Db.htLookupBucket
  by_cases zero : db.mht.lengthOf side = 0
  · refine ⟨db, 0, [], if_pos zero, Kept.refl db, rfl, lay, rfl, nil_subset _, fun c inside => ?_⟩
    have empty : cond side old new = [] := by
      cases side
      · exact chains.newEmpty zero
      · exact chains.oldEmpty zero
    rw [empty] at inside
    cases inside
  rw [if_neg zero]
  by_cases passed : side = true ∧ hash % db.mht.lengthOf side < db.mht.progress
  · obtain ⟨rfl, passed⟩ := passed
    refine ⟨db, 0, [], by rw [htGetTableBlock_passed passed], Kept.refl db, rfl, lay, rfl, nil_subset _,
      fun c inside same => ?_⟩
    have least := chains.passed c inside
    rw [same] at least
    omega
  obtain ⟨db₁, bi, bo, done, kept, disk, lay₁, loaded, small, index⟩ := lay.getTableBlock hash zero fun side_ =>
    Nat.not_lt.mp fun less => passed ⟨side_, less⟩
  have chains₁ := chains.read kept disk
  have within : bi * nHTBuckets + bo < db₁.mht.lengthOf side := by
    rw [index, kept.lengthOf]
    exact Nat.mod_lt _ (Nat.pos_of_ne_zero zero)
  have linked := (chains₁.table side _ within).values
  refine ⟨db₁, db₁.bucket side bi bo,
    (cond side old new).filter fun c => hashOf ty keyOf c % db₁.mht.lengthOf side = bi * nHTBuckets + bo,
    by rw [done], kept, disk, lay₁, ?_, fun c member => mem_of_mem_filter member, ?_⟩
  · rw [lay₁.bucket_eq loaded small]
    exact linked
  · intro c inside same
    refine List.mem_filter.mpr ⟨inside, decide_eq_true ?_⟩
    rw [same, index, kept.lengthOf]

section

variable [DecidableEq κ]

theorem lookupList_find {cells : List Nat} {a : Nat} (fuel : Nat) (key : κ) (lay : Layout ty db v)
    (linked : Linked id (db.thread ty) a cells) (inside : cells ⊆ v.cells) (enough : cells.length < fuel) :
    db.lookupList ty key a fuel = .ok ((cells.find? fun c => ty.key (db.entry c) = key).getD 0) := by
  induction cells generalizing a fuel with
  | nil =>
    obtain ⟨fuel, rfl⟩ := Nat.exists_eq_succ_of_ne_zero (Nat.ne_of_gt enough)
    have zero : a = 0 := linked
    exact if_pos zero
  | cons c rest ih =>
    obtain ⟨fuel, rfl⟩ := Nat.exists_eq_succ_of_ne_zero (Nat.ne_of_gt (Nat.lt_of_le_of_lt (Nat.zero_le _) enough))
    obtain ⟨here, nonzero, later⟩ := linked
    change a = c at here
    subst here
    rw [length_cons] at enough
    have bounds := lay.cell_inside (inside mem_cons_self) (lt_of_le_of_lt (Nat.zero_le _) ty.threadInside)
    have rest' := ih fuel later (fun c member => inside (mem_cons_of_mem _ member)) (by omega)
    unfold Db.lookupList
    rw [if_neg nonzero]
    refine except_bind_eq_ok.mpr ⟨(), ensure_eq_ok.mpr bounds.2, ?_⟩
    by_cases same : ty.key (db.entry a) = key
    · simp [List.find?, same]
    · rw [if_neg same, rest']
      simp [List.find?, same]

theorem lookupEntry_found (lay : Layout ty db v) (chains : Chains ty keyOf db v new old)
    (known : ∀ c ∈ v.cells, ty.key (db.entry c) = keyOf c) (key : κ) :
    ∃ db' a, db.htLookupEntry ty key = .ok (db', a) ∧ Kept db db' ∧ db'.disk = db.disk ∧ Layout ty db' v ∧
      (a = 0 ∧ (∀ c ∈ v.cells, keyOf c ≠ key) ∨ a ∈ v.cells ∧ keyOf a = key) := by
  -- the walk in one of the tables
  have walk (db : Db) (side : Bool) (lay : Layout ty db v) (chains : Chains ty keyOf db v new old)
      (known : ∀ c ∈ v.cells, ty.key (db.entry c) = keyOf c) :
      ∃ db' a found, db.htLookupBucket (ty.hashFunction key) side = (db', a) ∧ Kept db db' ∧ db'.disk = db.disk ∧
        Layout ty db' v ∧ db'.lookupList ty key a db'.eofPtr = .ok found ∧
        (found = 0 ∧ (∀ c ∈ cond side old new, keyOf c ≠ key) ∨ found ∈ v.cells ∧ keyOf found = key) := by
    obtain ⟨db₁, a, cells, done, kept, disk, lay₁, linked, inside, all⟩ := lookupBucket_chain lay chains (ty.hashFunction key) side
    have inCells : cells ⊆ v.cells := fun c member => chains.onSide (inside member)
    have few := lay₁.cells_lt_eofPtr linked.nodup inCells
    have known₁ : ∀ c ∈ v.cells, ty.key (db₁.entry c) = keyOf c := by
      intro c cell
      unfold Db.entry
      rw [disk]
      exact known c cell
    refine ⟨db₁, a, _, done, kept, disk, lay₁, lookupList_find _ key lay₁ linked inCells few, ?_⟩
    cases result : cells.find? fun c => decide (ty.key (db₁.entry c) = key) with
    | none =>
      refine .inl ⟨rfl, fun c member same => ?_⟩
      have there := all c member (congrArg ty.hashFunction same)
      have other := List.find?_eq_none.mp result c there
      rw [known₁ c (inCells there), same] at other
      simp at other
    | some c =>
      have there := inCells (mem_of_find?_eq_some result)
      have same := find?_some result
      rw [known₁ c there] at same
      exact .inr ⟨there, of_decide_eq_true same⟩
  unfold Db.htLookupEntry
  obtain ⟨db₁, a₁, found₁, done₁, kept₁, disk₁, lay₁, walked₁, outcome₁⟩ := walk db false lay chains known
  rw [done₁]
  by_cases some : found₁ ≠ 0
  · refine ⟨db₁, found₁, except_bind_eq_ok.mpr ⟨found₁, walked₁, if_pos some⟩, kept₁, disk₁, lay₁, .inr ?_⟩
    exact outcome₁.resolve_left fun none => some none.1
  have known₁ : ∀ c ∈ v.cells, ty.key (db₁.entry c) = keyOf c := by
    intro c cell
    unfold Db.entry
    rw [disk₁]
    exact known c cell
  obtain ⟨db₂, a₂, found₂, done₂, kept₂, disk₂, lay₂, walked₂, outcome₂⟩ := walk db₁ true lay₁ (chains.read kept₁ disk₁) known₁
  refine ⟨db₂, found₂, except_bind_eq_ok.mpr ⟨found₁, walked₁, ?_⟩, kept₁.trans kept₂, disk₂.trans disk₁, lay₂, ?_⟩
  · rw [if_neg some]
    simp only [done₂]
    exact except_bind_eq_ok.mpr ⟨found₂, walked₂, rfl⟩
  have missing : ∀ c ∈ new, keyOf c ≠ key := by
    rcases outcome₁ with ⟨-, missing⟩ | ⟨cell, -⟩
    · exact missing
    · exact absurd (not_not.mp some) (lay.cell_ne_zero cell)
  rcases outcome₂ with ⟨zero, missing'⟩ | found
  · refine .inl ⟨zero, fun c cell => ?_⟩
    rcases List.mem_append.mp (chains.cells.mem_iff.mp cell) with inNew | inOld
    · exact missing c inNew
    · exact missing' c inOld
  · exact .inr found

end

structure Listed (keyOf : Nat → κ) (v : View) (owned : List Nat) (live : List (κ × Nat)) : Prop where
  owned : v.owned = owned
  cells : v.cells = live.map Prod.snd
  keys : ∀ p ∈ live, keyOf p.2 = p.1
  once : (live.map Prod.fst).Nodup

theorem Listed.pair {owned : List Nat} {live : List (κ × Nat)} (listed : Listed keyOf v owned live) {c : Nat} (cell : c ∈ v.cells) :
    (keyOf c, c) ∈ live := by
  rw [listed.cells] at cell
  obtain ⟨p, inside, rfl⟩ := List.mem_map.mp cell
  rw [listed.keys p inside]
  exact inside

theorem Listed.cell {owned : List Nat} {live : List (κ × Nat)} (listed : Listed keyOf v owned live) {p : κ × Nat}
    (inside : p ∈ live) : p.2 ∈ v.cells := by
  rw [listed.cells]
  exact mem_map_of_mem inside

/-- The callers write in the blocks that they have, but not over the threads and the keys of the entries. -/
structure Rewritten (ty : EntryType κ) (db : Db) (owned : List Nat) (live : List (κ × Nat)) (words : Nat → Nat) : Prop where
  others : ∀ p, blockBase p ∉ owned → words p = db.disk p
  threads : ∀ p ∈ live, words (p.2 + ty.threadOffset) = db.disk (p.2 + ty.threadOffset)
  known : ∀ p ∈ live, ty.key (fun i => words (p.2 + i)) = p.1

namespace Rewritten

variable {words : Nat → Nat} {owned : List Nat} {live : List (κ × Nat)}

variable (written : Rewritten ty db owned live words)
include written

variable (listed : Listed keyOf v owned live)
include listed

theorem outside (lay : Layout ty db v)
    {a k : Nat} (inside : a ∈ v.all) (within : k < blockSize) : words (a + k) = db.disk (a + k) := by
  apply written.others
  rw [lay.base_block inside within, ← listed.owned]
  exact lay.notOwned inside

theorem layout (lay : Layout ty db v) :
    Layout ty { db with disk := words } v := by
  refine ⟨lay.sameLength, ?_, ?_, ?_, lay.block, lay.nodup, lay.eof, lay.placed, lay.apart⟩
  · intro side
    refine ⟨(lay.table side).chain.congr_values ?_, (lay.table side).length_eq⟩
    exact fun a inside => written.outside listed lay (v.blocks_subset inside) (by decide)
  · intro side
    exact (lay.cached side).congr fun a inside k within => written.outside listed lay (v.blocks_subset inside) within
  · exact lay.free.congr_values fun a inside => written.outside listed lay (v.free_subset inside) (by decide)

theorem key {c : Nat} (cell : c ∈ v.cells) :
    ty.key (fun i => words (c + i)) = keyOf c :=
  written.known _ (listed.pair cell)

theorem chains (lay : Layout ty db v)
    (chains : Chains ty keyOf db v new old) : Chains ty keyOf { db with disk := words } v new old := by
  have head (side : Bool) (i : Nat) (within : i < db.mht.lengthOf side) :
      Db.load ty { db with disk := words } v (.head side i) = db.load ty v (.head side i) := by
    obtain ⟨a, -, inside, place, small⟩ := lay.blockOf within
    unfold Db.load
    rw [place]
    exact written.outside listed lay (v.blocks_subset inside) small
  have thread (c : Nat) (cell : c ∈ v.cells) :
      Db.load ty { db with disk := words } v (.link c) = db.load ty v (.link c) :=
    written.threads _ (listed.pair cell)
  refine ⟨chains.cells, ?_, ?_, chains.newEmpty, chains.oldEmpty, chains.passed, ?_⟩
  · exact chains.newTable.congr (head false) (fun c inside => thread c (chains.inNew inside)) fun _ _ => rfl
  · exact chains.oldTable.congr (head true) (fun c inside => thread c (chains.inOld inside)) fun _ _ => rfl
  · exact fun c inside => written.key listed (chains.inOld inside)

theorem whole
    (whole : Whole ty keyOf db v new old) : Whole ty keyOf { db with disk := words } v new old :=
  ⟨written.layout listed whole.layout, written.chains listed whole.layout whole.chains, whole.entries, whole.progress,
    whole.within⟩

end Rewritten

theorem Layout.retire (lay : Layout ty db v) {a : Nat} (inside : a ∈ v.owned) (unused : ∀ c ∈ v.cells, blockBase c ≠ a)
    (next : db.disk (a + 4) = db.freePtr) :
    Layout ty { db with freePtr := a } { v with free := a :: v.free, owned := v.owned.filter fun b => b ≠ a } := by
  have here := lay.block a (mem_append_right _ inside)
  have perm : (v.newB ++ v.oldB ++ a :: v.free ++ v.owned.filter fun b => b ≠ a).Perm (v.all ++ v.owned) := by
    have taken := perm_cons_filter_ne inside (List.nodup_append.mp lay.nodup).2.1
    unfold View.all
    rw [append_assoc, append_assoc _ v.free]
    exact (List.perm_middle.symm.trans (taken.append_left v.free)).append_left _
  refine ⟨lay.sameLength, ?_, ?_, ?_, ?_, ?_, lay.eof, ?_, lay.apart⟩
  · intro side
    cases side
    · exact lay.table false
    · exact lay.table true
  · intro side
    cases side
    · exact lay.cached false
    · exact lay.cached true
  · refine ⟨rfl, ?_, ?_⟩
    · have behind := here.behind
      unfold sizeofDbHeader at behind
      omega
    · change Linked id _ (db.disk (a + 4)) v.free
      rw [next]
      exact lay.free
  · exact fun b member => lay.block b (perm.mem_iff.mp member)
  · exact perm.nodup_iff.mpr lay.nodup
  · intro c cell
    obtain ⟨b, member, low, high⟩ := lay.placed c cell
    refine ⟨b, List.mem_filter.mpr ⟨member, decide_eq_true ?_⟩, low, high⟩
    have home := lay.block b (mem_append_right _ member)
    have short := ty.threadInside
    have base := blockBase_add (k := c - b) home.behind home.base (by omega)
    rw [Nat.add_sub_cancel' low] at base
    exact base ▸ unused c cell

theorem Whole.reset (whole : Whole ty keyOf db v new old) : Whole ty keyOf db.htReset v new old := by
  have lay := whole.layout
  have newLength : db.ht.length = db.mht.length := (lay.sameLength false).symm
  have oldLength : db.ht.oldLength = db.mht.oldLength := (lay.sameLength true).symm
  have lengthOf (side : Bool) : db.htReset.mht.lengthOf side = db.mht.lengthOf side := by
    cases side
    · exact newLength
    · exact oldLength
  refine ⟨⟨?_, ?_, ?_, lay.free, lay.block, lay.nodup, lay.eof, lay.placed, lay.apart⟩, ?_, whole.entries, rfl, ?_⟩
  · intro side
    rw [lengthOf]
    exact lay.sameLength side
  · intro side
    rw [lengthOf]
    exact lay.table side
  · intro side
    cases side
    · change Cached db.disk (htResetT db.mht.blocks db.ht.length) v.newB
      rw [newLength, show db.mht.length = v.newB.length * nHTBuckets from (lay.table false).length_eq]
      exact (lay.cached false).reset
    · change Cached db.disk (htResetT db.mht.oldBlocks db.ht.oldLength) v.oldB
      rw [oldLength, show db.mht.oldLength = v.oldB.length * nHTBuckets from (lay.table true).length_eq]
      exact (lay.cached true).reset
  · exact whole.chains.congr lengthOf whole.progress (fun _ _ => rfl) fun _ _ => rfl
  · intro some
    rw [lengthOf] at some ⊢
    change db.ht.progress < _
    rw [whole.progress]
    exact whole.within some

end OpenAFS.Budb
