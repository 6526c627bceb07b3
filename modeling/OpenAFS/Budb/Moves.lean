import OpenAFS.Budb.Blocks

namespace OpenAFS.Budb

open Lib List

variable {κ : Type} {ty : EntryType κ} {keyOf : Nat → κ} {db db' : Db} {v : View} {new old : List Nat}

def hashOf (ty : EntryType κ) (keyOf : Nat → κ) (ea : Nat) : Nat := ty.hashFunction (keyOf ea)

structure Chains (ty : EntryType κ) (keyOf : Nat → κ) (db : Db) (v : View) (new old : List Nat) : Prop where
  cells : v.cells.Perm (new ++ old)
  newTable : Buckets (db.load ty v) .link (.head false) (· < db.mht.lengthOf false)
    (fun ea => hashOf ty keyOf ea % db.mht.lengthOf false) new
  oldTable : Buckets (db.load ty v) .link (.head true) (· < db.mht.lengthOf true)
    (fun ea => hashOf ty keyOf ea % db.mht.lengthOf true) old
  newEmpty : db.mht.lengthOf false = 0 → new = []
  oldEmpty : db.mht.lengthOf true = 0 → old = []
  passed : ∀ ea ∈ old, db.mht.progress ≤ hashOf ty keyOf ea % db.mht.lengthOf true
  known : ∀ ea ∈ old, ty.key (db.entry ea) = keyOf ea

theorem Slot.link_injective : Function.Injective Slot.link := fun _ _ same => Slot.link.inj same

theorem Slot.head_injective (old : Bool) : Function.Injective (Slot.head old) := fun _ _ same => (Slot.head.inj same).2

theorem Layout.cells_nodup (lay : Layout ty db v) : v.cells.Nodup := by
  refine lay.apart.imp ?_
  rintro a b apart rfl
  have inside := ty.threadInside
  rcases apart with left | right <;> omega

variable {ea : Nat}

theorem Layout.cell_ne_zero (lay : Layout ty db v) (cell : ea ∈ v.cells) : ea ≠ 0 := by
  obtain ⟨a, owned, low, -⟩ := lay.placed ea cell
  have behind := (lay.block a (mem_append_right _ owned)).behind
  unfold sizeofDbHeader at behind
  omega

theorem Layout.cell_inside (lay : Layout ty db v) {i : Nat} (cell : ea ∈ v.cells) (within : i < ty.size) :
    sizeofDbHeader ≤ ea + i ∧ ea + i < db.eofPtr := by
  obtain ⟨a, owned, low, high⟩ := lay.placed ea cell
  have block := lay.block a (mem_append_right _ owned)
  have behind := block.behind
  have before := block.before
  omega

namespace Chains

variable (chains : Chains ty keyOf db v new old)
include chains

theorem inNew (inside : ea ∈ new) : ea ∈ v.cells :=
  chains.cells.mem_iff.mpr (mem_append_left _ inside)

theorem inOld (inside : ea ∈ old) : ea ∈ v.cells :=
  chains.cells.mem_iff.mpr (mem_append_right _ inside)

theorem congr (lengthOf : ∀ old, db'.mht.lengthOf old = db.mht.lengthOf old)
    (progress : db'.mht.progress = db.mht.progress) (load : ∀ s : Slot, s.InUse db v → db'.load ty v s = db.load ty v s)
    (keys : ∀ ea ∈ old, ty.key (db'.entry ea) = ty.key (db.entry ea)) : Chains ty keyOf db' v new old where
  cells := chains.cells
  newTable := by
    rw [lengthOf]
    exact chains.newTable.congr (fun i within => load _ within) (fun c inside => load _ (chains.inNew inside)) fun _ _ => rfl
  oldTable := by
    rw [lengthOf]
    exact chains.oldTable.congr (fun i within => load _ within) (fun c inside => load _ (chains.inOld inside)) fun _ _ => rfl
  newEmpty := by
    rw [lengthOf]
    exact chains.newEmpty
  oldEmpty := by
    rw [lengthOf]
    exact chains.oldEmpty
  passed := by
    rw [lengthOf, progress]
    exact chains.passed
  known := fun ea inside => (keys ea inside).trans (chains.known ea inside)

theorem read (kept : Kept db db') (disk : db'.disk = db.disk) :
    Chains ty keyOf db' v new old := by
  refine chains.congr kept.lengthOf kept.progress (fun s _ => ?_) fun ea _ => ?_
  · unfold Db.load
    rw [disk]
  · unfold Db.entry
    rw [disk]

theorem move (once : v.cells.Nodup) (kept : Kept db db') {i j : Nat} {rest : List Nat}
    (nonzero : ea ≠ 0) (within : i < db.mht.lengthOf true)
    (first : (old.filter fun c => hashOf ty keyOf c % db.mht.lengthOf true = i) = ea :: rest)
    (place : hashOf ty keyOf ea % db.mht.lengthOf false = j) (there : j < db.mht.lengthOf false)
    (oldHead : db'.load ty v (.head true i) = db.load ty v (.link ea))
    (thread : db'.load ty v (.link ea) = db.load ty v (.head false j)) (newHead : db'.load ty v (.head false j) = ea)
    (others : ∀ s : Slot, s.InUse db v → s ≠ .head true i → s ≠ .link ea → s ≠ .head false j → db'.load ty v s = db.load ty v s)
    (keys : ∀ c ∈ v.cells, ty.key (db'.entry c) = ty.key (db.entry c)) :
    Chains ty keyOf db' v (ea :: new) (old.filter fun c => c ≠ ea) := by
  have found : ea ∈ old.filter fun c => hashOf ty keyOf c % db.mht.lengthOf true = i := first ▸ mem_cons_self
  obtain ⟨inside, bucket⟩ := List.mem_filter.mp found
  have bucket : hashOf ty keyOf ea % db.mht.lengthOf true = i := of_decide_eq_true bucket
  have split := List.nodup_append.mp (chains.cells.nodup_iff.mp once)
  have notNew : ea ∉ new := fun again => split.2.2 ea again ea inside rfl
  refine ⟨?_, ?_, ?_, ?_, ?_, ?_, ?_⟩
  · have taken := perm_cons_filter_ne inside split.2.1
    exact chains.cells.trans ((taken.symm.append_left new).trans perm_middle)
  · rw [kept.lengthOf]
    refine chains.newTable.push nonzero ?_ ?_ ?_ ?_ ?_
    · rw [place]
      exact newHead
    · rw [place]
      exact thread
    · intro k known other
      rw [place] at other
      exact others _ known (by simp) (by simp) (by simpa using other)
    · intro c member
      refine others _ (chains.inNew member) (by simp) ?_ (by simp)
      intro same
      exact notNew (Slot.link_injective same ▸ member)
    · exact fun _ _ => rfl
  · rw [kept.lengthOf]
    have split : (old.filter fun c => hashOf ty keyOf c % db.mht.lengthOf true = hashOf ty keyOf ea % db.mht.lengthOf true) =
        [] ++ ea :: rest := by
      rw [bucket]
      exact first
    have slot : db'.load ty v (slotAfter .link (.head true (hashOf ty keyOf ea % db.mht.lengthOf true)) []) =
        db.load ty v (.link ea) := by
      rw [bucket]
      exact oldHead
    exact chains.oldTable.unlink Slot.link_injective (Slot.head_injective true) (fun _ _ => by simp)
      (by rw [bucket]; exact within) split slot (by
        rw [bucket]
        rintro s (⟨k, known, rfl⟩ | ⟨c, member, other, rfl⟩) different
        · exact others _ known different (by simp) (by simp)
        · exact others _ (chains.inOld member) (by simp) (by simpa using other) (by simp))
  · intro none
    rw [kept.lengthOf] at none
    rw [none] at there
    exact absurd there (Nat.not_lt_zero _)
  · intro none
    rw [kept.lengthOf] at none
    rw [none] at within
    exact absurd within (Nat.not_lt_zero _)
  · intro c member
    rw [kept.lengthOf, kept.progress]
    exact chains.passed c (mem_of_mem_filter member)
  · intro c member
    have old := mem_of_mem_filter member
    exact (keys c (chains.inOld old)).trans (chains.known c old)

end Chains

theorem Slot.InUse.keep {s : Slot} (used : s.InUse db v) (kept : Kept db db') : s.InUse db' v := by
  cases s with
  | head old i =>
    change i < _
    rw [kept.lengthOf]
    exact used
  | link ea => exact used

theorem Chains.head_cases (chains : Chains ty keyOf db v new old) {i : Nat} (within : i < db.mht.lengthOf true) :
    db.load ty v (.head true i) = 0 ∧ (old.filter fun c => hashOf ty keyOf c % db.mht.lengthOf true = i) = [] ∨
      ∃ rest, (old.filter fun c => hashOf ty keyOf c % db.mht.lengthOf true = i) = db.load ty v (.head true i) :: rest := by
  have linked := chains.oldTable i within
  cases shape : old.filter fun c => hashOf ty keyOf c % db.mht.lengthOf true = i with
  | nil =>
    rw [shape] at linked
    exact .inl ⟨linked, rfl⟩
  | cons c rest =>
    rw [shape] at linked
    exact .inr ⟨rest, by rw [linked.1]⟩

structure Moved (ty : EntryType κ) (keyOf : Nat → κ) (db : Db) (v : View) (new old : List Nat) (db' : Db)
    (new' old' : List Nat) : Prop where
  layout : Layout ty db' v
  chains : Chains ty keyOf db' v new' old'
  kept : Kept db db'
  fewer : old' ⊆ old
  keys : ∀ ea ∈ v.cells, ty.key (db'.entry ea) = ty.key (db.entry ea)
  more : new ⊆ new'
  threads : ∀ c ∈ new, db'.load ty v (.link c) = db.load ty v (.link c)

theorem Moved.refl (lay : Layout ty db v) (chains : Chains ty keyOf db v new old) : Moved ty keyOf db v new old db new old :=
  ⟨lay, chains, Kept.refl db, fun _ here => here, fun _ _ => rfl, fun _ here => here, fun _ _ => rfl⟩

theorem moveList_moved {bi bo : Nat} (quota : Nat) (lay : Layout ty db v) (chains : Chains ty keyOf db v new old)
    (some : db.mht.lengthOf false ≠ 0) (loaded : db.Loaded true bi) (small : bo < nHTBuckets)
    (within : bi * nHTBuckets + bo < db.mht.lengthOf true)
    (head : db.load ty v (.head true (bi * nHTBuckets + bo)) = ea) :
    ∃ db' quota' new' old', Db.moveList ty bi bo db ea quota = .ok (db', quota') ∧ Moved ty keyOf db v new old db' new' old' ∧
      (quota' ≠ 0 → db'.load ty v (.head true (bi * nHTBuckets + bo)) = 0) := by
  induction quota generalizing db ea new old with
  | zero =>
    exact ⟨db, 0, new, old, rfl, Moved.refl lay chains, fun some => absurd rfl some⟩
  | succ quota ih =>
    by_cases none : ea = 0
    · refine ⟨db, quota + 1, new, old, if_pos none, Moved.refl lay chains, fun _ => head.trans none⟩
    obtain ⟨empty, -⟩ | ⟨rest, first⟩ := chains.head_cases within
    · exact absurd (head.symm.trans empty) none
    rw [head] at first
    have found : ea ∈ old.filter fun c => hashOf ty keyOf c % db.mht.lengthOf true = bi * nHTBuckets + bo :=
      first ▸ mem_cons_self
    have cell := chains.inOld (mem_of_mem_filter found)
    have inside := lay.cell_inside cell (lt_of_le_of_lt (Nat.zero_le _) ty.threadInside)
    obtain ⟨db₁, done₁, stored₁, lay₁⟩ := lay.setBucket loaded small (db.thread ty ea)
    have some₁ : db₁.mht.lengthOf false ≠ 0 := by
      rw [stored₁.kept.lengthOf]
      exact some
    obtain ⟨db₂, bi', bo', done₂, kept₂, disk₂, lay₂, loaded₂, small', index⟩ := lay₁.getTableBlock
      (Db.htHashEntry ty (db.entry ea) % db.mht.length) some₁ (fun no => nomatch no)
    have kept₀₂ := stored₁.kept.trans kept₂
    have same₂ (s : Slot) : db₂.load ty v s = db₁.load ty v s := by
      unfold Db.load
      rw [disk₂]
    have place : hashOf ty keyOf ea % db.mht.lengthOf false = bi' * nHTBuckets + bo' := by
      have known : Db.htHashEntry ty (db.entry ea) = hashOf ty keyOf ea :=
        congrArg ty.hashFunction (chains.known ea (mem_of_mem_filter found))
      rw [index, stored₁.kept.lengthOf, known]
      exact (Nat.mod_mod _ _).symm
    have there : bi' * nHTBuckets + bo' < db.mht.lengthOf false := place ▸ Nat.mod_lt _ (Nat.pos_of_ne_zero some)
    obtain ⟨db₃, done₃, stored₃, lay₃⟩ := lay₂.setThread cell (db₂.bucket false bi' bo')
    obtain ⟨db₄, done₄, stored₄, lay₄⟩ := lay₃.setBucket (stored₃.kept.loaded false bi' loaded₂) small' ea
    have kept₀₃ := kept₀₂.trans stored₃.kept
    have kept := kept₀₃.trans stored₄.kept
    have oldUsed : (Slot.head true (bi * nHTBuckets + bo)).InUse db v := within
    have newUsed : (Slot.head false (bi' * nHTBuckets + bo')).InUse db v := there
    have linkUsed : (Slot.link ea).InUse db v := cell
    have others (s : Slot) (used : s.InUse db v) (a : s ≠ .head true (bi * nHTBuckets + bo)) (b : s ≠ .link ea)
        (c : s ≠ .head false (bi' * nHTBuckets + bo')) : db₄.load ty v s = db.load ty v s := by
      rw [stored₄.others s (used.keep kept₀₃) c, stored₃.others s (used.keep kept₀₂) b, same₂, stored₁.others s used a]
    have oldHead : db₄.load ty v (.head true (bi * nHTBuckets + bo)) = db.load ty v (.link ea) := by
      rw [stored₄.others _ (oldUsed.keep kept₀₃) (by simp), stored₃.others _ (oldUsed.keep kept₀₂) (by simp), same₂,
        stored₁.here]
      rfl
    have thread : db₄.load ty v (.link ea) = db.load ty v (.head false (bi' * nHTBuckets + bo')) := by
      rw [stored₄.others _ (linkUsed.keep kept₀₃) (by simp), stored₃.here, lay₂.bucket_eq loaded₂ small', same₂,
        stored₁.others _ newUsed (by simp)]
    have keys : ∀ c ∈ v.cells, ty.key (db₄.entry c) = ty.key (db.entry c) := by
      intro c member
      have same : db₂.entry c = db₁.entry c := by
        unfold Db.entry
        rw [disk₂]
      rw [stored₄.keys c member, stored₃.keys c member, same, stored₁.keys c member]
    have chains₄ := chains.move lay.cells_nodup kept none within first place there oldHead thread stored₄.here others
      keys
    obtain ⟨db', quota', new', old', rest', moved, empty⟩ := ih lay₄ chains₄
      (by rw [kept.lengthOf]; exact some) (kept.loaded true bi loaded) (by rw [kept.lengthOf]; exact within) oldHead
    refine ⟨db', quota', new', old', ?_, ⟨moved.layout, moved.chains, kept.trans moved.kept, ?_, ?_,
      fun c member => moved.more (mem_cons_of_mem _ member), ?_⟩, empty⟩
    · change (if ea = 0 then _ else _) = _
      rw [if_neg none]
      refine except_bind_eq_ok.mpr ⟨(), ensure_eq_ok.mpr inside.2, ?_⟩
      refine except_bind_eq_ok.mpr ⟨db₁, done₁, except_bind_eq_ok.mpr ⟨_, done₂, ?_⟩⟩
      exact except_bind_eq_ok.mpr ⟨db₃, done₃, except_bind_eq_ok.mpr ⟨db₄, done₄, rest'⟩⟩
    · exact fun c member => mem_of_mem_filter (moved.fewer member)
    · intro c member
      rw [moved.keys c member, keys c member]
    · intro c member
      rw [moved.threads c (mem_cons_of_mem _ member)]
      refine others _ (chains.inNew member) (by simp) ?_ (by simp)
      intro same
      have apart := List.nodup_append.mp (chains.cells.nodup_iff.mp lay.cells_nodup)
      exact apart.2.2 c member ea (mem_of_mem_filter found) (Slot.link_injective same)

theorem hashInList_moved {bi bo : Nat} (quota : Nat) (lay : Layout ty db v) (chains : Chains ty keyOf db v new old)
    (some : db.mht.lengthOf false ≠ 0) (loaded : db.Loaded true bi) (small : bo < nHTBuckets)
    (within : bi * nHTBuckets + bo < db.mht.lengthOf true) :
    ∃ db' quota' new' old', db.htHashInList ty quota bi bo = .ok (db', quota') ∧ Moved ty keyOf db v new old db' new' old' ∧
      (quota' ≠ 0 → db'.load ty v (.head true (bi * nHTBuckets + bo)) = 0) := by
  have bucket := lay.bucket_eq loaded small
  obtain ⟨db', quota', new', old', done, moved, empty⟩ := moveList_moved quota lay chains some loaded small within rfl
  by_cases none : db.load ty v (.head true (bi * nHTBuckets + bo)) = 0
  · refine ⟨db, quota, new, old, ?_, Moved.refl lay chains, fun _ => none⟩
    unfold Db.htHashInList
    rw [if_neg (show ¬ db.mht.length = 0 from some)]
    exact except_bind_eq_ok.mpr ⟨db, rfl, if_pos (bucket.trans none)⟩
  refine ⟨db', quota', new', old', ?_, moved, empty⟩
  unfold Db.htHashInList
  rw [if_neg (show ¬ db.mht.length = 0 from some)]
  have full : ¬ db.bucket true bi bo = 0 := by
    rw [bucket]
    exact none
  refine except_bind_eq_ok.mpr ⟨db, rfl, (if_neg full).trans ?_⟩
  rw [bucket]
  exact done

theorem Layout.setProgress (lay : Layout ty db v) (progress : Nat) : Layout ty { db with mht.progress := progress } v := by
  refine ⟨?_, ?_, ?_, lay.free, lay.block, lay.nodup, lay.eof, lay.placed, lay.apart⟩
  · intro old
    cases old
    · exact lay.sameLength false
    · exact lay.sameLength true
  · intro old
    cases old
    · exact lay.table false
    · exact lay.table true
  · intro old
    cases old
    · exact lay.cached false
    · exact lay.cached true

theorem Chains.advance (chains : Chains ty keyOf db v new old) (within : db.mht.progress < db.mht.lengthOf true)
    (empty : db.load ty v (.head true db.mht.progress) = 0) :
    Chains ty keyOf { db with mht.progress := db.mht.progress + 1 } v new old := by
  refine ⟨chains.cells, chains.newTable, chains.oldTable, chains.newEmpty, chains.oldEmpty, ?_, chains.known⟩
  intro ea inside
  have least := chains.passed ea inside
  refine Nat.lt_of_le_of_ne least fun same => ?_
  have found : ea ∈ old.filter fun c => hashOf ty keyOf c % db.mht.lengthOf true = db.mht.progress :=
    List.mem_filter.mpr ⟨inside, decide_eq_true same.symm⟩
  obtain ⟨-, none⟩ | ⟨rest, first⟩ := chains.head_cases within
  · rw [none] at found
    cases found
  · have linked := chains.oldTable _ within
    rw [first] at linked
    exact linked.2.1 empty

structure Advanced (ty : EntryType κ) (keyOf : Nat → κ) (db : Db) (v : View) (new old : List Nat) (db' : Db)
    (new' old' : List Nat) : Prop where
  layout : Layout ty db' v
  chains : Chains ty keyOf db' v new' old'
  ht : db'.ht = db.ht
  lengthOf : ∀ old, db'.mht.lengthOf old = db.mht.lengthOf old
  fewer : old' ⊆ old
  keys : ∀ ea ∈ v.cells, ty.key (db'.entry ea) = ty.key (db.entry ea)
  threads : ∀ c ∈ new, db'.load ty v (.link c) = db.load ty v (.link c)
  further : db.mht.progress ≤ db'.mht.progress
  progress : db'.mht.progress ≤ db.mht.lengthOf true

theorem moveBuckets_advanced {bi : Nat} (steps bo count : Nat) (lay : Layout ty db v) (chains : Chains ty keyOf db v new old)
    (some : db.mht.lengthOf false ≠ 0) (loaded : db.Loaded true bi) (block : bi < v.oldB.length)
    (bounds : bo + steps = nHTBuckets) (progress : db.mht.progress = bi * nHTBuckets + bo) :
    ∃ db' new' old', Db.moveBuckets ty bi db bo count steps = .ok db' ∧ Advanced ty keyOf db v new old db' new' old' := by
  have length : db.mht.lengthOf true = v.oldB.length * nHTBuckets := (lay.table true).length_eq
  have rows : (bi + 1) * nHTBuckets ≤ v.oldB.length * nHTBuckets := Nat.mul_le_mul_right _ block
  rw [Nat.succ_mul] at rows
  induction steps generalizing db new old bo count with
  | zero =>
    refine ⟨db, new, old, rfl, lay, chains, rfl, fun _ => rfl, fun _ here => here, fun _ _ => rfl, fun _ _ => rfl,
      Nat.le_refl _, ?_⟩
    omega
  | succ steps ih =>
    have small : bo < nHTBuckets := by omega
    have within : bi * nHTBuckets + bo < db.mht.lengthOf true := by omega
    -- the bucket is empty, or some of its entries are moved
    obtain ⟨db₁, count₁, new₁, old₁, done₁, moved, empty⟩ : ∃ db₁ count₁ new₁ old₁,
        (if db.bucket true bi bo ≠ 0 then (db.htHashInList ty count bi bo).mapError Code.asIo else .ok (db, count)) =
          .ok (db₁, count₁) ∧ Moved ty keyOf db v new old db₁ new₁ old₁ ∧
        (count₁ ≠ 0 → db₁.load ty v (.head true (bi * nHTBuckets + bo)) = 0) := by
      by_cases full : db.bucket true bi bo ≠ 0
      · obtain ⟨db₁, count₁, new₁, old₁, done, moved, empty⟩ := hashInList_moved count lay chains some loaded small within
        exact ⟨db₁, count₁, new₁, old₁, by rw [if_pos full, done]; rfl, moved, empty⟩
      · refine ⟨db, count, new, old, if_neg full, Moved.refl lay chains, fun _ => ?_⟩
        rw [← lay.bucket_eq loaded small]
        exact not_not.mp full
    have loaded₁ := moved.kept.loaded true bi loaded
    have bucket := moved.layout.bucket_eq loaded₁ small
    by_cases passed : db₁.bucket true bi bo = 0
    · have at_ : db₁.mht.progress = bi * nHTBuckets + bo := moved.kept.progress.trans progress
      have chains₂ := moved.chains.advance (by rw [at_, moved.kept.lengthOf]; exact within) (by rw [at_, ← bucket]; exact passed)
      have lay₂ := moved.layout.setProgress (db₁.mht.progress + 1)
      by_cases spent : count₁ = 0
      · refine ⟨{ db₁ with mht.progress := db₁.mht.progress + 1 }, new₁, old₁, ?_, lay₂, chains₂, moved.kept.ht,
          fun old => ?_, moved.fewer, moved.keys, moved.threads, ?_, ?_⟩
        · refine optional_then.mpr ⟨_, done₁, ?_⟩
          change (if count₁ = 0 then _ else _) = _
          rw [if_pos spent, if_pos passed]
        · have same := moved.kept.lengthOf old
          cases old <;> exact same
        · change _ ≤ db₁.mht.progress + 1
          omega
        · change db₁.mht.progress + 1 ≤ _
          omega
      obtain ⟨db', new', old', done, advanced⟩ := ih (bo + 1) count₁ lay₂ chains₂
        (by
          change db₁.mht.lengthOf false ≠ 0
          rw [moved.kept.lengthOf]
          exact some) loaded₁ (by omega) (by change db₁.mht.progress + 1 = _; omega) (by
          change db₁.mht.lengthOf true = _
          rw [moved.kept.lengthOf]
          exact length)
      refine ⟨db', new', old', ?_, advanced.layout, advanced.chains, advanced.ht.trans moved.kept.ht, fun old => ?_, ?_, ?_,
        ?_, ?_, ?_⟩
      · refine optional_then.mpr ⟨_, done₁, ?_⟩
        change (if count₁ = 0 then _ else _) = _
        rw [if_neg spent, if_pos passed]
        exact done
      · refine (advanced.lengthOf old).trans ?_
        have same := moved.kept.lengthOf old
        cases old <;> exact same
      · exact fun c member => moved.fewer (advanced.fewer member)
      · intro ea cell
        exact (advanced.keys ea cell).trans (moved.keys ea cell)
      · intro c member
        exact (advanced.threads c (moved.more member)).trans (moved.threads c member)
      · have further := advanced.further
        change db₁.mht.progress + 1 ≤ _ at further
        omega
      · have bound := advanced.progress
        change _ ≤ db₁.mht.lengthOf true at bound
        rw [moved.kept.lengthOf] at bound
        exact bound
    · have spent : count₁ = 0 := by
        by_contra left
        rw [bucket] at passed
        exact passed (empty left)
      refine ⟨db₁, new₁, old₁, ?_, moved.layout, moved.chains, moved.kept.ht, moved.kept.lengthOf, moved.fewer, moved.keys,
        moved.threads, moved.kept.progress.ge, ?_⟩
      · refine optional_then.mpr ⟨_, done₁, ?_⟩
        change (if count₁ = 0 then _ else _) = _
        rw [if_pos spent, if_neg passed]
      · rw [moved.kept.progress]
        omega

theorem moveSome_advanced (lay : Layout ty db v) (chains : Chains ty keyOf db v new old) (some : db.mht.lengthOf false ≠ 0)
    (within : db.mht.progress < db.mht.lengthOf true) :
    ∃ db' new' old', db.moveSome ty = .ok db' ∧ Advanced ty keyOf db v new old db' new' old' := by
  have here : db.mht.progress % db.mht.lengthOf true = db.mht.progress := Nat.mod_eq_of_lt within
  obtain ⟨db₁, bi, bo, done₁, kept, disk, lay₁, loaded, small, index⟩ := lay.getTableBlock
    db.mht.progress (show db.mht.lengthOf true ≠ 0 by omega) (fun _ => here.ge)
  rw [here] at index
  have length : db.mht.lengthOf true = v.oldB.length * nHTBuckets := (lay.table true).length_eq
  have block : bi < v.oldB.length := by
    by_contra beyond
    have rows : v.oldB.length * nHTBuckets ≤ bi * nHTBuckets := Nat.mul_le_mul_right _ (Nat.not_lt.mp beyond)
    omega
  obtain ⟨db', new', old', done, advanced⟩ := moveBuckets_advanced (nHTBuckets - bo) bo 10 lay₁
    (chains.read kept disk) (by rw [kept.lengthOf]; exact some) loaded block (by omega) (by rw [kept.progress, index])
  have entry : db₁.entry = db.entry := by
    funext ea i
    unfold Db.entry
    rw [disk]
  refine ⟨db', new', old', except_bind_eq_ok.mpr ⟨_, done₁, done⟩, advanced.layout, advanced.chains,
    advanced.ht.trans kept.ht, fun old => (advanced.lengthOf old).trans (kept.lengthOf old), advanced.fewer, ?_, ?_, ?_, ?_⟩
  · intro ea cell
    rw [advanced.keys ea cell, entry]
  · intro c member
    rw [advanced.threads c member]
    unfold Db.load
    rw [disk]
  · rw [← kept.progress]
    exact advanced.further
  · rw [← kept.lengthOf]
    exact advanced.progress

theorem Chains.all_passed (chains : Chains ty keyOf db v new old) (end_ : db.mht.lengthOf true ≤ db.mht.progress) : old = [] := by
  rw [eq_nil_iff_forall_not_mem]
  intro ea inside
  have least := chains.passed ea inside
  by_cases none : db.mht.lengthOf true = 0
  · rw [chains.oldEmpty none] at inside
    cases inside
  · have := Nat.mod_lt (hashOf ty keyOf ea) (Nat.pos_of_ne_zero none)
    omega

end OpenAFS.Budb
