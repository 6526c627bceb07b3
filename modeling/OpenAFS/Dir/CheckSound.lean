import Mathlib.Order.Interval.Finset.Nat
import OpenAFS.Dir.Checker

namespace OpenAFS.Dir

open Lib Option

/-- The cells of a hash chain; of one that never ends, more than there are blob numbers. -/
def chainCells (d : DirFile) : Nat → Nat → List Nat
  | 0, _ => []
  | fuel + 1, num => if num = 0 then [] else num :: chainCells d fuel (shortAt d (nextAt num))

def reachable (d : DirFile) : List Nat :=
  (List.range nHashEnt).flatMap fun i => chainCells d 65536 (shortAt d (hashTableAt i))

def blobsOf (beyond : Beyond) (d : DirFile) (b : Nat) : Nat := nameBlobs (cString beyond d (nameAt b))

/-- After a `Delete` the blobs of the other entries are still marked as before, and the other names still found. -/
structure DeletesAlone (beyond : Beyond) (d : DirFile) (name : List UInt8) : Prop where
  blobs : ∀ b lp, findItem beyond d name = some (some (b, lp)) → ∀ d', delete beyond name d = some (d', .ok) →
    ∀ c ∈ reachable d, c ≠ b → ∀ x, InRun c (blobsOf beyond d c) x → bitAt d' (x / epp) (x % epp) = bitAt d (x / epp) (x % epp)
  names : ∀ d', delete beyond name d = some (d', .ok) → ∀ other ≠ name, lookup beyond other d' = lookup beyond other d

structure Sound (beyond : Beyond) (d : DirFile) : Prop where
  finite : ∀ i < nHashEnt, ∃ cells, Linked (shortAt d) nextAt (hashTableAt i) cells
  apart : ∀ b ∈ reachable d, ∀ c ∈ reachable d, b ≠ c → ∀ x, InRun b (blobsOf beyond d b) x → ¬ InRun c (blobsOf beyond d c) x
  headers : ∀ b ∈ reachable d, ∀ x, InRun b (blobsOf beyond d b) x → x < epp * computeUsedPages d → ¬ HeaderBlob x
  deletes : ∀ name, DeletesAlone beyond d name

def markedBlobs (d : DirFile) : Nat :=
  ((List.range (computeUsedPages d)).map fun i => (List.range epp).countP (bitAt d i)).sum

/-- The maps mark as many blobs as the headers and the entries have, each counted by itself. -/
def CountsAgree (beyond : Beyond) (d : DirFile) : Prop :=
  markedBlobs d = computeUsedPages d + dhe +
    ((reachable d).map fun b => min (blobsOf beyond d b) (epp * computeUsedPages d - b)).sum

instance (beyond : Beyond) (d : DirFile) : Decidable (CountsAgree beyond d) := by
  unfold CountsAgree
  infer_instance

variable {d d' : DirFile} {cellsOf : Nat → List Nat} {beyond : Beyond} {pages x b c : Nat}

theorem chainCells_eq {fuel a : Nat} {cells : List Nat} (linked : Linked (shortAt d) nextAt a cells)
    (enough : cells.length < fuel) : chainCells d fuel (shortAt d a) = cells := by
  induction cells generalizing fuel a with
  | nil =>
    obtain ⟨fuel, rfl⟩ : ∃ k, fuel = k + 1 := ⟨fuel - 1, by omega⟩
    exact if_pos linked
  | cons b cells ih =>
    rw [List.length_cons] at enough
    obtain ⟨fuel, rfl⟩ : ∃ k, fuel = k + 1 := ⟨fuel - 1, by omega⟩
    rw [chainCells, linked.1, if_neg linked.2.1, ih linked.2.2 (by omega)]

structure Checked (beyond : Beyond) (d : DirFile) (pages : Nat) (cellsOf : Nat → List Nat) : Prop where
  nonempty : 1 ≤ pages
  there : ∀ i < pages, hasPage d i = true
  most : epp * pages ≤ 8 * eaSize
  chains : ∀ i < nHashEnt, Linked (shortAt d) nextAt (hashTableAt i) (cellsOf i)
  cells : ∀ i < nHashEnt, ∀ b ∈ cellsOf i, CellOK beyond d i (pages * epp) b
  bits : ∀ i < pages, ∀ b < epp, bitAt d i b = true ↔ HeaderBlob (epp * i + b) ∨ CellsCover beyond d (reachable d) (epp * i + b)

theorem computeUsedPages_pos (d : DirFile) : 1 ≤ computeUsedPages d := by
  unfold computeUsedPages
  split
  · omega
  split
  · split
    · decide
    · omega
  · decide

theorem reachable_eq (chains : ∀ i < nHashEnt, Linked (shortAt d) nextAt (hashTableAt i) (cellsOf i)) :
    reachable d = (List.range nHashEnt).flatMap cellsOf := by
  apply List.flatMap_congr
  intro i inside
  have linked := chains i (List.mem_range.mp inside)
  exact chainCells_eq linked (length_chain_lt linked)

theorem checked_of_dirOK (ok : dirOK beyond d = .ok ()) : ∃ cellsOf, Checked beyond d (computeUsedPages d) cellsOf := by
  obtain ⟨-, ok⟩ := require_then.mp ok
  obtain ⟨-, ok⟩ := require_then.mp ok
  obtain ⟨used, -, ok⟩ := except_bind_eq_ok.mp ok
  obtain ⟨-, ok⟩ := require_then.mp ok
  obtain ⟨-, -, ok⟩ := except_bind_eq_ok.mp ok
  obtain ⟨w, walks, ok⟩ := except_bind_eq_ok.mp ok
  obtain ⟨-, ok⟩ := require_then.mp ok
  obtain ⟨cellsOf, all, walked⟩ := walks_cells walks
  have pages := except_forM_eq_ok.mp ok
  have each : ∀ i < computeUsedPages d, hasPage d i = true ∧ epp * (i + 1) ≤ 8 * eaSize ∧
      ∀ b < epp, bitAt d i b = eaBit w.eaMap (epp * i + b) := fun i small =>
    comparePage_eq_ok.mp (pages i (List.mem_range.mpr small))
  have chains : ∀ i < nHashEnt, Linked (shortAt d) nextAt (hashTableAt i) (cellsOf i) := fun i small =>
    (all i (List.mem_range.mpr small)).1
  have some := computeUsedPages_pos d
  refine ⟨cellsOf, some, fun i small => (each i small).1, ?_, chains, fun i small => (all i (List.mem_range.mpr small)).2, ?_⟩
  · have last := (each (computeUsedPages d - 1) (by omega)).2.1
    rwa [Nat.sub_add_cancel some] at last
  intro i small b inPage
  obtain ⟨-, most, same⟩ := each i small
  have low : epp * i + b < epp * computeUsedPages d := by
    unfold epp at *
    omega
  rw [same b inPage, walked.eaMap, eaBit_initEaMap (by unfold epp at *; omega), reachable_eq chains]
  simp only [low, true_and]

def headerSet (pages : Nat) : Finset Nat := (Finset.range (epp * pages)).filter HeaderBlob

def runSet (beyond : Beyond) (d : DirFile) (pages b : Nat) : Finset Nat :=
  Finset.Ico b (min (b + blobsOf beyond d b) (epp * pages))

theorem mem_headerSet : x ∈ headerSet pages ↔ x < epp * pages ∧ HeaderBlob x := by
  rw [headerSet, Finset.mem_filter, Finset.mem_range]

theorem mem_runSet : x ∈ runSet beyond d pages b ↔ x < epp * pages ∧ InRun b (blobsOf beyond d b) x := by
  rw [runSet, Finset.mem_Ico]
  unfold InRun
  omega

theorem card_headerSet (some : 1 ≤ pages) : (headerSet pages).card = pages + dhe := by
  rw [headerSet, ← Nat.count_eq_card_filter_range]
  induction pages, some using Nat.le_induction with
  | base => decide
  | succ pages some ih =>
    rw [Nat.mul_succ, Nat.count_add, ih]
    have page : Nat.count (fun k => HeaderBlob (epp * pages + k)) epp = Nat.count (fun k => k = 0) epp := by
      rw [Nat.count_eq_card_filter_range, Nat.count_eq_card_filter_range]
      congr 1
      apply Finset.filter_congr
      intro k inside
      have small := Finset.mem_range.mp inside
      unfold HeaderBlob dhe epp at *
      omega
    have one : Nat.count (fun k => k = 0) epp = 1 := by decide
    omega

theorem markedBlobs_eq (d : DirFile) : markedBlobs d =
    ((Finset.range (epp * computeUsedPages d)).filter fun x => bitAt d (x / epp) (x % epp) = true).card := by
  rw [markedBlobs, ← Nat.count_eq_card_filter_range]
  induction computeUsedPages d with
  | zero => rfl
  | succ pages ih =>
    rw [List.range_succ, List.map_append, List.sum_append, ih, Nat.mul_succ, Nat.count_add]
    congr 1
    rw [List.map_singleton, List.sum_singleton, Nat.count]
    apply List.countP_congr
    intro b inside
    have small := List.mem_range.mp inside
    have page : (epp * pages + b) / epp = pages := by
      unfold epp at *
      omega
    have bit : (epp * pages + b) % epp = b := by
      unfold epp at *
      omega
    rw [page, bit, decide_eq_true_eq]

theorem Checked.countsAgree (checked : Checked beyond d (computeUsedPages d) cellsOf) : CountsAgree beyond d ↔
      (headerSet (computeUsedPages d) :: (reachable d).map (runSet beyond d (computeUsedPages d))).Pairwise Disjoint := by
  have union : ((Finset.range (epp * computeUsedPages d)).filter fun x => bitAt d (x / epp) (x % epp) = true) =
      (headerSet (computeUsedPages d) :: (reachable d).map (runSet beyond d (computeUsedPages d))).foldr
        (· ∪ ·) ∅ := by
    ext x
    rw [mem_union_list, Finset.mem_filter, Finset.mem_range]
    simp only [List.mem_cons, List.mem_map, exists_eq_or_imp, exists_exists_and_eq_and, mem_headerSet, mem_runSet]
    have place : epp * (x / epp) + x % epp = x := Nat.div_add_mod ..
    constructor
    · rintro ⟨low, bit⟩
      have below : x / epp < computeUsedPages d := by
        unfold epp at *
        omega
      rw [checked.bits _ below _ (Nat.mod_lt _ (by decide)), place] at bit
      rcases bit with header | ⟨b, inside, run⟩
      · exact .inl ⟨low, header⟩
      · exact .inr ⟨b, inside, low, run⟩
    rintro (⟨low, header⟩ | ⟨b, inside, low, run⟩)
    all_goals
      have below : x / epp < computeUsedPages d := by
        unfold epp at *
        omega
      refine ⟨low, ?_⟩
      rw [checked.bits _ below _ (Nat.mod_lt _ (by decide)), place]
    · exact .inl header
    · exact .inr ⟨b, inside, run⟩
  have sizes : ∀ b, (runSet beyond d (computeUsedPages d) b).card = min (blobsOf beyond d b) (epp * computeUsedPages d - b) := by
    intro b
    rw [runSet, Nat.card_Ico]
    omega
  have total : ((headerSet (computeUsedPages d) :: (reachable d).map (runSet beyond d (computeUsedPages d))).map
      Finset.card).sum = computeUsedPages d + dhe +
        ((reachable d).map fun b => min (blobsOf beyond d b) (epp * computeUsedPages d - b)).sum := by
    rw [List.map_cons, List.sum_cons, List.map_map, card_headerSet checked.nonempty]
    congr 3
    funext b
    exact sizes b
  rw [← card_union_list, total, ← union, ← markedBlobs_eq]
  rfl

structure RunsApart (beyond : Beyond) (d : DirFile) (pages : Nat) : Prop where
  apart : ∀ b ∈ reachable d, ∀ c ∈ reachable d, b ≠ c → ∀ x, InRun b (blobsOf beyond d b) x → ¬ InRun c (blobsOf beyond d c) x
  headers : ∀ b ∈ reachable d, ∀ x, InRun b (blobsOf beyond d b) x → x < epp * pages → ¬ HeaderBlob x

theorem Checked.mem_reachable (checked : Checked beyond d pages cellsOf) : b ∈ reachable d ↔ ∃ i < nHashEnt, b ∈ cellsOf i := by
  rw [reachable_eq checked.chains, List.mem_flatMap]
  simp only [List.mem_range]

theorem Checked.alone (checked : Checked beyond d pages cellsOf) {i j : Nat} (small : i < nHashEnt) (small' : j < nHashEnt)
    (inside : b ∈ cellsOf i) (inside' : b ∈ cellsOf j) : i = j :=
  (checked.cells i small b inside).bucket.symm.trans (checked.cells j small' b inside').bucket

theorem Checked.nodup (checked : Checked beyond d pages cellsOf) : (reachable d).Nodup := by
  rw [reachable_eq checked.chains, List.nodup_flatMap]
  constructor
  · exact fun i inside => (checked.chains i (List.mem_range.mp inside)).nodup
  · apply List.Nodup.pairwise_of_forall_ne List.nodup_range
    intro i inside j inside' different b here there
    exact different (checked.alone (List.mem_range.mp inside) (List.mem_range.mp inside') here there)

theorem Checked.runsApart (checked : Checked beyond d (computeUsedPages d) cellsOf) :
    CountsAgree beyond d ↔ RunsApart beyond d (computeUsedPages d) := by
  rw [checked.countsAgree, List.pairwise_cons, List.pairwise_map]
  simp only [List.forall_mem_map, Finset.disjoint_left, mem_headerSet, mem_runSet]
  constructor
  · rintro ⟨headers, pairs⟩
    constructor
    · intro b inside c inside' different x here there
      have symm : Std.Symm fun b c : Nat => ∀ ⦃x : Nat⦄, x < epp * computeUsedPages d ∧ InRun b (blobsOf beyond d b) x →
          ¬ (x < epp * computeUsedPages d ∧ InRun c (blobsOf beyond d c) x) :=
        ⟨fun _ _ apart x here there => apart there here⟩
      have apart := pairs.forall inside inside' different
      obtain ⟨i, small, member⟩ := checked.mem_reachable.mp inside
      obtain ⟨j, small', member'⟩ := checked.mem_reachable.mp inside'
      have below := (checked.cells i small b member).below
      have below' := (checked.cells j small' c member').below
      -- runs that meet behind the last page meet on its last blob too
      by_cases low : x < epp * computeUsedPages d
      · exact apart ⟨low, here⟩ ⟨low, there⟩
      · unfold InRun epp at *
        exact @apart (64 * computeUsedPages d - 1) (by omega) (by omega)
    · exact fun b inside x run low header => headers b inside ⟨low, header⟩ ⟨low, run⟩
  · rintro ⟨apart, headers⟩
    constructor
    · exact fun b inside x header run => headers b inside x run.2 run.1 header.2
    · apply checked.nodup.pairwise_of_forall_ne
      exact fun b inside c inside' different x here there => apart b inside c inside' different x here.2 there.2

structure SlotOnly (d d' : DirFile) (slot : Nat) : Prop where
  longer : d.length ≤ d'.length
  same : ∀ x, ¬ MapByte x → (x < slot ∨ slot + 2 ≤ x) → byteAt d' x = byteAt d x

theorem hasPage_of_longer {page : Nat} (longer : d.length ≤ d'.length)
    (there : hasPage d page = true) : hasPage d' page = true := by
  unfold hasPage at *
  rw [decide_eq_true_eq] at *
  omega

def ChainSlot (d : DirFile) (slot : Nat) : Prop :=
  (∃ i < nHashEnt, slot = hashTableAt i) ∨ ∃ g ∈ reachable d, slot = nextAt g

theorem blobsOf_pos (beyond : Beyond) (d : DirFile) (b : Nat) : InRun b (blobsOf beyond d b) b := by
  unfold InRun blobsOf nameBlobs
  omega

theorem Checked.entryByte {slot k : Nat}
    (checked : Checked beyond d pages cellsOf) (runs : RunsApart beyond d pages) (known : ChainSlot d slot)
    (only : SlotOnly d d' slot) (inside : c ∈ reachable d) (field : k < 2 ∨ 4 ≤ k)
    (inRun : k < 32 * blobsOf beyond d c) (inPage : 32 * (c % epp) + k < pageSize) :
    byteAt d' (32 * c + k) = byteAt d (32 * c + k) := by
  obtain ⟨i, small, member⟩ := checked.mem_reachable.mp inside
  have below := (checked.cells i small c member).below
  have place : (32 * c + k) / 32 = c + k / 32 := by omega
  have run : InRun c (blobsOf beyond d c) (c + k / 32) := by
    unfold InRun
    omega
  have blob := runs.headers c inside _ run (by unfold pageSize epp at *; omega)
  apply only.same
  · exact not_mapByte_of_blob (by rwa [place])
  rcases known with ⟨j, small', rfl⟩ | ⟨g, inside', rfl⟩
  · have hash := hash_before_blob blob small'
    omega
  by_contra touched
  have here : g = c + k / 32 := by
    unfold nextAt at touched
    omega
  have same : g = c := by
    by_contra different
    exact runs.apart g inside' c inside different g (blobsOf_pos ..) (by rwa [here])
  unfold nextAt at touched
  omega

theorem Checked.entry {slot : Nat}
    (checked : Checked beyond d pages cellsOf) (runs : RunsApart beyond d pages) (known : ChainSlot d slot)
    (only : SlotOnly d d' slot) (inside : c ∈ reachable d) :
    cString beyond d' (nameAt c) = cString beyond d (nameAt c) ∧ fidAt d' c = fidAt d c := by
  obtain ⟨i, small, member⟩ := checked.mem_reachable.mp inside
  have size : 12 + (cString beyond d (nameAt c)).length + 1 ≤ 32 * blobsOf beyond d c := by
    unfold blobsOf nameBlobs
    omega
  constructor
  · have page : nameAt c / pageSize = c / epp := by
      unfold nameAt pageSize epp
      omega
    apply cString_congr (by rw [page]; exact (checked.cells i small c member).there) only.longer
    intro j before inPage
    rw [nameAt, Nat.add_assoc]
    apply checked.entryByte runs known only inside
    · omega
    · omega
    · unfold nameAt pageSize epp at *
      omega
  have field : ∀ k < 12, 4 ≤ k → byteAt d' (32 * c + k) = byteAt d (32 * c + k) := by
    intro k before after
    apply checked.entryByte runs known only inside
    · omega
    · omega
    · unfold pageSize epp
      omega
  have vnode : longAt d' (vnodeAt c) = longAt d (vnodeAt c) := by
    apply longAt_congr
    intro j before
    rw [vnodeAt, Nat.add_assoc]
    exact field _ (by omega) (by omega)
  have vunique : longAt d' (vuniqueAt c) = longAt d (vuniqueAt c) := by
    apply longAt_congr
    intro j before
    rw [vuniqueAt, Nat.add_assoc]
    exact field _ (by omega) (by omega)
  rw [fidAt, fidAt, vnode, vunique]

theorem Checked.findItem (checked : Checked beyond d pages cellsOf) (name : List UInt8) :
    Dir.findItem beyond d name = some (locate (fun c => cString beyond d (nameAt c)) name
      (hashTableAt (dirHash name)) (cellsOf (dirHash name))) := by
  apply findItem_eq (checked.chains _ (dirHash_lt _)) (checked.there 0 checked.nonempty)
  exact fun c inside => (checked.cells _ (dirHash_lt _) c inside).there

theorem lookup_eq {name : List UInt8} {cells : List Nat}
    (linked : Linked (shortAt d) nextAt (hashTableAt (dirHash name)) cells) (first : hasPage d 0 = true)
    (there : ∀ c ∈ cells, hasPage d (c / epp) = true) : lookup beyond name d =
      some ((cells.find? fun c => name = cString beyond d (nameAt c)).map (fidAt d)) := by
  rw [lookup, findItem_eq linked first there, map_some, ← locate_map_fst _ _ (hashTableAt (dirHash name)), map_map]
  rfl

theorem Checked.lookup (checked : Checked beyond d pages cellsOf) (name : List UInt8) : Dir.lookup beyond name d =
      some (((cellsOf (dirHash name)).find? fun c => name = cString beyond d (nameAt c)).map (fidAt d)) :=
  lookup_eq (checked.chains _ (dirHash_lt _)) (checked.there 0 checked.nonempty)
    fun c inside => (checked.cells _ (dirHash_lt _) c inside).there

theorem byteAt_freeBlobs {first n : Nat} (fits : first % epp + n ≤ mapBits)
    (zero : hasPage d 0 = true) (there : hasPage d (first / epp) = true) (outside : ¬ MapByte x) :
    byteAt (freeBlobs first n d) x = byteAt d x := by
  rw [freeBlobs_eq zero there]
  apply keeps_give (x / pageSize + 1) fits
  · unfold pageSize
    omega
  · exact outside

theorem bitAt_freeBlobs {first n : Nat} (fits : first % epp + n ≤ mapBits)
    (zero : hasPage d 0 = true) (there : hasPage d (first / epp) = true) (other : ¬ InRun first n x) :
    bitAt (freeBlobs first n d) (x / epp) (x % epp) = bitAt d (x / epp) (x % epp) := by
  have small : x % epp < epp := Nat.mod_lt _ (by decide)
  rw [freeBlobs_eq zero there, bitAt_clearBits fits (by unfold mapBits epp at *; omega), bitAt_changeAlloMap small]
  have untouched : ¬ (first / epp = x / epp ∧ first % epp ≤ x % epp ∧ x % epp < first % epp + n) := by
    unfold InRun epp at *
    omega
  simp only [untouched, decide_false, Bool.not_false, Bool.and_true]

theorem Checked.blob {i : Nat} (checked : Checked beyond d pages cellsOf) (runs : RunsApart beyond d pages) (small : i < nHashEnt)
    (member : c ∈ cellsOf i) : ¬ HeaderBlob c := by
  have below := (checked.cells i small c member).below
  exact runs.headers c (checked.mem_reachable.mpr ⟨i, small, member⟩) c (blobsOf_pos ..) (by rwa [Nat.mul_comm])

theorem Checked.slot {slot : Nat}
    (checked : Checked beyond d pages cellsOf) (runs : RunsApart beyond d pages) (known : ChainSlot d slot) :
    ¬ MapByte slot ∧ ¬ MapByte (slot + 1) := by
  rcases known with ⟨i, small, rfl⟩ | ⟨g, inside, rfl⟩
  · constructor
    all_goals
      apply not_mapByte_of_hash
      simp only [HashByte, hashTableAt, nHashEnt] at *
      omega
  obtain ⟨i, small, member⟩ := checked.mem_reachable.mp inside
  have blob := checked.blob runs small member
  constructor
  all_goals
    apply not_mapByte_of_blob
    have place : ∀ k < 32, (32 * g + k) / 32 = g := by omega
    first
      | rwa [nextAt, place 2 (by decide)]
      | rwa [nextAt, Nat.add_assoc, place 3 (by decide)]

structure Deleted (beyond : Beyond) (d : DirFile) (cellsOf : Nat → List Nat) (b : Nat) (d' : DirFile) : Prop where
  longer : d.length ≤ d'.length
  entries : ∀ c ∈ reachable d, cString beyond d' (nameAt c) = cString beyond d (nameAt c) ∧ fidAt d' c = fidAt d c
  bits : ∀ c ∈ reachable d, c ≠ b → ∀ x, InRun c (blobsOf beyond d c) x →
    bitAt d' (x / epp) (x % epp) = bitAt d (x / epp) (x % epp)
  chains : ∀ j < nHashEnt, Linked (shortAt d') nextAt (hashTableAt j) ((cellsOf j).filter fun c => c ≠ b)

theorem Checked.deleted {lp : Nat}
    {name : List UInt8} (checked : Checked beyond d pages cellsOf) (runs : RunsApart beyond d pages)
    (found : Dir.findItem beyond d name = some (some (b, lp))) (call : delete beyond name d = some (d', .ok)) :
    name = cString beyond d (nameAt b) ∧ Deleted beyond d cellsOf b d' := by
  have walk := checked.findItem name
  rw [found, some_inj] at walk
  obtain ⟨before, after, split, slot, here, -⟩ := locate_eq_some walk.symm
  have bucket := dirHash_lt name
  have member : b ∈ cellsOf (dirHash name) := by
    rw [split]
    simp
  have inside : b ∈ reachable d := checked.mem_reachable.mpr ⟨_, bucket, member⟩
  have cell := checked.cells _ bucket b member
  have known : ChainSlot d lp := by
    rcases @slot_cases _ _ _ (dirHash name) _ split (checked.chains _ bucket).nodup with head | ⟨g, inside, -, next⟩
    · exact .inl ⟨_, bucket, by rw [slot, head]⟩
    · exact .inr ⟨g, checked.mem_reachable.mpr ⟨_, bucket, inside⟩, by rw [slot, next]⟩
  have outside := checked.slot runs known
  have stored : SlotOnly d (putShort d lp (shortAt d (nextAt b))) lp :=
    ⟨length_le_pwrite .., fun x _ outside => byteAt_putShort_of_outside outside⟩
  have effect : d' = freeBlobs b (blobsOf beyond d b) (putShort d lp (shortAt d (nextAt b))) := by
    rw [delete, found, map_some, some_inj] at call
    cases call
    simp only [(checked.entry runs known stored inside).1]
    rfl
  have zero := hasPage_of_longer stored.longer (checked.there 0 checked.nonempty)
  have there := hasPage_of_longer stored.longer cell.there
  have fits : b % epp + blobsOf beyond d b ≤ mapBits := by
    have short := cell.short
    unfold blobsOf nameBlobs mapBits epp
    omega
  have only : SlotOnly d d' lp := by
    rw [effect]
    constructor
    · rw [freeBlobs_eq zero there]
      exact Nat.le_trans stored.longer (Nat.le_trans (length_changeAlloMap ..) (length_clearBits ..))
    · intro x map away
      rw [byteAt_freeBlobs fits zero there map, byteAt_putShort_of_outside away]
  refine ⟨here, only.longer, fun c => checked.entry runs known only, ?_, ?_⟩
  · intro c inside' different x run
    rw [effect, bitAt_freeBlobs fits zero there (runs.apart c inside' b inside different x run)]
    apply bitAt_congr
    apply byteAt_putShort_of_outside
    have map : MapByte (freebitmapAt (x / epp) + x % epp / 8) := by
      unfold MapByte freebitmapAt pageSize epp
      omega
    -- the slot is outside the maps, so it is not a byte of one
    by_contra touched
    have equal : freebitmapAt (x / epp) + x % epp / 8 = lp ∨ freebitmapAt (x / epp) + x % epp / 8 = lp + 1 := by omega
    rcases equal with equal | equal
    · exact outside.1 (equal ▸ map)
    · exact outside.2 (equal ▸ map)
  intro j small
  have linked := chains_unlink checked.chains (fun j small c => checked.blob runs small)
    (fun j small c known known' => checked.alone small bucket known known') bucket split small
  rw [← slot] at linked
  -- what `FreeBlobs` changes is not part of the chains
  have kept : ∀ p, ChainSlot d p → shortAt d' p = shortAt (putShort d lp (shortAt d (nextAt b))) p := by
    intro p slot'
    have map := checked.slot runs slot'
    rw [effect]
    exact shortAt_congr (byteAt_freeBlobs fits zero there map.1) (byteAt_freeBlobs fits zero there map.2)
  apply linked.congr (kept _ (.inl ⟨j, small, rfl⟩))
  intro c member'
  exact kept _ (.inr ⟨c, checked.mem_reachable.mpr ⟨j, small, (List.mem_filter.mp member').1⟩, rfl⟩)

theorem Deleted.lookup (deleted : Deleted beyond d cellsOf b d') (checked : Checked beyond d pages cellsOf) {other : List UInt8}
    (different : other ≠ cString beyond d (nameAt b)) : Dir.lookup beyond other d' = Dir.lookup beyond other d := by
  have small := dirHash_lt other
  have known : ∀ c ∈ cellsOf (dirHash other), c ∈ reachable d := fun c member =>
    checked.mem_reachable.mpr ⟨_, small, member⟩
  have names : ((cellsOf (dirHash other)).filter fun c => c ≠ b).find?
        (fun c => other = cString beyond d' (nameAt c)) =
      (cellsOf (dirHash other)).find? fun c => other = cString beyond d (nameAt c) := by
    rw [List.find?_filter]
    apply List.find?_congr
    intro c member
    rw [(deleted.entries c (known c member)).1]
    by_cases same : c = b
    · subst same
      simp [different]
    · simp [same]
  have pages' : ∀ c ∈ (cellsOf (dirHash other)).filter (fun c => c ≠ b), hasPage d' (c / epp) = true := fun c member =>
    hasPage_of_longer deleted.longer (checked.cells _ small c (List.mem_filter.mp member).1).there
  rw [checked.lookup, lookup_eq (deleted.chains _ small)
    (hasPage_of_longer deleted.longer (checked.there 0 checked.nonempty)) pages', names, some_inj]
  apply Option.map_congr
  intro c hit
  exact (deleted.entries c (known c (List.mem_of_find?_eq_some hit))).2

theorem Checked.deletesAlone (checked : Checked beyond d pages cellsOf) (runs : RunsApart beyond d pages) (name : List UInt8) :
    DeletesAlone beyond d name := by
  constructor
  · exact fun b lp found d' call => (checked.deleted runs found call).2.bits
  intro d' call other different
  cases found : Dir.findItem beyond d name with
  | none =>
    rw [delete, found] at call
    cases call
  | some item =>
    cases item with
    | none =>
      rw [delete, found] at call
      cases call
    | some hit =>
      obtain ⟨here, deleted⟩ := checked.deleted runs found call
      exact deleted.lookup checked (by rwa [← here])

/-- `DirOK` finds a directory in which each blob is used once exactly where the counts agree. -/
theorem dirOK_sound_exact {beyond : Beyond} {d : DirFile} (ok : dirOK beyond d = .ok ()) :
    Sound beyond d ↔ CountsAgree beyond d := by
  obtain ⟨cellsOf, checked⟩ := checked_of_dirOK ok
  rw [checked.runsApart]
  constructor
  · exact fun sound => ⟨sound.apart, sound.headers⟩
  · intro runs
    exact ⟨fun i small => ⟨_, checked.chains i small⟩, runs.apart, runs.headers, checked.deletesAlone runs⟩

theorem dirOK_sound_exact_freshDir : Sound (fun _ => []) freshDir.file ↔ CountsAgree (fun _ => []) freshDir.file :=
  dirOK_sound_exact (dirOK_built (.start freshDir_start) _)

def zeros (n : Nat) : List UInt8 := List.replicate n 0

def forgedDir : DirFile := [ [0, 1, 4, 210, 51, 0xff, 0xff, 0x01], zeros 24, [47], List.replicate 127 64,
    -- the chains of ".", of the long name, of ".." and of "b"
    zeros 92, [0, 13], zeros 2, [0, 15], zeros 38, [0, 14], zeros 58, [0, 16], zeros 58,
    [1, 0, 0, 0, 0, 0, 0, 1, 0, 0, 0, 1, 46], zeros 19,
    [1, 0, 0, 0, 0, 0, 0, 1, 0, 0, 0, 1, 46, 46], zeros 18,
    [1, 0, 0, 0, 0, 0, 0, 2, 0, 0, 0, 2], List.replicate 16 97, zeros 4,
    [1, 0, 0, 0, 0, 0, 0, 9, 0, 0, 0, 9, 98], zeros (pageSize - 525)
  ].flatten

/-- An entry inside the blobs of another one marks no blob that was not marked. -/
theorem dirOK_forgedDir : ¬ ∀ beyond d, dirOK beyond d = .ok () → Sound beyond d := by
  intro sound
  have forged := sound (fun _ => []) forgedDir (by decide +kernel)
  have first : 15 ∈ reachable forgedDir := by decide +kernel
  have second : 16 ∈ reachable forgedDir := by decide +kernel
  have two : blobsOf (fun _ => []) forgedDir 15 = 2 := by decide +kernel
  apply forged.apart 15 first 16 second (by decide) 16
  · rw [two]
    exact ⟨by decide, by decide⟩
  · exact blobsOf_pos ..

end OpenAFS.Dir
