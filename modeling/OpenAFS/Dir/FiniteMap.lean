import Mathlib.Data.List.Find
import Mathlib.Data.List.Pairwise
import OpenAFS.Dir.Threads
import OpenAFS.Lib.Fallible
import OpenAFS.Lib.Machine

namespace OpenAFS.Dir

open Function (update comp)
open Lib List

variable {d : DirFile} {x i pages : Nat} {e : Entry} {es : List Entry} {before : List Nat} {live : Name → Option Fid}

theorem byteAt_putEntry_of_outside {blob : Nat} {name : Name} {fid : Fid}
    (outside : x < 32 * blob ∨ 32 * (blob + nameBlobs name.val) ≤ x) :
    byteAt (putEntry d blob name.val fid) x = byteAt d x := by
  have bounds := size_bounds name
  unfold putEntry
  rw [byteAt_pwrite_of_outside, byteAt_putLong_of_outside, byteAt_putLong_of_outside, byteAt_pwrite_of_outside]
  all_goals
    simp only [flagAt, vnodeAt, vuniqueAt, nameAt, length_append, length_singleton] at *
    omega

theorem length_putEntry (d : DirFile) (blob : Nat) (name : List UInt8) (fid : Fid) :
    d.length ≤ (putEntry d blob name fid).length := by
  refine Nat.le_trans ?_ (length_le_pwrite ..)
  refine Nat.le_trans ?_ (length_le_pwrite ..)
  exact Nat.le_trans (length_le_pwrite ..) (length_le_pwrite ..)

theorem holds_putEntry (d : DirFile) (blob : Nat) (name : Name) (fid : Fid) :
    Holds (putEntry d blob name.val fid) ⟨blob, name, fid⟩ := by
  unfold putEntry
  refine ⟨?_, ?_, ?_⟩
  · rw [byteAt_pwrite_of_outside, byteAt_putLong_of_outside, byteAt_putLong_of_outside, byteAt_pwrite, if_pos]
    · rw [Nat.sub_self]
      rfl
    · simp
    all_goals
      simp only [flagAt, vnodeAt, vuniqueAt, nameAt]
      omega
  · have vnode : ∀ d' : DirFile, longAt (pwrite (putLong (putLong d' (vnodeAt blob) fid.vnode) (vuniqueAt blob)
        fid.vunique) (nameAt blob) (name.val ++ [0])) (vnodeAt blob) = fid.vnode := by
      intro d'
      rw [← longAt_putLong d' (vnodeAt blob) fid.vnode]
      apply longAt_congr
      intro i small
      rw [byteAt_pwrite_of_outside, byteAt_putLong_of_outside]
      · rw [longAt_putLong]
      all_goals
        simp only [vnodeAt, vuniqueAt, nameAt]
        omega
    have vunique : ∀ d' : DirFile, longAt (pwrite (putLong d' (vuniqueAt blob) fid.vunique) (nameAt blob)
        (name.val ++ [0])) (vuniqueAt blob) = fid.vunique := by
      intro d'
      rw [← longAt_putLong d' (vuniqueAt blob) fid.vunique]
      apply longAt_congr
      intro i small
      rw [byteAt_pwrite_of_outside]
      · rw [longAt_putLong]
      · simp only [vuniqueAt, nameAt]
        omega
    rw [fidAt, vnode, vunique]
  · intro i inside
    change i ≤ name.val.length at inside
    rw [byteAt_pwrite, if_pos, Nat.add_sub_cancel_left, byteAt_append]
    · split
      · rfl
      rename_i late
      have here : i = name.val.length := by omega
      rw [here, Nat.sub_self]
      exact (byteAt_of_length_le (Nat.le_refl _)).symm
    · simp only [length_append, length_singleton]
      omega

def link (d : DirFile) (e : Entry) : DirFile :=
  putShort (putShort d (nextAt e.blob) (shortAt d (hashTableAt e.bucket))) (hashTableAt e.bucket) e.blob

theorem byteAt_link_of_outside (next : x < nextAt e.blob ∨ nextAt e.blob + 2 ≤ x)
    (head : x < hashTableAt e.bucket ∨ hashTableAt e.bucket + 2 ≤ x) : byteAt (link d e) x = byteAt d x := by
  rw [link, byteAt_putShort_of_outside head, byteAt_putShort_of_outside next]

theorem length_link (d : DirFile) (e : Entry) : d.length ≤ (link d e).length := by
  unfold link
  exact Nat.le_trans (length_le_pwrite ..) (length_le_pwrite ..)

theorem hash_before_blob {blob : Nat} (outside : ¬ HeaderBlob blob) (small : i < nHashEnt) : hashTableAt i + 2 ≤ 32 * blob := by
  simp only [HeaderBlob, hashTableAt, nHashEnt, epp, dhe] at *
  omega

theorem chainOf_cons (e : Entry) (es : List Entry) (i : Nat) :
    chainOf (e :: es) i = if e.bucket = i then e.blob :: chainOf es i else chainOf es i := by
  by_cases here : e.bucket = i
  · simp [here, chainOf]
  · simp [here, chainOf]

theorem Threads.link (threads : Threads d es) (holds : Holds d e)
    (outside : ¬ HeaderBlob e.blob) (small : e.blob < 65536) (fresh : ∀ f ∈ es, f.name ≠ e.name)
    (apart : ∀ f ∈ es, ∀ x, e.covers x → ¬ f.covers x) (blobs : ∀ f ∈ es, ¬ HeaderBlob f.blob) :
    Threads (link d e) (e :: es) := by
  have bucket : e.bucket < nHashEnt := dirHash_lt _
  have hash := hash_before_blob outside bucket
  have bounds := size_bounds e.name
  -- the two stores touch no byte of another entry
  have other : ∀ f ∈ es, ∀ x, f.HasByte x → byteAt (Dir.link d e) x = byteAt d x := by
    intro f inside x here
    have hash' := hash_before_blob (blobs f inside) bucket
    apply byteAt_link_of_outside
    · have away := fun known => apart f inside (x / 32) known (covers_of_hasByte here)
      by_contra touched
      apply away
      unfold Entry.covers InRun Entry.size nextAt at *
      omega
    · unfold Entry.HasByte at here
      omega
  have headSlot : shortAt (Dir.link d e) (hashTableAt e.bucket) = e.blob := shortAt_putShort small
  have nextSlot : shortAt (Dir.link d e) (nextAt e.blob) = shortAt d (hashTableAt e.bucket) := by
    rw [Dir.link, shortAt_putShort_of_outside (by unfold nextAt; omega), shortAt_putShort (shortAt_lt ..)]
  have headSlots : ∀ i < nHashEnt, i ≠ e.bucket → shortAt (Dir.link d e) (hashTableAt i) = shortAt d (hashTableAt i) := by
    intro i known different
    have hash' := hash_before_blob outside known
    apply shortAt_congr
    all_goals
      apply byteAt_link_of_outside
      all_goals
        simp only [nextAt, hashTableAt] at *
        omega
  have nextSlots : ∀ i, ∀ b ∈ chainOf es i, shortAt (Dir.link d e) (nextAt b) = shortAt d (nextAt b) := by
    intro i b inside
    obtain ⟨f, known, -, rfl⟩ := mem_chainOf.mp inside
    have some := (size_bounds f.name).1
    apply shortAt_congr
    all_goals
      apply other f known
      simp only [Entry.HasByte, Entry.size, nextAt]
      omega
  refine ⟨?_, ?_, ?_⟩
  · intro f inside
    rcases List.mem_cons.mp inside with rfl | old
    · apply holds.congr
      intro x here free
      unfold Entry.HasByte at here
      exact byteAt_link_of_outside free (by omega)
    · exact (threads.holds f old).congr fun x here _ => other f old x here
  · intro i known
    rw [chainOf_cons]
    split
    · rename_i here
      subst here
      have some : e.blob ≠ 0 := fun zero => outside (.inl (by rw [zero]; rfl))
      exact (threads.chains _ bucket).push some headSlot nextSlot (nextSlots _)
    · rename_i different
      exact (threads.chains i known).congr (headSlots i known (Ne.symm different)) (nextSlots i)
  · rw [map_cons, nodup_cons]
    refine ⟨?_, threads.names⟩
    intro again
    obtain ⟨f, inside, same⟩ := List.mem_map.mp again
    exact fresh f inside same

theorem Valid.findItem (valid : Valid d pages es) (name : Name) (beyond : Beyond) :
    (findItem beyond d name.val = some none ∧ ∀ e ∈ es, e.name ≠ name) ∨
    ∃ e ∈ es, e.name = name ∧ ∃ before after, chainOf es e.bucket = before ++ e.blob :: after ∧
      findItem beyond d name.val = some (some (e.blob, slotAfter nextAt (hashTableAt e.bucket) before)) := by
  have linked := valid.threads.chains (dirHash name.val) (dirHash_lt _)
  have there : ∀ c ∈ chainOf es (dirHash name.val), hasPage d (c / epp) = true := by
    intro c inside
    obtain ⟨e, known, -, rfl⟩ := mem_chainOf.mp inside
    apply hasPage_of_length valid.space.length
    have low := (valid.blob known (covers_blob e)).1
    unfold epp at *
    omega
  have walk := @findItem_eq beyond _ _ _ linked (hasPage_of_length valid.space.length valid.space.some) there
  rw [walk]
  cases found : locate (fun c => Dir.cString beyond d (nameAt c)) name.val (hashTableAt (dirHash name.val))
      (chainOf es (dirHash name.val)) with
  | none =>
    left
    refine ⟨rfl, ?_⟩
    rintro e inside rfl
    have missing := locate_eq_none.mp found e.blob (mem_chainOf.mpr ⟨e, inside, rfl, rfl⟩)
    exact missing (valid.cString inside beyond).symm
  | some hit =>
    right
    obtain ⟨b, slot⟩ := hit
    obtain ⟨before, after, split, rfl, here, -⟩ := locate_eq_some found
    obtain ⟨e, inside, bucket, rfl⟩ := mem_chainOf.mp (show b ∈ chainOf es (dirHash name.val) by rw [split]; simp)
    rw [valid.cString inside] at here
    refine ⟨e, inside, (Subtype.ext here).symm, before, after, ?_, ?_⟩
    · rw [bucket, split]
    · rw [bucket]

inductive Created (d : DirFile) (junk : Page) (es : List Entry) (name : Name) (fid : Fid) : List Entry → Code → Prop
  | ok (blob : Nat) (found : (findBlobs junk (nameBlobs name.val) d).2 = some blob) :
    Created d junk es name fid (⟨blob, name, fid⟩ :: es) .ok
  | full (none : (findBlobs junk (nameBlobs name.val) d).2 = none) : Created d junk es name fid es .efbig

theorem Valid.create {d : DirFile} {pages : Nat} {es : List Entry} (valid : Valid d pages es) {name : Name}
    {beyond : Beyond} (junk : Page) (fid : Fid) (absent : Dir.findItem beyond d name.val = some none)
    (fresh : ∀ e ∈ es, e.name ≠ name) :
    ∃ d' pages' es' code, create beyond junk name.val fid d = some (d', code) ∧ Valid d' pages' es' ∧
      Created d junk es name fid es' code := by
  have bounds := size_bounds name
  have found := @findBlobs_found junk _ _ _ _ valid.space bounds.1 (by unfold epp; omega)
  obtain ⟨pages', more, space⟩ := found.space
  have threads := valid.threads.keeps valid.space.some valid.space.within found.keeps
  rw [Dir.create, if_neg name.property.1, absent, Option.map_some]
  cases blobs : findBlobs junk (nameBlobs name.val) d with
  | mk d₁ blob =>
    simp only [blobs] at found space threads
    cases blob with
    | none =>
      have same : (fun x => Covered es x ∨ ∃ first ∈ (none : Option Nat), InRun first (nameBlobs name.val) x) = Covered es := by
        funext x
        simp
      rw [same] at space
      exact ⟨d₁, pages', es, .efbig, rfl, ⟨space, threads, valid.fits, valid.apart⟩, .full (by rw [blobs])⟩
    | some blob =>
      have fits := found.fits blob rfl
      have free := found.fresh blob rfl
      let e : Entry := ⟨blob, name, fid⟩
      have used : (fun x => Covered es x ∨ ∃ first ∈ some blob, InRun first (nameBlobs name.val) x) = Covered (e :: es) := by
        funext x
        simp only [Option.mem_some_iff, exists_eq_left', Covered, mem_cons, exists_eq_or_imp, eq_iff_iff]
        exact or_comm
      rw [used] at space
      have outside : ∀ x, e.covers x → x < epp * pages' ∧ ¬ HeaderBlob x := fun x here =>
        space.within x ⟨e, mem_cons_self, here⟩
      have others : ∀ f ∈ es, ∀ x, f.covers x → ¬ HeaderBlob x := fun f inside x here =>
        (space.within x ⟨f, mem_cons_of_mem _ inside, here⟩).2
      have apart : ∀ f ∈ es, ∀ x, e.covers x → ¬ f.covers x := fun f inside x here there =>
        free x here ⟨f, inside, there⟩
      obtain ⟨low, header⟩ := outside blob (covers_blob e)
      have most := space.most
      -- filling the blobs touches neither the chains nor the other entries
      have filled : Threads (putEntry d₁ blob name.val fid) es := by
        apply threads.congr
        rintro x (hash | ⟨f, inside, here⟩)
        · apply byteAt_putEntry_of_outside
          simp only [HashByte, hashTableAt, nHashEnt, HeaderBlob, dhe, epp] at *
          omega
        apply byteAt_putEntry_of_outside
        by_contra touched
        apply apart f inside (x / 32) _ (covers_of_hasByte here)
        simp only [Entry.covers, InRun, Entry.size, e]
        omega
      have small : blob < 65536 := by
        unfold bigMaxPages epp at *
        omega
      have linked := filled.link (holds_putEntry d₁ blob name fid) header small fresh apart
        (fun f inside => others f inside _ (covers_blob f))
      have length : d₁.length ≤ (link (putEntry d₁ blob name.val fid) e).length :=
        Nat.le_trans (length_putEntry ..) (length_link ..)
      have kept : Space (link (putEntry d₁ blob name.val fid) e) pages' (Covered (e :: es)) := by
        apply space.congr length
        intro x _ map
        have bucket : e.bucket < nHashEnt := dirHash_lt _
        have away : x < 32 * blob ∨ 32 * (blob + nameBlobs name.val) ≤ x := by
          by_contra touched
          apply not_mapByte_of_blob (outside (x / 32) _).2 map
          simp only [Entry.covers, InRun, Entry.size, e]
          omega
        have unhashed : ¬ HashByte x := fun hash => not_mapByte_of_hash hash map
        rw [byteAt_link_of_outside, byteAt_putEntry_of_outside away]
        · simp only [nextAt, e]
          omega
        · simp only [HashByte, hashTableAt, nHashEnt] at *
          omega
      refine ⟨link (putEntry d₁ blob name.val fid) e, pages', e :: es, .ok, ?_, ⟨kept, linked, ?_, ?_⟩, .ok blob (by rw [blobs])⟩
      · have there : hasPage d₁ (blob / epp) = true := hasPage_of_length space.length (by unfold epp at *; omega)
        have first : hasPage (putEntry d₁ blob name.val fid) 0 = true :=
          hasPage_of_length (Nat.le_trans space.length (length_putEntry ..)) space.some
        simp only [there, first, Bool.not_true, Bool.false_eq_true, if_false]
        rfl
      · intro f inside
        rcases List.mem_cons.mp inside with rfl | old
        · exact fits
        · exact valid.fits f old
      · exact List.pairwise_cons.mpr ⟨apart, valid.apart⟩

theorem Valid.unique (valid : Valid d pages es) {f : Entry}
    (inside : e ∈ es) (inside' : f ∈ es) (here : e.covers x) (there : f.covers x) : e = f := by
  by_contra different
  have symm : Std.Symm fun e f : Entry => ∀ x, e.covers x → ¬ f.covers x :=
    ⟨fun _ _ apart x here there => apart x there here⟩
  exact valid.apart.forall inside inside' different x here there

theorem slots_apart {p : Nat} (slot : (∃ j, p = hashTableAt j) ∨ ∃ b, p = nextAt b)
    (other : p ≠ slotAfter nextAt (hashTableAt i) before) :
    p + 2 ≤ slotAfter nextAt (hashTableAt i) before ∨ slotAfter nextAt (hashTableAt i) before + 2 ≤ p := by
  have even : ∃ k, slotAfter nextAt (hashTableAt i) before = 2 * k := by
    rcases @slotAfter_mem _ nextAt (hashTableAt i) before with head | ⟨b, -, next⟩
    · exact ⟨80 + i, by rw [head, hashTableAt]; omega⟩
    · exact ⟨16 * b + 1, by rw [next, nextAt]; omega⟩
  have even' : ∃ k, p = 2 * k := by
    rcases slot with ⟨j, head⟩ | ⟨b, next⟩
    · exact ⟨80 + j, by rw [head, hashTableAt]; omega⟩
    · exact ⟨16 * b + 1, by rw [next, nextAt]; omega⟩
  omega

theorem nextAt_injective : Function.Injective nextAt := by
  intro b c same
  unfold nextAt at same
  omega

variable {after : List Nat}

theorem slot_cases {cells before : List Nat} {i b : Nat} (split : cells = before ++ b :: after)
    (once : cells.Nodup) : slotAfter nextAt (hashTableAt i) before = hashTableAt i ∨
      ∃ c ∈ cells, c ≠ b ∧ slotAfter nextAt (hashTableAt i) before = nextAt c := by
  rcases @slotAfter_mem _ nextAt (hashTableAt i) before with head | ⟨c, known, next⟩
  · exact .inl head
  · rw [split, nodup_append] at once
    exact .inr ⟨c, by rw [split]; exact mem_append_left _ known, once.2.2 c known b mem_cons_self, next⟩

theorem chains_unlink {cellsOf : Nat → List Nat} {b : Nat}
    (chains : ∀ j < nHashEnt, Linked (shortAt d) nextAt (hashTableAt j) (cellsOf j))
    (blobs : ∀ j < nHashEnt, ∀ c ∈ cellsOf j, ¬ HeaderBlob c)
    (alone : ∀ j < nHashEnt, ∀ c ∈ cellsOf j, c ∈ cellsOf i → j = i) (bucket : i < nHashEnt)
    (split : cellsOf i = before ++ b :: after) {j : Nat} (small : j < nHashEnt) :
    Linked (shortAt (putShort d (slotAfter nextAt (hashTableAt i) before) (shortAt d (nextAt b)))) nextAt
      (hashTableAt j) ((cellsOf j).filter fun c => c ≠ b) := by
  have linked := chains i bucket
  have slot := @slot_cases _ _ _ i _ split linked.nodup
  have read := @shortAt_putShort d (slotAfter nextAt (hashTableAt i) before) _ (shortAt_lt d (nextAt b))
  have others : ∀ p, ((∃ k, p = hashTableAt k) ∨ ∃ c, p = nextAt c) → p ≠ slotAfter nextAt (hashTableAt i) before →
      shortAt (putShort d (slotAfter nextAt (hashTableAt i) before) (shortAt d (nextAt b))) p = shortAt d p :=
    fun p known other => shortAt_putShort_of_outside (slots_apart known other)
  by_cases here : j = i
  · subst here
    rw [split] at linked
    rw [split, filter_ne_of_nodup linked.nodup]
    apply linked.unlink nextAt_injective _ read
    · exact fun other => others _ (.inl ⟨_, rfl⟩) other
    · exact fun c _ other => others _ (.inr ⟨c, rfl⟩) other
    intro c known
    have blob := hash_before_blob (blobs j small c (by rw [split]; exact known)) small
    unfold nextAt
    omega
  rw [filter_ne_of_notMem fun known => here (alone j small b known (by rw [split]; simp))]
  apply (chains j small).congr
  · apply others _ (.inl ⟨j, rfl⟩)
    rcases slot with place | ⟨c, known, -, place⟩
    · rw [place]
      unfold hashTableAt
      omega
    have blob := hash_before_blob (blobs i bucket c known) small
    rw [place]
    unfold nextAt
    omega
  intro c known
  apply others _ (.inr ⟨c, rfl⟩)
  rcases slot with place | ⟨c', known', -, place⟩
  · have blob := hash_before_blob (blobs j small c known) bucket
    rw [place]
    unfold nextAt
    omega
  rw [place]
  intro equal
  rw [← nextAt_injective equal] at known'
  exact here (alone j small c known known')

theorem Valid.chainOf_filter (valid : Valid d pages es) (inside : e ∈ es) (i : Nat) :
    chainOf (es.filter fun f => f ≠ e) i = (chainOf es i).filter fun b => b ≠ e.blob := by
  rw [chainOf, chainOf, filter_map, filter_filter, filter_filter]
  congr 1
  apply filter_congr
  intro f known
  have same : f ≠ e ↔ f.blob ≠ e.blob := by
    refine not_congr ⟨fun equal => by rw [equal], fun equal => ?_⟩
    exact valid.unique known inside (covers_blob f) (by rw [equal]; exact covers_blob e)
  simp only [comp, Bool.and_comm, same]

theorem Valid.unlink {d : DirFile} {pages : Nat} {es : List Entry} (valid : Valid d pages es) {e : Entry}
    (inside : e ∈ es) {before : List Nat} (split : chainOf es e.bucket = before ++ e.blob :: after) :
    Threads (putShort d (slotAfter nextAt (hashTableAt e.bucket) before) (shortAt d (nextAt e.blob))) (es.filter fun f => f ≠ e) ∧
    Holds (putShort d (slotAfter nextAt (hashTableAt e.bucket) before) (shortAt d (nextAt e.blob))) e := by
  have bucket : e.bucket < nHashEnt := dirHash_lt _
  have blobs : ∀ i < nHashEnt, ∀ b ∈ chainOf es i, ¬ HeaderBlob b := by
    intro i _ b known
    obtain ⟨f, member, -, rfl⟩ := mem_chainOf.mp known
    exact (valid.blob member (covers_blob f)).2
  have alone : ∀ i < nHashEnt, ∀ b ∈ chainOf es i, b ∈ chainOf es e.bucket → i = e.bucket := by
    intro i _ b known known'
    obtain ⟨f, member, rfl, rfl⟩ := mem_chainOf.mp known
    obtain ⟨g, member', same, place⟩ := mem_chainOf.mp known'
    have equal := valid.unique member member' (covers_blob f) (by rw [← place]; exact covers_blob g)
    rw [equal, same]
  have holds : ∀ f ∈ es, Holds
      (putShort d (slotAfter nextAt (hashTableAt e.bucket) before) (shortAt d (nextAt e.blob))) f := by
    intro f member
    apply (valid.threads.holds f member).congr
    intro x here free
    apply byteAt_putShort_of_outside
    have blob := (valid.blob member (covers_of_hasByte here)).2
    rcases @slot_cases _ _ _ e.bucket _ split (valid.threads.chains _ bucket).nodup with place | ⟨c, known, -, place⟩
    · simp only [hashTableAt, nHashEnt, HeaderBlob, dhe, epp] at *
      omega
    obtain ⟨g, member', -, rfl⟩ := mem_chainOf.mp known
    by_contra touched
    have some := (size_bounds g.name).1
    have same : f = g := valid.unique member member' (covers_of_hasByte here) (by
      simp only [Entry.covers, InRun, Entry.size, nextAt] at *
      omega)
    subst same
    omega
  refine ⟨⟨?_, ?_, ?_⟩, holds e inside⟩
  · exact fun f member => holds f (List.mem_filter.mp member).1
  · intro i small
    rw [valid.chainOf_filter inside]
    exact chains_unlink valid.threads.chains blobs alone bucket split small
  · exact valid.threads.names.sublist (List.filter_sublist.map _)

theorem Valid.delete (valid : Valid d pages es)
    (inside : e ∈ es) (split : chainOf es e.bucket = before ++ e.blob :: after)
    {beyond : Beyond}
    (found : Dir.findItem beyond d e.name.val = some (some (e.blob, slotAfter nextAt (hashTableAt e.bucket) before))) :
    ∃ d', delete beyond e.name.val d = some (d', .ok) ∧ Valid d' pages (es.filter fun f => f ≠ e) := by
  obtain ⟨threads, holds⟩ := valid.unlink inside split
  have fits := valid.fits e inside
  obtain ⟨low, header⟩ := valid.blob inside (covers_blob e)
  -- the store into the slot is outside the maps
  have space : Space (putShort d (slotAfter nextAt (hashTableAt e.bucket) before) (shortAt d (nextAt e.blob))) pages
      (Covered es) := by
    apply valid.space.congr (length_le_pwrite ..)
    intro x _ map
    apply byteAt_putShort_of_outside
    rcases @slotAfter_mem _ nextAt (hashTableAt e.bucket) before with head | ⟨b, known, next⟩
    · have bucket : e.bucket < nHashEnt := dirHash_lt _
      simp only [MapByte, hashTableAt, nHashEnt, pageSize] at *
      omega
    obtain ⟨f, member, -, rfl⟩ := mem_chainOf.mp
      (show b ∈ chainOf es e.bucket by rw [split]; exact mem_append_left _ known)
    have blob := (valid.blob member (covers_blob f)).2
    simp only [MapByte, HeaderBlob, hashTableAt, nextAt, pageSize, dhe, epp] at *
    omega
  have rest : ∀ x, Covered (es.filter fun f => f ≠ e) x ↔ Covered es x ∧ ¬ InRun e.blob e.size x := by
    intro x
    constructor
    · rintro ⟨f, member, here⟩
      obtain ⟨old, other⟩ := List.mem_filter.mp member
      refine ⟨⟨f, old, here⟩, fun there => ?_⟩
      simp only [ne_eq, decide_not, Bool.not_eq_true', decide_eq_false_iff_not] at other
      exact other (valid.unique old inside here there)
    rintro ⟨⟨f, member, here⟩, outside⟩
    refine ⟨f, List.mem_filter.mpr ⟨member, ?_⟩, here⟩
    simp only [ne_eq, decide_not, Bool.not_eq_true', decide_eq_false_iff_not]
    rintro rfl
    exact outside here
  have name := holds.cString fits low space.length beyond
  obtain ⟨after', kept⟩ := freeBlobs_space space low fits (fun x here => ⟨e, inside, here⟩) rest
  refine ⟨freeBlobs e.blob e.size
    (putShort d (slotAfter nextAt (hashTableAt e.bucket) before) (shortAt d (nextAt e.blob))), ?_, after', ?_, ?_, ?_⟩
  · rw [Dir.delete, found, Option.map_some]
    simp only [name]
    rfl
  · exact threads.keeps valid.space.some (fun x here => space.within x ((rest x).mp here).1) kept
  · exact fun f member => valid.fits f (List.mem_filter.mp member).1
  · exact valid.apart.sublist filter_sublist

def Maps (es : List Entry) (live : Name → Option Fid) : Prop :=
  ∀ name fid, live name = some fid ↔ ∃ e ∈ es, e.name = name ∧ e.fid = fid

theorem Maps.eq_none (maps : Maps es live) {name : Name} : live name = none ↔ ∀ e ∈ es, e.name ≠ name := by
  rw [Option.eq_none_iff_forall_not_mem]
  constructor
  · intro none e inside same
    exact none e.fid ((maps name e.fid).mpr ⟨e, inside, same, rfl⟩)
  · intro none fid known
    obtain ⟨e, inside, same, -⟩ := (maps name fid).mp known
    exact none e inside same

theorem Valid.lookup (valid : Valid d pages es)
    (maps : Maps es live) (name : Name) (beyond : Beyond) : Dir.lookup beyond name.val d = some (live name) := by
  rcases valid.findItem name beyond with ⟨absent, missing⟩ | ⟨e, inside, rfl, before, after, -, found⟩
  · rw [Dir.lookup, absent, maps.eq_none.mpr missing]
    rfl
  · rw [Dir.lookup, found, (maps e.name e.fid).mpr ⟨e, inside, rfl, rfl⟩]
    simp only [Option.map_some, (valid.threads.holds e inside).fid]

def Entry.report (e : Entry) : Report := ⟨e.name.val, e.fid⟩

theorem enumerateChain_eq {beyond : Beyond} {hookproc : Report → Int} {fuel a : Nat} {cells : List Nat}
    (zero : ∀ r, hookproc r = 0) (linked : Linked (shortAt d) nextAt a cells)
    (there : ∀ c ∈ cells, hasPage d (c / epp) = true) (enough : cells.length < fuel) :
    enumerateChain beyond hookproc d fuel (shortAt d a) = some (cells.map fun c => ⟨cString beyond d (nameAt c), fidAt d c⟩) := by
  induction cells generalizing fuel a with
  | nil =>
    obtain ⟨fuel, rfl⟩ : ∃ k, fuel = k + 1 := ⟨fuel - 1, by omega⟩
    have stop : shortAt d a = 0 := linked
    rw [enumerateChain, if_pos stop]
    rfl
  | cons c rest ih =>
    obtain ⟨fuel, rfl⟩ : ∃ k, fuel = k + 1 := ⟨fuel - 1, by omega⟩
    have later := @ih fuel _ linked.2.2 (fun x inside => there x (mem_cons_of_mem _ inside))
      (by rw [length_cons] at enough; omega)
    rw [enumerateChain, linked.1, if_neg linked.2.1, there c mem_cons_self, Bool.not_true, if_neg Bool.false_ne_true]
    rw [if_pos (zero _), later]
    rfl

def enumerated (es : List Entry) : List Entry := (List.range nHashEnt).flatMap fun i => es.filter fun e => e.bucket = i

theorem mem_enumerated : e ∈ enumerated es ↔ e ∈ es := by
  simp only [enumerated, mem_flatMap, mem_range, mem_filter, decide_eq_true_eq]
  constructor
  · rintro ⟨i, -, inside, -⟩
    exact inside
  · intro inside
    exact ⟨e.bucket, dirHash_lt _, inside, rfl⟩

theorem nodup_enumerated (once : es.Nodup) : (enumerated es).Nodup := by
  rw [enumerated, nodup_flatMap]
  refine ⟨fun i _ => once.filter _, ?_⟩
  apply List.Pairwise.imp _ nodup_range
  intro i j different e left right
  simp only [mem_filter, decide_eq_true_eq] at left right
  exact different (left.2.symm.trans right.2)

theorem Valid.enumerateDir (valid : Valid d pages es) (beyond : Beyond) {hookproc : Report → Int} (zero : ∀ r, hookproc r = 0) :
    Dir.enumerateDir beyond hookproc d = some (.ok, (enumerated es).map Entry.report) := by
  have chains : ∀ i ∈ List.range nHashEnt, enumerateChain beyond hookproc d 65536 (shortAt d (hashTableAt i)) =
        some ((es.filter fun e => e.bucket = i).map Entry.report) := by
    intro i inside
    have linked := valid.threads.chains i (List.mem_range.mp inside)
    have there : ∀ c ∈ chainOf es i, hasPage d (c / epp) = true := by
      intro c known
      obtain ⟨e, member, -, rfl⟩ := mem_chainOf.mp known
      apply hasPage_of_length valid.space.length
      have low := (valid.blob member (covers_blob e)).1
      unfold epp at *
      omega
    rw [enumerateChain_eq zero linked there (length_chain_lt linked), chainOf, map_map, Option.some_inj, map_inj_left]
    intro e known
    have inside := (List.mem_filter.mp known).1
    simp only [comp, Entry.report, valid.cString inside, (valid.threads.holds e inside).fid]
  rw [Dir.enumerateDir, hasPage_of_length valid.space.length valid.space.some, Bool.not_true,
    if_neg Bool.false_ne_true, option_mapM_eq_some chains, Option.map_some, enumerated, map_flatMap]
  rfl

theorem findBlobs_one {junk : Page} {d : DirFile} {pages j : Nat} {used : Nat → Prop} (space : Space d pages used)
    (small : j < epp) (bits : ∀ b < epp, bitAt d 0 b = decide (b < j)) : (findBlobs junk 1 d).2 = some j := by
  have opened := openPage_of_lt space junk space.some
  have first : hasPage d 0 = true := hasPage_of_length space.length space.some
  have enough : 1 ≤ alloMap d 0 := by
    have some : 0 < pages := space.some
    rw [space.allo 0 (by decide), if_pos some, Nat.one_le_iff_ne_zero]
    intro full
    have taken := Nat.count_iff_forall_not.mp full j small
    rw [bits j small] at taken
    simp at taken
  have fit : firstFit d 0 1 = some j := by
    rw [firstFit, find?_range_eq_some]
    simp only [range_one, all_cons, all_nil, Nat.add_zero, Bool.and_true, Bool.not_not, mem_range]
    refine ⟨?_, by omega, ?_⟩
    · rw [bits j small]
      simp
    · intro b early
      rw [bits b (by omega)]
      simpa using early
  rw [findBlobs, first, Bool.not_true, if_neg Bool.false_ne_true]
  unfold bigMaxPages
  rw [findBlobsFrom, if_pos (.inr enough), opened]
  simp only [first, Bool.not_true, Bool.false_eq_true, if_false, fit, Nat.zero_mul, Nat.add_zero]

def dotName : Name := ⟨dot, by decide⟩

def dotdotName : Name := ⟨dotdot, by decide⟩

theorem Valid.create_one {d : DirFile} {pages j : Nat} {es : List Entry} {name : Name} (valid : Valid d pages es)
    (beyond : Beyond) (junk : Page) (fid : Fid) (one : nameBlobs name.val = 1) (fresh : ∀ e ∈ es, e.name ≠ name)
    (small : j < epp) (bits : ∀ b < epp, bitAt d 0 b = decide (b < j)) :
    ∃ d' pages', Dir.create beyond junk name.val fid d = some (d', .ok) ∧ Valid d' pages' (⟨j, name, fid⟩ :: es) := by
  have absent : Dir.findItem beyond d name.val = some none := by
    rcases valid.findItem name beyond with ⟨absent, -⟩ | ⟨e, inside, same, -⟩
    · exact absent
    · exact absurd same (fresh e inside)
  have place := @findBlobs_one junk _ _ _ _ valid.space small bits
  obtain ⟨d', pages', es', code, call, after, made⟩ := valid.create junk fid absent fresh
  rw [← one] at place
  cases made with
  | ok blob found =>
    rw [place] at found
    cases found
    exact ⟨d', pages', call, after⟩
  | full none =>
    rw [place] at none
    cases none

theorem makeDir_valid (beyond : Beyond) (junk : Page) (me parent : Fid) (old : DirFile) :
    ∃ d pages, makeDir beyond junk me parent old = some d ∧ Valid d pages [⟨14, dotdotName, parent⟩, ⟨13, dotName, me⟩] := by
  obtain ⟨d, pages, first, valid⟩ := @Valid.create_one _ _ _ _ dotName (valid_emptyDir junk old) beyond junk me rfl
    (fun _ none => by cases none) (by decide : 13 < epp) (fun b => bitAt_emptyDir junk old)
  have bits : ∀ b < epp, bitAt d 0 b = decide (b < 14) := by
    intro b small
    have taken := valid.space.bits 0 valid.space.some b small
    rw [Bool.eq_iff_iff, taken, decide_eq_true_eq]
    simp only [HeaderBlob, Covered, mem_singleton, exists_eq_left, Entry.covers, InRun, Entry.size, Nat.mul_zero, Nat.zero_add]
    have one : nameBlobs dotName.val = 1 := rfl
    unfold epp dhe at *
    omega
  have names : dotName ≠ dotdotName := by decide
  obtain ⟨d', pages', second, valid'⟩ := @Valid.create_one _ _ _ _ dotdotName valid beyond junk parent rfl
    (fun e inside => by cases List.mem_singleton.mp inside; exact names) (by decide) bits
  refine ⟨d', pages', ?_, valid'⟩
  have firstCall : create beyond junk dot me (emptyDir junk old) = some (d, .ok) := first
  have secondCall : create beyond junk dotdot parent d = some (d', .ok) := second
  rw [makeDir, firstCall, Option.bind_some, secondCall]
  rfl

structure DirState where
  file : DirFile
  live : Name → Option Fid

inductive DirCall where
  | create (beyond : Beyond) (junk : Page) (name : Name) (fid : Fid)
  | delete (beyond : Beyond) (name : Name)

def DirState.step (s : DirState) : DirCall → Option DirState
  | .create beyond junk name fid =>
    (Dir.create beyond junk name.val fid s.file).map fun (file, code) =>
      { file, live := if code = .ok then update s.live name (some fid) else s.live }
  | .delete beyond name =>
    (Dir.delete beyond name.val s.file).map fun (file, code) =>
      { file, live := if code = .ok then update s.live name none else s.live }

def directory : Machine DirState DirCall where
  start s := ∃ beyond junk me parent old, makeDir beyond junk me parent old = some s.file ∧
    s.live = update (update (fun _ => none) dotName (some me)) dotdotName (some parent)
  step := DirState.step

structure DirState.IsMap (s : DirState) : Prop where
  lookup : ∀ beyond name, Dir.lookup beyond name.val s.file = some (s.live name)
  create : ∀ beyond junk (name : Name) fid, ∃ file code, Dir.create beyond junk name.val fid s.file = some (file, code) ∧
    (code = .eexist ↔ s.live name ≠ none) ∧ (code = .ok ∨ code = .eexist ∨ code = .efbig)
  delete : ∀ beyond (name : Name), ∃ file code, Dir.delete beyond name.val s.file = some (file, code) ∧
    (code = .enoent ↔ s.live name = none) ∧ (code = .ok ∨ code = .enoent)
  enumerate : ∀ beyond hookproc, (∀ r, hookproc r = 0) →
    ∃ reports, enumerateDir beyond hookproc s.file = some (.ok, reports) ∧ reports.Nodup ∧
      ∀ r, r ∈ reports ↔ ∃ name : Name, r.name = name.val ∧ s.live name = some r.fid

def DirState.Inv (s : DirState) : Prop := ∃ pages es, Valid s.file pages es ∧ Maps es s.live

theorem Maps.cons (maps : Maps es live)
    (fresh : ∀ f ∈ es, f.name ≠ e.name) : Maps (e :: es) (update live e.name (some e.fid)) := by
  intro name fid
  by_cases here : name = e.name
  · subst here
    rw [Function.update_self]
    constructor
    · rintro ⟨⟩
      exact ⟨e, mem_cons_self, rfl, rfl⟩
    rintro ⟨f, inside, same, rfl⟩
    rcases List.mem_cons.mp inside with rfl | old
    · rfl
    · exact absurd same (fresh f old)
  · rw [Function.update_of_ne here, maps name fid]
    constructor
    · rintro ⟨f, inside, known⟩
      exact ⟨f, mem_cons_of_mem _ inside, known⟩
    rintro ⟨f, inside, same, fid⟩
    rcases List.mem_cons.mp inside with rfl | old
    · exact absurd same.symm here
    · exact ⟨f, old, same, fid⟩

theorem Maps.erase {es : List Entry} {live : Name → Option Fid} (maps : Maps es live) {e : Entry}
    (alone : ∀ f ∈ es, f.name = e.name → f = e) :
    Maps (es.filter fun f => f ≠ e) (update live e.name none) := by
  intro name fid
  simp only [mem_filter, ne_eq, decide_not, Bool.not_eq_true', decide_eq_false_iff_not]
  by_cases here : name = e.name
  · subst here
    rw [Function.update_self]
    constructor
    · rintro ⟨⟩
    · rintro ⟨f, ⟨inside, other⟩, same, -⟩
      exact absurd (alone f inside same) other
  rw [Function.update_of_ne here, maps name fid]
  constructor
  · rintro ⟨f, inside, same, known⟩
    refine ⟨f, ⟨inside, ?_⟩, same, known⟩
    rintro rfl
    exact here same.symm
  · rintro ⟨f, ⟨inside, -⟩, known⟩
    exact ⟨f, inside, known⟩

theorem Threads.alone (threads : Threads d es) {f : Entry} (inside : e ∈ es)
    (inside' : f ∈ es) (same : f.name = e.name) : f = e :=
  inj_on_of_nodup_map threads.names inside' inside same

theorem DirState.Inv.step {s s' : DirState} {call : DirCall} (inv : s.Inv) (taken : s.step call = some s') : s'.Inv := by
  obtain ⟨pages, es, valid, maps⟩ := inv
  cases call with
  | create beyond junk name fid =>
    obtain ⟨⟨d, code⟩, call, rfl⟩ := Option.map_eq_some_iff.mp taken
    rcases valid.findItem name beyond with ⟨absent, fresh⟩ | ⟨e, inside, same, before, after, -, found⟩
    · obtain ⟨d', pages', es', code', call', after, made⟩ := valid.create junk fid absent fresh
      rw [call] at call'
      cases call'
      refine ⟨pages', es', after, ?_⟩
      cases made with
      | ok blob _ => exact maps.cons (e := ⟨blob, name, fid⟩) fresh
      | full _ => exact maps
    · rw [Dir.create, if_neg name.property.1, found] at call
      cases call
      exact ⟨pages, es, valid, maps⟩
  | delete beyond name =>
    obtain ⟨⟨d, code⟩, call, rfl⟩ := Option.map_eq_some_iff.mp taken
    rcases valid.findItem name beyond with ⟨absent, -⟩ | ⟨e, inside, rfl, before, after, split, found⟩
    · rw [Dir.delete, absent] at call
      cases call
      exact ⟨pages, es, valid, maps⟩
    obtain ⟨d', call', after'⟩ := valid.delete inside split found
    rw [call] at call'
    cases call'
    exact ⟨pages, _, after', maps.erase fun f => valid.threads.alone inside⟩

theorem DirState.Inv.isMap {s : DirState} (inv : s.Inv) : s.IsMap := by
  obtain ⟨pages, es, valid, maps⟩ := inv
  constructor
  · exact fun beyond name => valid.lookup maps name beyond
  · intro beyond junk name fid
    rcases valid.findItem name beyond with ⟨absent, fresh⟩ | ⟨e, inside, rfl, before, after, -, found⟩
    · obtain ⟨d', pages', es', code, call, -, made⟩ := valid.create junk fid absent fresh
      refine ⟨d', code, call, ?_⟩
      have none := maps.eq_none.mpr fresh
      cases made <;> simp [none]
    · refine ⟨s.file, .eexist, by rw [Dir.create, if_neg e.name.property.1, found]; rfl, ?_, .inr (.inl rfl)⟩
      simp [(maps e.name e.fid).mpr ⟨e, inside, rfl, rfl⟩]
  · intro beyond name
    rcases valid.findItem name beyond with ⟨absent, fresh⟩ | ⟨e, inside, rfl, before, after, split, found⟩
    · exact ⟨s.file, .enoent, by rw [Dir.delete, absent]; rfl, by simp [maps.eq_none.mpr fresh], .inr rfl⟩
    · obtain ⟨d', call, -⟩ := valid.delete inside split found
      refine ⟨d', .ok, call, ?_, .inl rfl⟩
      simp [(maps e.name e.fid).mpr ⟨e, inside, rfl, rfl⟩]
  intro beyond hookproc zero
  have entries : es.Nodup := List.Nodup.of_map _ valid.threads.names
  refine ⟨_, valid.enumerateDir beyond zero, ?_, ?_⟩
  · apply (nodup_enumerated entries).map_on
    intro e inside f inside' same
    apply valid.threads.alone (mem_enumerated.mp inside') (mem_enumerated.mp inside)
    exact Subtype.ext (congrArg Report.name same)
  intro r
  simp only [mem_map, mem_enumerated, maps _ _]
  constructor
  · rintro ⟨e, inside, rfl⟩
    exact ⟨e.name, rfl, e, inside, rfl, rfl⟩
  · rintro ⟨name, same, e, inside, rfl, fid⟩
    refine ⟨e, inside, ?_⟩
    rw [Entry.report, fid, ← same]

/-- In every run of `Create` and `Delete` calls from `MakeDir` on, the calls answer as those of a finite map. -/
theorem directory_is_map {s : DirState} (reached : directory.Reach s) : s.IsMap := by
  have inv : s.Inv := reached.invariant (fun s start => by
    obtain ⟨beyond, junk, me, parent, old, made, live⟩ := start
    obtain ⟨d, pages, made', valid⟩ := makeDir_valid beyond junk me parent old
    rw [made] at made'
    cases made'
    refine ⟨pages, _, valid, ?_⟩
    rw [live]
    have none : Maps [] fun _ => Option.none := by simp [Maps]
    have dot := none.cons (e := ⟨13, dotName, me⟩) (by simp)
    exact dot.cons (e := ⟨14, dotdotName, parent⟩) (by simp; decide))
    fun _ _ _ inv _ taken => inv.step taken
  exact inv.isMap

def blankPage : Page := ⟨List.replicate pageSize 0, length_replicate⟩

theorem makeDir_isSome (beyond : Beyond) (junk : Page) (me parent : Fid) (old : DirFile) :
    (makeDir beyond junk me parent old).isSome = true := by
  obtain ⟨d, -, made, -⟩ := makeDir_valid beyond junk me parent old
  rw [made]
  rfl

def freshDir : DirState where
  file := (makeDir (fun _ => []) blankPage ⟨1, 1⟩ ⟨1, 1⟩ []).get (makeDir_isSome ..)
  live := update (update (fun _ => none) dotName (some ⟨1, 1⟩)) dotdotName (some ⟨1, 1⟩)

theorem freshDir_start : directory.start freshDir := by
  refine ⟨fun _ => [], blankPage, ⟨1, 1⟩, ⟨1, 1⟩, [], ?_, rfl⟩
  rw [freshDir, Option.some_get]

def readme : Name := ⟨[82, 69, 65, 68, 77, 69], by decide⟩

def createThenDelete : List DirCall :=
  [.create (fun _ => []) blankPage readme ⟨2, 7⟩, .create (fun _ => []) blankPage readme ⟨4, 8⟩, .delete (fun _ => []) readme]

def createdThenDeleted : DirState := (directory.run freshDir createThenDelete).get (by decide +kernel)

theorem directory_is_map_createdThenDeleted : createdThenDeleted.IsMap := by
  have ran : directory.run freshDir createThenDelete = some createdThenDeleted := (Option.some_get _).symm
  exact directory_is_map (Machine.Reach.run (.start freshDir_start) ran)

end OpenAFS.Dir
