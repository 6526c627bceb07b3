import OpenAFS.Dir.Space
import OpenAFS.Lib.Chain

namespace OpenAFS.Dir

open Lib List

abbrev Name := { bytes : List UInt8 // bytes ≠ [] ∧ bytes.length ≤ 255 ∧ (0 : UInt8) ∉ bytes }

structure Entry where
  blob : Nat
  name : Name
  fid : Fid
  deriving DecidableEq, Repr

namespace Entry

def size (e : Entry) : Nat := nameBlobs e.name.val

def covers (e : Entry) (x : Nat) : Prop := InRun e.blob e.size x

def HasByte (e : Entry) (x : Nat) : Prop := 32 * e.blob ≤ x ∧ x < 32 * (e.blob + e.size)

def bucket (e : Entry) : Nat := dirHash e.name.val

end Entry

def Covered (es : List Entry) (x : Nat) : Prop := ∃ e ∈ es, e.covers x

def HashByte (x : Nat) : Prop := hashTableAt 0 ≤ x ∧ x < hashTableAt nHashEnt

structure Holds (d : DirFile) (e : Entry) : Prop where
  flag : byteAt d (flagAt e.blob) = fFirst
  fid : fidAt d e.blob = e.fid
  name : ∀ i ≤ e.name.val.length, byteAt d (nameAt e.blob + i) = byteAt e.name.val i

def chainOf (es : List Entry) (i : Nat) : List Nat := (es.filter fun e => e.bucket = i).map Entry.blob

structure Threads (d : DirFile) (es : List Entry) : Prop where
  holds : ∀ e ∈ es, Holds d e
  chains : ∀ i < nHashEnt, Linked (shortAt d) nextAt (hashTableAt i) (chainOf es i)
  names : (es.map Entry.name).Nodup

structure Valid (d : DirFile) (pages : Nat) (es : List Entry) : Prop where
  space : Space d pages (Covered es)
  threads : Threads d es
  fits : ∀ e ∈ es, e.blob % epp + e.size ≤ epp
  apart : es.Pairwise fun e f => ∀ x, e.covers x → ¬ f.covers x

theorem size_bounds (name : Name) : 1 ≤ nameBlobs name.val ∧ nameBlobs name.val ≤ 9 ∧
    12 + (name.val.length + 1) ≤ 32 * nameBlobs name.val := by
  unfold nameBlobs
  omega

theorem covers_blob (e : Entry) : e.covers e.blob := by
  have some := (size_bounds e.name).1
  refine ⟨Nat.le_refl _, ?_⟩
  unfold Entry.size
  omega

variable {e : Entry} {x b pages lp : Nat} {es : List Entry} {d : DirFile} {beyond : Beyond} {ename : List UInt8}
  {cells : List Nat}

theorem covers_of_hasByte (inside : e.HasByte x) : e.covers (x / 32) := by
  obtain ⟨after, before⟩ := inside
  constructor <;> omega

theorem not_mapByte_of_hash (inside : HashByte x) : ¬ MapByte x := by
  simp only [HashByte, MapByte, hashTableAt, nHashEnt, pageSize] at *
  omega

theorem not_mapByte_of_blob (blob : ¬ HeaderBlob (x / 32)) : ¬ MapByte x := by
  simp only [HeaderBlob, MapByte, hashTableAt, pageSize, epp, dhe] at *
  omega

variable {d' : DirFile}

theorem Holds.congr {d : DirFile} {e : Entry} (holds : Holds d e)
    (same : ∀ x, e.HasByte x → (x < nextAt e.blob ∨ nextAt e.blob + 2 ≤ x) → byteAt d' x = byteAt d x) :
    Holds d' e := by
  have bounds := size_bounds e.name
  have fields : ∀ k, k < 12 + (e.name.val.length + 1) → (k < 2 ∨ 4 ≤ k) →
      byteAt d' (32 * e.blob + k) = byteAt d (32 * e.blob + k) := by
    intro k inside other
    apply same
    · simp only [Entry.HasByte, Entry.size]
      omega
    · unfold nextAt
      omega
  refine ⟨(fields 0 (by omega) (by omega)).trans holds.flag, ?_, ?_⟩
  · rw [← holds.fid]
    have vnode : longAt d' (vnodeAt e.blob) = longAt d (vnodeAt e.blob) := by
      apply longAt_congr
      intro k small
      rw [vnodeAt, Nat.add_assoc]
      exact fields (4 + k) (by omega) (by omega)
    have vunique : longAt d' (vuniqueAt e.blob) = longAt d (vuniqueAt e.blob) := by
      apply longAt_congr
      intro k small
      rw [vuniqueAt, Nat.add_assoc]
      exact fields (8 + k) (by omega) (by omega)
    rw [fidAt, fidAt, vnode, vunique]
  · intro k inside
    rw [← holds.name k inside, nameAt, Nat.add_assoc]
    exact fields (12 + k) (by omega) (by omega)

theorem mem_chainOf {i : Nat} : b ∈ chainOf es i ↔ ∃ e ∈ es, e.bucket = i ∧ e.blob = b := by
  simp only [chainOf, mem_map, mem_filter, decide_eq_true_eq, and_assoc]

theorem Threads.congr {d : DirFile} {es : List Entry} (threads : Threads d es)
    (same : ∀ x, HashByte x ∨ (∃ e ∈ es, e.HasByte x) → byteAt d' x = byteAt d x) : Threads d' es := by
  refine ⟨?_, ?_, threads.names⟩
  · intro e inside
    exact (threads.holds e inside).congr fun x here _ => same x (.inr ⟨e, inside, here⟩)
  intro i small
  apply (threads.chains i small).congr
  · apply shortAt_congr
    all_goals
      apply same
      left
      simp only [HashByte, hashTableAt, nHashEnt] at *
      omega
  intro b inside
  obtain ⟨e, known, -, rfl⟩ := mem_chainOf.mp inside
  have some := (size_bounds e.name).1
  apply shortAt_congr
  all_goals
    apply same
    right
    refine ⟨e, known, ?_⟩
    simp only [Entry.HasByte, Entry.size, nextAt]
    omega

theorem Valid.blob (valid : Valid d pages es) (inside : e ∈ es)
    (here : e.covers x) : x < epp * pages ∧ ¬ HeaderBlob x := valid.space.within x ⟨e, inside, here⟩

theorem Threads.keeps (threads : Threads d es) (some : 1 ≤ pages)
    (blobs : ∀ x, Covered es x → x < epp * pages ∧ ¬ HeaderBlob x) (kept : Keeps pages d d') : Threads d' es := by
  apply threads.congr
  rintro x (hash | ⟨e, inside, here⟩)
  · apply kept x _ (not_mapByte_of_hash hash)
    simp only [HashByte, hashTableAt, nHashEnt, pageSize] at *
    omega
  obtain ⟨low, blob⟩ := blobs (x / 32) ⟨e, inside, covers_of_hasByte here⟩
  apply kept x _ (not_mapByte_of_blob blob)
  unfold pageSize epp at *
  omega

theorem valid_emptyDir (junk : Page) (old : DirFile) : Valid (emptyDir junk old) 1 [] := by
  have none : Covered [] = fun _ => False := by
    funext x
    simp [Covered]
  refine ⟨none ▸ space_emptyDir junk old, ⟨?_, ?_, nodup_nil⟩, ?_, List.Pairwise.nil⟩
  · intro e inside
    cases inside
  · intro i small
    have zero : shortAt (emptyDir junk old) (hashTableAt i) = 0 := by
      rw [shortAt, byteAt_emptyDir_hashTable, byteAt_emptyDir_hashTable]
      · rfl
      all_goals
        simp only [hashTableAt, nHashEnt] at *
        omega
    exact zero
  · intro e inside
    cases inside

theorem cString_eq {p : Nat} {name : List UInt8} (text : (0 : UInt8) ∉ name)
    (bytes : ∀ i ≤ name.length, byteAt d (p + i) = byteAt name i) (inside : p % pageSize + name.length < pageSize)
    (there : p + name.length < d.length) : cString beyond d p = name := by
  have read : pread d p (pageSize - p % pageSize) =
      name ++ 0 :: (pread d p (pageSize - p % pageSize)).drop (name.length + 1) := by
    have length := length_pread d p (pageSize - p % pageSize)
    apply ext_byteAt
    · rw [length_append, length_cons, length_drop]
      omega
    intro i
    rw [byteAt_append]
    split
    · rename_i early
      rw [pread, byteAt_take, if_pos (by omega), byteAt_drop, bytes i (by omega)]
    rename_i late
    by_cases here : i = name.length
    · rw [here, Nat.sub_self, pread, byteAt_take, if_pos (by omega), byteAt_drop, bytes _ (Nat.le_refl _)]
      exact byteAt_of_length_le (Nat.le_refl _)
    obtain ⟨k, later⟩ : ∃ k, i - name.length = k + 1 := ⟨i - name.length - 1, by omega⟩
    rw [later]
    change _ = byteAt (List.drop (name.length + 1) _) k
    rw [byteAt_drop]
    congr 1
    omega
  rw [cString, read, append_assoc, takeWhile_append_of_pos]
  · simp
  intro c known
  simp only [ne_eq, decide_not, Bool.not_eq_true', decide_eq_false_iff_not]
  rintro rfl
  exact text known

theorem cString_congr {p : Nat} (there : hasPage d (p / pageSize) = true) (longer : d.length ≤ d'.length)
    (same : ∀ i ≤ (cString beyond d p).length, p % pageSize + i < pageSize → byteAt d' (p + i) = byteAt d (p + i)) :
    cString beyond d' p = cString beyond d p := by
  unfold hasPage at there
  rw [decide_eq_true_eq] at there
  have length := length_pread d p (pageSize - p % pageSize)
  have length' := length_pread d' p (pageSize - p % pageSize)
  apply takeWhile_append_congr
  · unfold pageSize at *
    omega
  intro i before inside
  have inPage : p % pageSize + i < pageSize := by omega
  rw [pread, pread, byteAt_take, byteAt_take, if_pos (by omega), if_pos (by omega), byteAt_drop, byteAt_drop]
  exact same i before inPage

theorem Holds.cString (holds : Holds d e)
    (fits : e.blob % epp + e.size ≤ epp) (low : e.blob < epp * pages) (length : pageSize * pages ≤ d.length)
    (beyond : Beyond) : cString beyond d (nameAt e.blob) = e.name.val := by
  have bounds := size_bounds e.name
  unfold Entry.size at fits
  apply cString_eq e.name.property.2.2 holds.name
  all_goals
    simp only [nameAt, pageSize, epp] at *
    omega

theorem Valid.cString (valid : Valid d pages es)
    (inside : e ∈ es) (beyond : Beyond) : Dir.cString beyond d (nameAt e.blob) = e.name.val :=
  (valid.threads.holds e inside).cString (valid.fits e inside) (valid.blob inside (covers_blob e)).1
    valid.space.length beyond

def locate (nameOf : Nat → List UInt8) (ename : List UInt8) : Nat → List Nat → Option (Nat × Nat)
  | _, [] => none
  | lp, b :: rest => if ename = nameOf b then some (b, lp) else locate nameOf ename (nextAt b) rest

theorem locate_eq_none {nameOf : Nat → List UInt8} : locate nameOf ename lp cells = none ↔ ∀ b ∈ cells, ename ≠ nameOf b := by
  induction cells generalizing lp with
  | nil => simp [locate]
  | cons c rest ih =>
    rw [locate]
    split
    · rename_i here
      simp [here]
    · rename_i other
      rw [ih]
      simp [other]

theorem locate_map_fst (nameOf : Nat → List UInt8) (ename : List UInt8) (lp : Nat) (cells : List Nat) :
    (locate nameOf ename lp cells).map Prod.fst = cells.find? fun b => ename = nameOf b := by
  induction cells generalizing lp with
  | nil => rfl
  | cons c rest ih =>
    rw [locate, find?_cons]
    split
    · rename_i here
      simp only [here, decide_true, Option.map_some]
    · rename_i other
      simp only [other, decide_false, ih]

theorem locate_eq_some {nameOf : Nat → List UInt8} {lp' : Nat} (found : locate nameOf ename lp cells = some (b, lp')) :
    ∃ before after, cells = before ++ b :: after ∧ lp' = slotAfter nextAt lp before ∧ ename = nameOf b ∧
      ∀ c ∈ before, ename ≠ nameOf c := by
  induction cells generalizing lp with
  | nil => cases found
  | cons c rest ih =>
    rw [locate] at found
    split at found
    · rename_i here
      cases found
      exact ⟨[], rest, rfl, rfl, here, fun _ none => by cases none⟩
    rename_i other
    obtain ⟨before, after, split, slot, here, earlier⟩ := ih found
    refine ⟨c :: before, after, by rw [split]; rfl, slot, here, ?_⟩
    intro d inside
    rcases List.mem_cons.mp inside with rfl | later
    · exact other
    · exact earlier d later

theorem findItemFrom_eq {fuel : Nat} {rest : List Nat}
    (linked : Linked (shortAt d) nextAt lp (b :: rest)) (there : ∀ c ∈ rest, hasPage d (c / epp) = true)
    (enough : rest.length < fuel) :
    findItemFrom beyond d ename fuel lp b = some (locate (fun c => cString beyond d (nameAt c)) ename lp (b :: rest)) := by
  induction rest generalizing fuel lp b with
  | nil =>
    obtain ⟨fuel, rfl⟩ : ∃ k, fuel = k + 1 := ⟨fuel - 1, by omega⟩
    have stop : shortAt d (nextAt b) = 0 := linked.2.2
    simp only [findItemFrom, locate, if_pos stop]
    split <;> rfl
  | cons c rest ih =>
    obtain ⟨fuel, rfl⟩ : ∃ k, fuel = k + 1 := ⟨fuel - 1, by omega⟩
    have next := linked.2.2
    have more : shortAt d (nextAt b) ≠ 0 := by
      rw [next.1]
      exact next.2.1
    rw [findItemFrom, locate]
    split
    · rfl
    rw [if_neg more, next.1, if_pos (there c mem_cons_self)]
    apply ih next
    · exact fun x inside => there x (mem_cons_of_mem _ inside)
    · rw [length_cons] at enough
      omega

theorem length_chain_lt (linked : Linked (shortAt d) nextAt lp cells) : cells.length < 65536 := by
  have once : (0 :: cells).Nodup := List.nodup_cons.mpr ⟨fun zero => linked.ne_zero zero rfl, linked.nodup⟩
  apply length_le_of_nodup once
  intro b inside
  rcases List.mem_cons.mp inside with rfl | inside
  · decide
  obtain ⟨before, after, split⟩ := append_of_mem inside
  rw [split] at linked
  rw [← linked.drop.1]
  exact shortAt_lt d _

theorem findItem_eq {beyond : Beyond} {d : DirFile} {ename : List UInt8} {cells : List Nat}
    (linked : Linked (shortAt d) nextAt (hashTableAt (dirHash ename)) cells) (first : hasPage d 0 = true)
    (there : ∀ c ∈ cells, hasPage d (c / epp) = true) :
    findItem beyond d ename = some (locate (fun c => cString beyond d (nameAt c)) ename (hashTableAt (dirHash ename)) cells) := by
  rw [findItem, first, Bool.not_true, if_neg (by decide)]
  cases cells with
  | nil =>
    have none : shortAt d (hashTableAt (dirHash ename)) = 0 := linked
    rw [if_pos none, locate]
  | cons b rest =>
    have bound := length_chain_lt linked
    rw [linked.1, if_neg linked.2.1, if_pos (there b mem_cons_self)]
    apply findItemFrom_eq linked
    · exact fun c inside => there c (mem_cons_of_mem _ inside)
    · rw [length_cons] at bound
      omega

end OpenAFS.Dir
