import OpenAFS.Dir.Fields
import OpenAFS.Lib.Counting

namespace OpenAFS.Dir

open Lib List

def HeaderBlob (x : Nat) : Prop := x % epp = 0 ∨ x < dhe + 1

instance (x : Nat) : Decidable (HeaderBlob x) := by unfold HeaderBlob; infer_instance

def MapByte (x : Nat) : Prop := x % pageSize < 32 ∨ x < hashTableAt 0

def free (d : DirFile) (page : Nat) : Nat := Nat.count (fun b => bitAt d page b = false) epp

structure Space (d : DirFile) (pages : Nat) (used : Nat → Prop) : Prop where
  some : 1 ≤ pages
  most : pages ≤ bigMaxPages
  pgcount : pgcount d = pages
  length : pageSize * pages ≤ d.length
  tag : ∀ p < pages, shortAt d (tagAt p) = 1234
  allo : ∀ p < maxPages, alloMap d p = if p < pages then free d p else epp
  bits : ∀ p < pages, ∀ b < epp, bitAt d p b = true ↔ HeaderBlob (epp * p + b) ∨ used (epp * p + b)
  within : ∀ x, used x → x < epp * pages ∧ ¬ HeaderBlob x

def Keeps (pages : Nat) (d d' : DirFile) : Prop := ∀ x < pageSize * pages, ¬ MapByte x → byteAt d' x = byteAt d x

theorem Keeps.refl (pages : Nat) (d : DirFile) : Keeps pages d d := fun _ _ _ => rfl

variable {pages page p x b i j n : Nat} {d d' old : DirFile} {used : Nat → Prop} {junk : Page} {byte : UInt8}

theorem Keeps.trans {pages' : Nat} {d'' : DirFile} (first : Keeps pages d d') (more : pages ≤ pages')
    (second : Keeps pages' d' d'') : Keeps pages d d'' := by
  intro x below outside
  have further : x < pageSize * pages' := by
    unfold pageSize at *
    omega
  rw [second x further outside, first x below outside]

theorem free_congr (same : ∀ b < epp, bitAt d' page b = bitAt d page b) : free d' page = free d page := by
  unfold free
  rw [Nat.count_eq_card_filter_range, Nat.count_eq_card_filter_range]
  congr 1
  apply Finset.filter_congr
  intro b inside
  rw [same b (Finset.mem_range.mp inside)]

theorem alloMap_congr (same : byteAt d' (alloMapAt page) = byteAt d (alloMapAt page)) : alloMap d' page = alloMap d page := by
  rw [alloMap, alloMap, same]

theorem bit_zero (space : Space d pages used) (inside : p < pages) : bitAt d p 0 = true :=
  (space.bits p inside 0 (by decide)).mpr (.inl (.inl (by unfold epp; omega)))

theorem free_lt (space : Space d pages used) (inside : p < pages) : free d p < epp := by
  have most : free d p ≤ epp := Nat.count_le _
  have taken : free d p ≠ epp := by
    intro all
    have clear := Nat.count_iff_forall.mp all 0 (by decide)
    rw [bit_zero space inside] at clear
    cases clear
  omega

theorem Space.congr {d d' : DirFile} {pages : Nat} {used : Nat → Prop} (space : Space d pages used)
    (length : d.length ≤ d'.length) (same : ∀ x < pageSize * pages, MapByte x → byteAt d' x = byteAt d x) :
    Space d' pages used := by
  have some := space.some
  have bits : ∀ p < pages, ∀ b < epp, bitAt d' p b = bitAt d p b := by
    intro p inside b small
    apply bitAt_congr
    apply same
    · unfold freebitmapAt epp pageSize at *
      omega
    · left
      unfold freebitmapAt epp pageSize at *
      omega
  have short : ∀ p < pages, ∀ i < 16, shortAt d' (pageSize * p + 2 * i) = shortAt d (pageSize * p + 2 * i) := by
    intro p inside i small
    apply shortAt_congr
    all_goals
      apply same
      · unfold pageSize at *
        omega
      · left
        unfold pageSize at *
        omega
  refine ⟨some, space.most, ?_, Nat.le_trans space.length length, ?_, ?_, ?_, space.within⟩
  · rw [← space.pgcount]
    exact short 0 some 0 (by decide)
  · intro p inside
    rw [← space.tag p inside]
    exact short p inside 1 (by decide)
  · intro p small
    have map : alloMap d' p = alloMap d p := by
      apply alloMap_congr
      apply same
      · unfold alloMapAt maxPages pageSize at *
        omega
      · right
        unfold alloMapAt hashTableAt maxPages at *
        omega
    rw [map, space.allo p small]
    split
    · rename_i inside
      rw [free_congr (bits p inside)]
    · rfl
  · intro p inside b small
    rw [bits p inside b small]
    exact space.bits p inside b small

theorem byteAt_addPage_of_outside {pageno : Nat} (outside : x < pageSize * pageno ∨ pageSize * (pageno + 1) ≤ x) :
    byteAt (addPage pageno junk d) x = byteAt d x := by
  have fresh : byteAt (dNew pageno junk d) x = byteAt d x := by
    apply byteAt_pwrite_of_outside
    rw [junk.property]
    omega
  have tagged : byteAt (putShort (dNew pageno junk d) (tagAt pageno) 1234) x = byteAt (dNew pageno junk d) x := by
    apply byteAt_putShort_of_outside
    unfold tagAt pageSize at *
    omega
  have counted : byteAt (putShort (putShort (dNew pageno junk d) (tagAt pageno) 1234) (pgcountAt pageno) 0) x =
      byteAt (putShort (dNew pageno junk d) (tagAt pageno) 1234) x := by
    apply byteAt_putShort_of_outside
    unfold pgcountAt pageSize at *
    omega
  unfold addPage
  rw [byteAt_pwrite_of_outside, byteAt_pwrite_of_outside]
  · split
    · rw [counted, tagged, fresh]
    · rw [tagged, fresh]
  · simp only [freecountAt, pageSize, length_singleton] at *
    omega
  · simp only [freebitmapAt, pageSize, epp, length_cons, length_replicate] at *
    omega

theorem length_addPage (pageno : Nat) (junk : Page) (d : DirFile) :
    pageSize * (pageno + 1) ≤ (addPage pageno junk d).length ∧ d.length ≤ (addPage pageno junk d).length := by
  have size : (dNew pageno junk d).length = max d.length (pageSize * (pageno + 1)) := by
    rw [dNew, length_pwrite, junk.property, if_neg]
    · rfl
    · exact ne_nil_of_length_pos (by rw [junk.property]; decide)
  have grown : (dNew pageno junk d).length ≤ (addPage pageno junk d).length := by
    refine Nat.le_trans ?_ (length_le_pwrite ..)
    refine Nat.le_trans ?_ (length_le_pwrite ..)
    split
    · exact Nat.le_trans (length_le_pwrite ..) (length_le_pwrite ..)
    · exact length_le_pwrite ..
  omega

theorem tag_addPage (pageno : Nat) (junk : Page) (d : DirFile) : shortAt (addPage pageno junk d) (tagAt pageno) = 1234 := by
  have tagged : shortAt (putShort (dNew pageno junk d) (tagAt pageno) 1234) (tagAt pageno) = 1234 :=
    shortAt_putShort (by decide)
  have later : ∀ x, tagAt pageno ≤ x → x < tagAt pageno + 2 → byteAt (pwrite (pwrite (if 0 < pageno then
        putShort (putShort (dNew pageno junk d) (tagAt pageno) 1234) (pgcountAt pageno) 0
        else putShort (dNew pageno junk d) (tagAt pageno) 1234) (freecountAt pageno) [.ofNat (epp - 1)])
        (freebitmapAt pageno) (1 :: List.replicate (epp / 8 - 1) 0)) x =
      byteAt (putShort (dNew pageno junk d) (tagAt pageno) 1234) x := by
    intro x after before
    rw [byteAt_pwrite_of_outside, byteAt_pwrite_of_outside]
    · split
      · apply byteAt_putShort_of_outside
        simp only [tagAt, pgcountAt] at *
        omega
      · rfl
    · simp only [tagAt, freecountAt] at *
      omega
    · simp only [tagAt, freebitmapAt] at *
      omega
  exact (shortAt_congr (later _ (by omega) (by omega)) (later _ (by omega) (by omega))).trans tagged

theorem bitAt_addPage (pageno : Nat) (junk : Page) (d : DirFile) (small : b < epp) :
    bitAt (addPage pageno junk d) pageno b = decide (b = 0) := by
  have byte : byteAt (addPage pageno junk d) (freebitmapAt pageno + b / 8) =
      byteAt (1 :: List.replicate (epp / 8 - 1) 0) (b / 8) := by
    unfold addPage
    rw [byteAt_pwrite, if_pos, Nat.add_sub_cancel_left]
    simp only [epp, length_cons, length_replicate] at *
    omega
  rw [bitAt, byte]
  clear byte
  revert b
  decide

section

variable (space : Space d pages used)
include space

theorem openPage_of_lt (junk : Page) (inside : i < pages) : openPage junk i d = d := by
  have counted : pgcount d ≠ 0 := by
    rw [space.pgcount]
    omega
  unfold openPage
  split
  · rw [if_neg (by rw [space.pgcount]; omega)]
  rename_i early
  have map := space.allo i (by omega)
  rw [if_pos inside] at map
  have few := free_lt space inside
  rw [if_neg (by omega)]

theorem Space.newPage
    (room : pages < bigMaxPages) (count : Dir.pgcount d' = pages + 1) (length : pageSize * (pages + 1) ≤ d'.length)
    (tag : shortAt d' (tagAt pages) = 1234) (bits : ∀ b < epp, bitAt d' pages b = decide (b = 0))
    (allo : pages < maxPages → alloMap d' pages = epp - 1)
    (same : ∀ x, 2 ≤ x → x < pageSize * pages → (x ≠ alloMapAt pages ∨ maxPages ≤ pages) → byteAt d' x = byteAt d x) :
    Space d' (pages + 1) used := by
  have oldBits : ∀ p < pages, ∀ b < epp, bitAt d' p b = bitAt d p b := by
    intro p inside b small
    apply bitAt_congr
    apply same
    · simp only [freebitmapAt]
      omega
    · simp only [freebitmapAt, pageSize, epp] at *
      omega
    · simp only [freebitmapAt, alloMapAt, pageSize, epp, maxPages] at *
      omega
  refine ⟨by omega, by omega, count, length, ?_, ?_, ?_, ?_⟩
  · intro p inside
    by_cases old : p < pages
    · rw [← space.tag p old]
      apply shortAt_congr
      all_goals
        apply same
        all_goals
          simp only [tagAt, alloMapAt, pageSize, maxPages] at *
          omega
    · have here : p = pages := by omega
      rw [here, tag]
  · intro p small
    by_cases here : p = pages
    · subst here
      have counted : free d' p = epp - 1 := by
        unfold free
        rw [Nat.count_eq_card_filter_range, Finset.filter_congr (q := fun b => ¬ b = 0)]
        · decide
        · intro b inside
          rw [bits b (Finset.mem_range.mp inside), decide_eq_false_iff_not]
      rw [if_pos (by omega), counted, allo small]
    have map : alloMap d' p = alloMap d p := by
      apply alloMap_congr
      apply same
      all_goals
        simp only [alloMapAt, maxPages, pageSize] at *
        have some := space.some
        omega
    rw [map, space.allo p small]
    by_cases old : p < pages
    · rw [if_pos old, if_pos (by omega), free_congr (oldBits p old)]
    · rw [if_neg old, if_neg (by omega)]
  · intro p inside b small
    by_cases old : p < pages
    · rw [oldBits p old b small]
      exact space.bits p old b small
    have here : p = pages := by omega
    subst here
    rw [bits b small, decide_eq_true_eq]
    constructor
    · rintro rfl
      exact .inl (.inl (by unfold epp; omega))
    rintro (header | inUse)
    · have some := space.some
      simp only [HeaderBlob, epp, dhe] at *
      omega
    · have low := (space.within _ inUse).1
      omega
  · intro x inUse
    have known := space.within x inUse
    refine ⟨?_, known.2⟩
    unfold epp at *
    omega

theorem byteAt_openPage (junk : Page)
    (behind : 2 ≤ x) (other : x ≠ alloMapAt pages ∨ maxPages ≤ pages) :
    byteAt (openPage junk pages d) x = byteAt (addPage pages junk d) x := by
  have some := space.some
  have counted : pgcount d ≠ 0 := by
    rw [space.pgcount]
    omega
  have front : pgcountAt 0 + 2 ≤ x := behind
  unfold openPage
  split
  · rw [if_pos (by rw [space.pgcount]; omega), byteAt_putShort_of_outside (.inr front)]
  rename_i early
  have map := space.allo pages (by omega)
  rw [if_neg (Nat.lt_irrefl _)] at map
  rw [if_pos map, byteAt_putShort_of_outside (.inr front), byteAt_pwrite_of_outside]
  simp only [length_singleton]
  omega

theorem pgcount_openPage (junk : Page)
    (room : pages < bigMaxPages) : pgcount (openPage junk pages d) = pages + 1 := by
  have some := space.some
  have counted : pgcount d ≠ 0 := by
    rw [space.pgcount]
    omega
  have small : pages + 1 < 65536 := by
    unfold bigMaxPages at room
    omega
  unfold openPage
  split
  · rw [if_pos (by rw [space.pgcount]; omega)]
    exact shortAt_putShort small
  rename_i early
  have map := space.allo pages (by omega)
  rw [if_neg (Nat.lt_irrefl _)] at map
  rw [if_pos map]
  exact shortAt_putShort small

theorem length_openPage (junk : Page) : pageSize * (pages + 1) ≤ (openPage junk pages d).length := by
  have some := space.some
  have counted : pgcount d ≠ 0 := by
    rw [space.pgcount]
    omega
  have grown := (length_addPage pages junk d).1
  unfold openPage
  split
  · rw [if_pos (by rw [space.pgcount]; omega)]
    exact Nat.le_trans grown (length_le_pwrite ..)
  rename_i early
  have map := space.allo pages (by omega)
  rw [if_neg (Nat.lt_irrefl _)] at map
  rw [if_pos map]
  exact Nat.le_trans grown (Nat.le_trans (length_le_pwrite ..) (length_le_pwrite ..))

theorem alloMap_openPage (junk : Page)
    (early : pages < maxPages) : alloMap (openPage junk pages d) pages = epp - 1 := by
  have map := space.allo pages early
  rw [if_neg (Nat.lt_irrefl _)] at map
  rw [openPage, if_neg (by omega), if_pos map, alloMap,
    byteAt_putShort_of_outside (by simp only [pgcountAt, alloMapAt, pageSize]; omega), byteAt_pwrite,
    if_pos (by simp), Nat.sub_self]
  rfl

theorem openPage_new (junk : Page) (room : pages < bigMaxPages) :
    Space (openPage junk pages d) (pages + 1) used ∧ Keeps pages d (openPage junk pages d) ∧
      ∀ b < epp, bitAt (openPage junk pages d) pages b = decide (b = 0) := by
  have before : ∀ x, 2 ≤ x → x < pageSize * pages → (x ≠ alloMapAt pages ∨ maxPages ≤ pages) →
      byteAt (openPage junk pages d) x = byteAt d x := by
    intro x behind below other
    rw [byteAt_openPage space junk behind other, byteAt_addPage_of_outside (.inl below)]
  have tag : shortAt (openPage junk pages d) (tagAt pages) = 1234 := by
    rw [← tag_addPage pages junk d]
    apply shortAt_congr
    all_goals
      apply byteAt_openPage space
      all_goals
        simp only [tagAt, alloMapAt, pageSize] at *
        omega
  have bits : ∀ b < epp, bitAt (openPage junk pages d) pages b = decide (b = 0) := by
    intro b small
    rw [← bitAt_addPage pages junk d small]
    apply bitAt_congr
    apply byteAt_openPage space
    all_goals
      simp only [freebitmapAt, alloMapAt, pageSize, epp] at *
      omega
  refine ⟨space.newPage room (pgcount_openPage space junk room) (length_openPage space junk) tag bits
    (alloMap_openPage space junk) before, ?_, bits⟩
  intro x below outside
  apply before x _ below
  all_goals
    simp only [MapByte, hashTableAt, alloMapAt, pageSize, maxPages] at *
    omega

end

def setBits (page j n : Nat) (d : DirFile) : DirFile := (List.range n).foldl (fun d k => setBit d page (j + k)) d

def clearBits (page j n : Nat) (d : DirFile) : DirFile := (List.range n).foldl (fun d k => clearBit d page (j + k)) d

theorem setBits_succ (page j n : Nat) (d : DirFile) : setBits page j (n + 1) d = setBit (setBits page j n d) page (j + n) := by
  rw [setBits, range_succ, foldl_append]
  rfl

theorem clearBits_succ (page j n : Nat) (d : DirFile) :
    clearBits page j (n + 1) d = clearBit (clearBits page j n d) page (j + n) := by
  rw [clearBits, range_succ, foldl_append]
  rfl

theorem bitAt_setBits {page' : Nat} (fits : j + n ≤ mapBits) (small : b < mapBits) :
    bitAt (setBits page j n d) page' b = (bitAt d page' b || decide (page = page' ∧ j ≤ b ∧ b < j + n)) := by
  induction n with
  | zero =>
    have none : ¬ (page = page' ∧ j ≤ b ∧ b < j + 0) := by omega
    simp only [none, decide_false, Bool.or_false]
    rfl
  | succ n ih =>
    rw [setBits_succ, bitAt_setBit (by omega) small, ih (by omega), Bool.or_assoc, ← Bool.decide_or]
    congr 1
    simp only [decide_eq_decide]
    omega

theorem bitAt_clearBits {page' : Nat} (fits : j + n ≤ mapBits) (small : b < mapBits) :
    bitAt (clearBits page j n d) page' b = (bitAt d page' b && !decide (page = page' ∧ j ≤ b ∧ b < j + n)) := by
  induction n with
  | zero =>
    have none : ¬ (page = page' ∧ j ≤ b ∧ b < j + 0) := by omega
    simp only [none, decide_false, Bool.not_false, Bool.and_true]
    rfl
  | succ n ih =>
    rw [clearBits_succ, bitAt_clearBit (by omega) small, ih (by omega), Bool.and_assoc, ← Bool.not_or, ← Bool.decide_or]
    congr 2
    simp only [decide_eq_decide]
    omega

theorem byteAt_setBits_of_outside (fits : j + n ≤ mapBits)
    (outside : x < freebitmapAt page ∨ freebitmapAt page + 16 ≤ x) : byteAt (setBits page j n d) x = byteAt d x := by
  induction n with
  | zero => rfl
  | succ n ih =>
    rw [setBits_succ, byteAt_setBit_of_outside, ih (by omega)]
    simp only [mapBits] at fits
    omega

theorem byteAt_clearBits_of_outside (fits : j + n ≤ mapBits)
    (outside : x < freebitmapAt page ∨ freebitmapAt page + 16 ≤ x) : byteAt (clearBits page j n d) x = byteAt d x := by
  induction n with
  | zero => rfl
  | succ n ih =>
    rw [clearBits_succ, byteAt_clearBit_of_outside, ih (by omega)]
    simp only [mapBits] at fits
    omega

theorem length_setBits (page j n : Nat) (d : DirFile) : d.length ≤ (setBits page j n d).length := by
  induction n with
  | zero => exact Nat.le_refl _
  | succ n ih =>
    rw [setBits_succ]
    exact Nat.le_trans ih (length_le_pwrite ..)

theorem length_clearBits (page j n : Nat) (d : DirFile) : d.length ≤ (clearBits page j n d).length := by
  induction n with
  | zero => exact Nat.le_refl _
  | succ n ih =>
    rw [clearBits_succ]
    exact Nat.le_trans ih (length_le_pwrite ..)

theorem free_setBits (fits : j + n ≤ epp)
    (clear : ∀ k < n, bitAt d page (j + k) = false) : free (setBits page j n d) page + n = free d page := by
  induction n with
  | zero => rfl
  | succ n ih =>
    have before := ih (by omega) fun k small => clear k (by omega)
    have here : bitAt (setBits page j n d) page (j + n) = false := by
      rw [bitAt_setBits (by unfold mapBits epp at *; omega) (by unfold mapBits epp at *; omega), clear n (by omega)]
      simp
    have step : free (setBits page j n d) page = free (setBits page j (n + 1) d) page + 1 := by
      rw [setBits_succ]
      apply count_insert (b := j + n) (by omega)
      · rw [bitAt_setBit (by unfold mapBits epp at *; omega) (by unfold mapBits epp at *; omega)]
        simp
      · exact here
      · intro x inside other
        rw [bitAt_setBit (by unfold mapBits epp at *; omega) (by unfold mapBits epp at *; omega)]
        simp [Ne.symm other]
    omega

theorem free_clearBits (fits : j + n ≤ epp)
    (set : ∀ k < n, bitAt d page (j + k) = true) : free (clearBits page j n d) page = free d page + n := by
  induction n with
  | zero => rfl
  | succ n ih =>
    have before := ih (by omega) fun k small => set k (by omega)
    have here : bitAt (clearBits page j n d) page (j + n) = true := by
      rw [bitAt_clearBits (by unfold mapBits epp at *; omega) (by unfold mapBits epp at *; omega), set n (by omega)]
      simp
    have step : free (clearBits page j (n + 1) d) page = free (clearBits page j n d) page + 1 := by
      rw [clearBits_succ]
      apply count_insert (b := j + n) (by omega)
      · rw [here]
        decide
      · rw [bitAt_clearBit (by unfold mapBits epp at *; omega) (by unfold mapBits epp at *; omega)]
        simp
      · intro x inside other
        rw [bitAt_clearBit (by unfold mapBits epp at *; omega) (by unfold mapBits epp at *; omega)]
        simp [Ne.symm other]
    omega

variable {used' : Nat → Prop}

theorem Space.change {d d' : DirFile} {pages page : Nat} {used : Nat → Prop} (space : Space d pages used)
    (length : d.length ≤ d'.length) (inside : page < pages)
    (allo : page < maxPages → alloMap d' page = free d' page)
    (bits : ∀ b < epp, bitAt d' page b = true ↔ HeaderBlob (epp * page + b) ∨ used' (epp * page + b))
    (others : ∀ x, x / epp ≠ page → (used' x ↔ used x))
    (within : ∀ x, used' x → x < epp * pages ∧ ¬ HeaderBlob x)
    (same : ∀ x, (x < freebitmapAt page ∨ freebitmapAt page + 16 ≤ x) → (x ≠ alloMapAt page ∨ maxPages ≤ page) →
      byteAt d' x = byteAt d x) : Space d' pages used' := by
  have other : ∀ p, p ≠ page → ∀ b < epp, bitAt d' p b = bitAt d p b := by
    intro p different b small
    apply bitAt_congr
    apply same
    all_goals
      simp only [freebitmapAt, alloMapAt, pageSize, epp, maxPages] at *
      omega
  refine ⟨space.some, space.most, ?_, Nat.le_trans space.length length, ?_, ?_, ?_, within⟩
  · rw [← space.pgcount]
    apply shortAt_congr
    all_goals
      apply same
      all_goals
        simp only [freebitmapAt, alloMapAt, pgcountAt, pageSize] at *
        omega
  · intro p known
    rw [← space.tag p known]
    apply shortAt_congr
    all_goals
      apply same
      all_goals
        simp only [freebitmapAt, alloMapAt, tagAt, pageSize, maxPages] at *
        omega
  · intro p small
    by_cases here : p = page
    · subst here
      rw [if_pos inside, allo small]
    have map : alloMap d' p = alloMap d p := by
      apply alloMap_congr
      apply same
      all_goals
        simp only [freebitmapAt, alloMapAt, pageSize, maxPages] at *
        omega
    rw [map, space.allo p small, free_congr (other p here)]
  · intro p known b small
    by_cases here : p = page
    · subst here
      exact bits b small
    · rw [other p here b small, space.bits p known b small, others]
      unfold epp at *
      omega

def InRun (first n x : Nat) : Prop := first ≤ x ∧ x < first + n

theorem toNat_sub_ofNat (enough : n ≤ byte.toNat) : (byte - .ofNat n).toNat = byte.toNat - n := by
  have small := byte.toNat_lt
  rw [UInt8.toNat_sub_of_le]
  · rw [UInt8.toNat_ofNat']
    omega
  · rw [UInt8.le_iff_toNat_le, UInt8.toNat_ofNat']
    omega

theorem toNat_add_ofNat (room : byte.toNat + n < 256) : (byte + .ofNat n).toNat = byte.toNat + n := by
  rw [UInt8.toNat_add, UInt8.toNat_ofNat']
  omega

def changeAlloMap (page : Nat) (byte : UInt8) (d : DirFile) : DirFile :=
  if page < maxPages then pwrite d (alloMapAt page) [byte] else d

theorem byteAt_changeAlloMap
    (other : x ≠ alloMapAt page ∨ maxPages ≤ page) : byteAt (changeAlloMap page byte d) x = byteAt d x := by
  unfold changeAlloMap
  split
  · apply byteAt_pwrite_of_outside
    simp only [length_singleton]
    omega
  · rfl

theorem alloMap_changeAlloMap (early : page < maxPages) : alloMap (changeAlloMap page byte d) page = byte.toNat := by
  rw [changeAlloMap, if_pos early, alloMap, byteAt_pwrite, if_pos (by simp), Nat.sub_self]
  rfl

theorem length_changeAlloMap (page : Nat) (byte : UInt8) (d : DirFile) : d.length ≤ (changeAlloMap page byte d).length := by
  unfold changeAlloMap
  split
  · exact length_le_pwrite ..
  · exact Nat.le_refl _

theorem bitAt_changeAlloMap (small : b < epp) : bitAt (changeAlloMap page byte d) p b = bitAt d p b := by
  apply bitAt_congr
  apply byteAt_changeAlloMap
  simp only [freebitmapAt, alloMapAt, pageSize, epp, maxPages] at *
  omega

theorem Space.take (space : Space d pages used)
    (inside : page < pages) (fits : j + n ≤ epp) (clear : ∀ k < n, bitAt d page (j + k) = false) :
    Space (setBits page j n (changeAlloMap page (byteAt d (alloMapAt page) - .ofNat n) d)) pages
      (fun x => used x ∨ InRun (j + page * epp) n x) := by
  have room : j + n ≤ mapBits := by
    unfold mapBits epp at *
    omega
  have counted : free (setBits page j n (changeAlloMap page (byteAt d (alloMapAt page) - .ofNat n) d)) page + n =
      free d page := by
    rw [free_setBits fits]
    · exact free_congr fun b small => bitAt_changeAlloMap small
    · intro k small
      rw [bitAt_changeAlloMap (by omega), clear k small]
  apply space.change (Nat.le_trans (length_changeAlloMap ..) (length_setBits ..)) inside
  · intro early
    have before := space.allo page early
    rw [if_pos inside] at before
    have map : alloMap (setBits page j n (changeAlloMap page (byteAt d (alloMapAt page) - .ofNat n) d)) page =
        alloMap (changeAlloMap page (byteAt d (alloMapAt page) - .ofNat n) d) page := by
      apply alloMap_congr
      apply byteAt_setBits_of_outside room
      simp only [freebitmapAt, alloMapAt, pageSize, maxPages] at *
      omega
    rw [map, alloMap_changeAlloMap early]
    unfold alloMap at before
    rw [toNat_sub_ofNat (by omega)]
    omega
  · intro b small
    rw [bitAt_setBits room (by unfold mapBits epp at *; omega), bitAt_changeAlloMap small, Bool.or_eq_true,
      space.bits page inside b small, decide_eq_true_eq, or_assoc]
    simp only [true_and, InRun]
    refine or_congr_right (or_congr_right ?_)
    unfold epp at *
    omega
  · intro x other
    have outside : ¬ InRun (j + page * epp) n x := by
      unfold InRun epp at *
      omega
    simp only [outside, or_false]
  · rintro x (inUse | ⟨after, before⟩)
    · exact space.within x inUse
    have bit := clear (x - (j + page * epp)) (by omega)
    have place : epp * page + (j + (x - (j + page * epp))) = x := by
      rw [Nat.mul_comm epp page]
      omega
    have taken := space.bits page inside (j + (x - (j + page * epp))) (by omega)
    rw [bit, place] at taken
    constructor
    · unfold epp at *
      omega
    · intro header
      cases taken.mpr (.inl header)
  · intro x outside other
    rw [byteAt_setBits_of_outside room outside, byteAt_changeAlloMap other]

theorem Space.give (space : Space d pages used)
    (inside : page < pages) (fits : j + n ≤ epp) (taken : ∀ x, InRun (epp * page + j) n x → used x)
    (rest : ∀ x, used' x ↔ used x ∧ ¬ InRun (epp * page + j) n x) :
    Space (clearBits page j n (changeAlloMap page (byteAt d (alloMapAt page) + .ofNat n) d)) pages used' := by
  have room : j + n ≤ mapBits := by
    unfold mapBits epp at *
    omega
  have set : ∀ k < n, bitAt d page (j + k) = true := by
    intro k small
    rw [space.bits page inside (j + k) (by omega)]
    exact .inr (taken _ ⟨by omega, by omega⟩)
  have counted : free (clearBits page j n (changeAlloMap page (byteAt d (alloMapAt page) + .ofNat n) d)) page =
      free d page + n := by
    rw [free_clearBits fits]
    · congr 1
      exact free_congr fun b small => bitAt_changeAlloMap small
    · intro k small
      rw [bitAt_changeAlloMap (by omega), set k small]
  apply space.change (Nat.le_trans (length_changeAlloMap ..) (length_clearBits ..)) inside
  · intro early
    have before := space.allo page early
    rw [if_pos inside] at before
    have map : alloMap (clearBits page j n (changeAlloMap page (byteAt d (alloMapAt page) + .ofNat n) d)) page =
        alloMap (changeAlloMap page (byteAt d (alloMapAt page) + .ofNat n) d) page := by
      apply alloMap_congr
      apply byteAt_clearBits_of_outside room
      simp only [freebitmapAt, alloMapAt, pageSize, maxPages] at *
      omega
    have most : free (clearBits page j n (changeAlloMap page (byteAt d (alloMapAt page) + .ofNat n) d)) page ≤ epp :=
      Nat.count_le _
    rw [map, alloMap_changeAlloMap early]
    unfold alloMap at before
    rw [toNat_add_ofNat (by unfold epp at *; omega)]
    omega
  · intro b small
    rw [bitAt_clearBits room (by unfold mapBits epp at *; omega), bitAt_changeAlloMap small, Bool.and_eq_true,
      space.bits page inside b small, rest]
    simp only [Bool.not_eq_true', decide_eq_false_iff_not, true_and]
    have same : (j ≤ b ∧ b < j + n) ↔ InRun (epp * page + j) n (epp * page + b) := by
      unfold InRun
      omega
    rw [same]
    have apart : HeaderBlob (epp * page + b) → ¬ InRun (epp * page + j) n (epp * page + b) :=
      fun header run => (space.within _ (taken _ run)).2 header
    constructor
    · rintro ⟨header | inUse, outside⟩
      · exact .inl header
      · exact .inr ⟨inUse, outside⟩
    · rintro (header | ⟨inUse, outside⟩)
      · exact ⟨.inl header, apart header⟩
      · exact ⟨.inr inUse, outside⟩
  · intro x other
    have outside : ¬ InRun (epp * page + j) n x := by
      unfold InRun epp at *
      omega
    rw [rest]
    simp only [outside, not_false_eq_true, and_true]
  · intro x inUse
    exact space.within x ((rest x).mp inUse).1
  · intro x outside other
    rw [byteAt_clearBits_of_outside room outside, byteAt_changeAlloMap other]

theorem keeps_take (pages : Nat) (fits : j + n ≤ mapBits) : Keeps pages d (setBits page j n (changeAlloMap page byte d)) := by
  intro x _ outside
  rw [byteAt_setBits_of_outside fits, byteAt_changeAlloMap]
  all_goals
    simp only [MapByte, freebitmapAt, alloMapAt, hashTableAt, pageSize, maxPages] at *
    omega

theorem keeps_give (pages : Nat) (fits : j + n ≤ mapBits) : Keeps pages d (clearBits page j n (changeAlloMap page byte d)) := by
  intro x _ outside
  rw [byteAt_clearBits_of_outside fits, byteAt_changeAlloMap]
  all_goals
    simp only [MapByte, freebitmapAt, alloMapAt, hashTableAt, pageSize, maxPages] at *
    omega

theorem firstFit_some {nblobs : Nat} (found : firstFit d i nblobs = some j) : j + nblobs ≤ epp ∨ epp < nblobs := by
  have inside := List.mem_range.mp (mem_of_find?_eq_some found)
  omega

theorem firstFit_clear {nblobs : Nat} (found : firstFit d i nblobs = some j) : ∀ k < nblobs, bitAt d i (j + k) = false := by
  intro k small
  have all := find?_some found
  rw [all_eq_true] at all
  simpa using all k (List.mem_range.mpr small)

structure Found (d : DirFile) (pages : Nat) (used : Nat → Prop) (n : Nat) (d' : DirFile) (blob : Option Nat) :
    Prop where
  space : ∃ pages', pages ≤ pages' ∧ Space d' pages' fun x => used x ∨ ∃ first ∈ blob, InRun first n x
  keeps : Keeps pages d d'
  fits : ∀ first ∈ blob, first % epp + n ≤ epp
  fresh : ∀ first ∈ blob, ∀ x, InRun first n x → ¬ used x

theorem findBlobsFrom_found {fuel : Nat}
    (space : Space d pages used) (some : 1 ≤ n) (small : n < epp) (left : i + fuel = bigMaxPages) (next : i ≤ pages) :
    Found d pages used n (findBlobsFrom junk n fuel i d).1 (findBlobsFrom junk n fuel i d).2 := by
  induction fuel generalizing i d pages with
  | zero =>
    refine ⟨⟨pages, Nat.le_refl _, ?_⟩, .refl pages d, ?_, ?_⟩
    · simpa [findBlobsFrom] using space
    · intro _ none
      cases none
    · intro _ none
      cases none
  | succ fuel ih =>
    rw [findBlobsFrom]
    split
    · -- the page is opened, and added if it is the one after the last
      have opened : ∃ pages', pages ≤ pages' ∧ i < pages' ∧ Space (openPage junk i d) pages' used ∧
          Keeps pages d (openPage junk i d) ∧ (i < pages ∨ ∀ b < epp, bitAt (openPage junk i d) i b = decide (b = 0)) := by
        by_cases old : i < pages
        · rw [openPage_of_lt space junk old]
          exact ⟨pages, Nat.le_refl _, old, space, .refl pages d, .inl old⟩
        have here : i = pages := by omega
        subst here
        obtain ⟨grown, kept, bits⟩ := openPage_new space junk (by omega)
        exact ⟨i + 1, by omega, by omega, grown, kept, .inr bits⟩
      obtain ⟨pages', more, inside, grown, kept, fresh⟩ := opened
      dsimp only
      rw [hasPage_of_length grown.length inside, Bool.not_true, if_neg (by decide)]
      split
      · rename_i j found
        have clear := firstFit_clear found
        have fits : j + n ≤ epp := by
          rcases firstFit_some found with fits | large
          · exact fits
          · omega
        have taken := grown.take inside fits clear
        refine ⟨⟨pages', more, ?_⟩, ?_, ?_, ?_⟩
        · simpa [setBits, changeAlloMap] using taken
        · exact kept.trans more (keeps_take pages' (by unfold mapBits epp at *; omega))
        · rintro first ⟨⟩
          unfold epp at *
          omega
        rintro first ⟨⟩ x ⟨after, before⟩ inUse
        have bit := clear (x - (j + i * epp)) (by omega)
        have place : epp * i + (j + (x - (j + i * epp))) = x := by
          rw [Nat.mul_comm epp i]
          omega
        have set := (grown.bits i inside (j + (x - (j + i * epp))) (by omega)).mpr (.inr (by rwa [place]))
        rw [bit] at set
        cases set
      · rename_i none
        have old : i < pages := by
          rcases fresh with old | bits
          · exact old
          exfalso
          have fails := List.find?_eq_none.mp none 1 (List.mem_range.mpr (by omega))
          apply fails
          rw [all_eq_true]
          intro k inside
          rw [bits (1 + k) (by have := List.mem_range.mp inside; omega)]
          simp
        rw [openPage_of_lt space junk old]
        exact ih space (by omega) (by omega)
    · rename_i passed
      have old : i < pages := by
        by_contra late
        have map := space.allo i (by omega)
        rw [if_neg late] at map
        omega
      exact ih space (by omega) (by omega)

theorem findBlobs_found {junk : Page} {n pages : Nat} {d : DirFile} {used : Nat → Prop} (space : Space d pages used)
    (some : 1 ≤ n) (small : n < epp) :
    Found d pages used n (findBlobs junk n d).1 (findBlobs junk n d).2 := by
  rw [findBlobs, hasPage_of_length space.length space.some, Bool.not_true, if_neg (by decide)]
  exact findBlobsFrom_found space some small (Nat.zero_add _) (Nat.zero_le _)

theorem freeBlobs_eq {first : Nat} (zero : hasPage d 0 = true) (there : hasPage d (first / epp) = true) :
    freeBlobs first n d = clearBits (first / epp) (first % epp) n
      (changeAlloMap (first / epp) (byteAt d (alloMapAt (first / epp)) + .ofNat n) d) := by
  have offset : first - epp * (first / epp) = first % epp := by
    have place := Nat.div_add_mod first epp
    omega
  have still : hasPage (changeAlloMap (first / epp) (byteAt d (alloMapAt (first / epp)) + .ofNat n) d) (first / epp) =
      true := by
    have longer := length_changeAlloMap (first / epp) (byteAt d (alloMapAt (first / epp)) + .ofNat n) d
    unfold hasPage at *
    rw [decide_eq_true_eq] at *
    omega
  rw [freeBlobs, zero, Bool.not_true, if_neg (by decide), offset]
  exact if_pos still

theorem freeBlobs_space {first : Nat} (space : Space d pages used)
    (inside : first < epp * pages) (fits : first % epp + n ≤ epp) (taken : ∀ x, InRun first n x → used x)
    (rest : ∀ x, used' x ↔ used x ∧ ¬ InRun first n x) :
    Space (freeBlobs first n d) pages used' ∧ Keeps pages d (freeBlobs first n d) := by
  have place : epp * (first / epp) + first % epp = first := Nat.div_add_mod ..
  have below : first / epp < pages := by
    unfold epp at *
    omega
  rw [freeBlobs_eq (hasPage_of_length space.length space.some) (hasPage_of_length space.length below)]
  constructor
  · apply space.give below fits
    · rwa [place]
    · rwa [place]
  · exact keeps_give pages (by unfold mapBits epp at *; omega)

theorem byteAt_emptyDir_hashTable (after : hashTableAt 0 ≤ x)
    (before : x < hashTableAt nHashEnt) : byteAt (emptyDir junk old) x = 0 := by
  unfold emptyDir
  rw [byteAt_pwrite]
  split
  · exact byteAt_replicate ..
  rename_i outside
  rw [length_replicate] at outside
  simp only [hashTableAt, nHashEnt] at *
  omega

theorem byteAt_emptyDir_alloMap (small : p < maxPages) :
    byteAt (emptyDir junk old) (alloMapAt p) = if p = 0 then .ofNat (epp - dhe - 1) else .ofNat epp := by
  have inside : alloMapAt 0 ≤ alloMapAt p ∧ alloMapAt p <
      alloMapAt 0 + (UInt8.ofNat (epp - dhe - 1) :: List.replicate (maxPages - 1) (UInt8.ofNat epp)).length := by
    simp only [alloMapAt, maxPages, length_cons, length_replicate] at *
    omega
  have offset : alloMapAt p - alloMapAt 0 = p := by
    simp only [alloMapAt]
    omega
  unfold emptyDir
  rw [byteAt_pwrite_of_outside (by simp only [alloMapAt, hashTableAt, maxPages] at *; omega), byteAt_pwrite,
    if_pos inside, offset]
  cases p with
  | zero => rfl
  | succ p =>
    rw [if_neg (by omega), byteAt, getD_cons_succ, getD_replicate]
    omega

theorem byteAt_emptyDir_freebitmap {k : Nat} (small : k < epp / 8) :
    byteAt (emptyDir junk old) (freebitmapAt 0 + k) = byteAt ([0xff, 0x1f] ++ List.replicate (epp / 8 - 2) 0) k := by
  unfold epp at small
  unfold emptyDir
  rw [byteAt_pwrite_of_outside (by simp only [freebitmapAt, hashTableAt, pageSize]; omega),
    byteAt_pwrite_of_outside (by simp only [freebitmapAt, alloMapAt, pageSize]; omega), byteAt_pwrite, if_pos,
    Nat.add_sub_cancel_left]
  refine ⟨by omega, ?_⟩
  simp only [epp, length_append, length_cons, length_nil, length_replicate]
  omega

theorem shortAt_emptyDir (front : p + 2 ≤ freecountAt 0) : shortAt (emptyDir junk old) p =
      shortAt (putShort (putShort (dNew 0 junk old) (pgcountAt 0) 1) (tagAt 0) 1234) p := by
  have bytes : ∀ x < freecountAt 0, byteAt (emptyDir junk old) x =
      byteAt (putShort (putShort (dNew 0 junk old) (pgcountAt 0) 1) (tagAt 0) 1234) x := by
    intro x before
    unfold emptyDir
    rw [byteAt_pwrite_of_outside, byteAt_pwrite_of_outside, byteAt_pwrite_of_outside, byteAt_pwrite_of_outside]
    all_goals
      simp only [freecountAt, freebitmapAt, alloMapAt, hashTableAt, pageSize] at *
      omega
  exact shortAt_congr (bytes p (by omega)) (bytes (p + 1) (by omega))

theorem length_emptyDir (junk : Page) (old : DirFile) : pageSize ≤ (emptyDir junk old).length := by
  have fresh : pageSize ≤ (dNew 0 junk old).length := by
    rw [dNew, length_pwrite, junk.property]
    split
    · rename_i none
      have size := junk.property
      rw [none] at size
      cases size
    · omega
  refine Nat.le_trans ?_ (length_le_pwrite ..)
  refine Nat.le_trans ?_ (length_le_pwrite ..)
  refine Nat.le_trans ?_ (length_le_pwrite ..)
  refine Nat.le_trans ?_ (length_le_pwrite ..)
  exact Nat.le_trans fresh (Nat.le_trans (length_le_pwrite ..) (length_le_pwrite ..))

theorem bitAt_emptyDir (junk : Page) (old : DirFile) (small : b < epp) :
    bitAt (emptyDir junk old) 0 b = decide (b < dhe + 1) := by
  rw [bitAt, byteAt_emptyDir_freebitmap (by unfold epp at *; omega)]
  revert b
  decide

theorem space_emptyDir (junk : Page) (old : DirFile) : Space (emptyDir junk old) 1 fun _ => False := by
  refine ⟨Nat.le_refl _, by decide, ?_, length_emptyDir junk old, ?_, ?_, ?_, fun _ impossible => impossible.elim⟩
  · rw [pgcount, shortAt_emptyDir (by decide), shortAt_putShort_of_outside (by decide), shortAt_putShort (by decide)]
  · intro p inside
    have here : p = 0 := by omega
    subst here
    rw [shortAt_emptyDir (by decide), shortAt_putShort (by decide)]
  · intro p small
    rw [alloMap, byteAt_emptyDir_alloMap small]
    by_cases here : p = 0
    · subst here
      have counted : free (emptyDir junk old) 0 = epp - dhe - 1 := by
        unfold free
        rw [Nat.count_eq_card_filter_range, Finset.filter_congr (q := fun b => ¬ b < dhe + 1)]
        · decide
        · intro b inside
          rw [bitAt_emptyDir junk old (Finset.mem_range.mp inside), decide_eq_false_iff_not]
      rw [if_pos rfl, if_pos (by decide), counted]
      rfl
    · rw [if_neg here, if_neg (by omega)]
      rfl
  · intro p inside b small
    have here : p = 0 := by omega
    subst here
    rw [bitAt_emptyDir junk old small, decide_eq_true_eq]
    simp only [HeaderBlob, or_false, Nat.mul_zero, Nat.zero_add, epp, dhe] at *
    omega

end OpenAFS.Dir
