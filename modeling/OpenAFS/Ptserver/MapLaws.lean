import Mathlib.Data.Fin.Basic
import Mathlib.Data.List.Lattice
import OpenAFS.Ptserver.Map

namespace OpenAFS.Ptserver

open List

theorem and_bit {x : BitVec 32} {b : Nat} (small : b < 32) : x &&& 1#32 <<< b ≠ 0 ↔ x.getLsbD b = true := by
  change x &&& BitVec.twoPow 32 b ≠ 0#32 ↔ _
  rw [BitVec.and_twoPow]
  cases x.getLsbD b with
  | false => simp
  | true =>
    rw [if_pos rfl]
    refine iff_of_true (fun none => ?_) rfl
    have one : (BitVec.twoPow 32 b).getLsbD b = true := by simp [small]
    rw [none] at one
    simp at one

theorem numberToBit_lt (n : Int) : numberToBit n < 32 := by
  unfold numberToBit
  omega

theorem Bitmap.bit_eq (p : Bitmap) (n : Int) : p.bit n = (p.data (numberToIndex n)).getLsbD (numberToBit n) := by
  rw [Bool.eq_iff_iff, Bitmap.bit, decide_eq_true_eq, and_bit (numberToBit_lt n)]

theorem number_ext {n k : Int} (page : numberToPage n = numberToPage k) (index : numberToIndex n = numberToIndex k)
    (bit : numberToBit n = numberToBit k) : n = k := by
  have index := congrArg Fin.val index
  simp only [numberToPage, numberToIndex, numberToBit] at page index bit
  omega

@[simp] theorem Bitmap.page_add (p : Bitmap) (neg : Bool) (node : Int) : (p.add neg node).page = p.page := rfl

theorem Bitmap.data_add (p : Bitmap) (neg : Bool) (node : Int) (x : Fin 256) : (p.add neg node).data x =
      if x = numberToIndex node then
        if neg then p.data x &&& ~~~(1#32 <<< numberToBit node) else p.data x ||| 1#32 <<< numberToBit node
      else p.data x := by
  change Function.update p.data _ _ x = _
  rw [Function.update_apply]
  split
  · rename_i same
    rw [same]
  · rfl

theorem Bitmap.bit_add {p : Bitmap} {neg : Bool} {node n : Int} (page : numberToPage n = numberToPage node) :
    (p.add neg node).bit n = if n = node then !neg else p.bit n := by
  rw [bit_eq, bit_eq, data_add]
  have small := numberToBit_lt n
  by_cases index : numberToIndex n = numberToIndex node
  · rw [if_pos index]
    by_cases same : n = node
    · subst same
      cases neg <;> simp [small]
    have apart : numberToBit n ≠ numberToBit node := fun bit => same (number_ext page index bit)
    rw [if_neg same]
    cases neg
    · simp [small]
      omega
    · simp [small]
      omega
  · have other : n ≠ node := fun same => index (congrArg numberToIndex same)
    rw [if_neg index, if_neg other]

theorem Bitmap.bit_of_sig {p : Bitmap} (zero : p.sig = false) (n : Int) : p.bit n = false := by
  rw [Bitmap.sig, decide_eq_false_iff_not, not_exists_not] at zero
  rw [bit_eq, zero]
  exact BitVec.getLsbD_zero

theorem Bitmap.bit_or (l r : Bitmap) (n : Int) :
    ({ l with data := fun i => l.data i ||| r.data i } : Bitmap).bit n = (l.bit n || r.bit n) := by
  rw [bit_eq, bit_eq, bit_eq]
  exact BitVec.getLsbD_or

theorem Bitmap.bit_and (l r : Bitmap) (n : Int) :
    ({ l with data := fun i => l.data i &&& r.data i } : Bitmap).bit n = (l.bit n && r.bit n) := by
  rw [bit_eq, bit_eq, bit_eq]
  exact BitVec.getLsbD_and

theorem Bitmap.bit_bic (l r : Bitmap) (n : Int) :
    ({ l with data := fun i => l.data i &&& ~~~r.data i } : Bitmap).bit n = (l.bit n && !r.bit n) := by
  rw [bit_eq, bit_eq, bit_eq]
  simp [numberToBit_lt]

def stored (pages : List Bitmap) (n : Int) : Bool := pages.any fun p => p.page = numberToPage n ∧ p.bit n

def Distinct (pages : List Bitmap) : Prop := (pages.map Bitmap.page).Nodup

section Pages

variable {p r : Bitmap} {pages left right rest : List Bitmap} {n : Int} {page : Int}

theorem stored_cons (p : Bitmap) (pages : List Bitmap) (n : Int) :
    stored (p :: pages) n = (decide (p.page = numberToPage n) && p.bit n || stored pages n) := by
  simp [stored]

theorem stored_append (left right : List Bitmap) (n : Int) : stored (left ++ right) n = (stored left n || stored right n) :=
  any_append

theorem stored_of_forall (none : ∀ p ∈ pages, p.page ≠ numberToPage n) : stored pages n = false := by
  rw [stored, any_eq_false]
  intro p inside both
  exact none p inside (of_decide_eq_true both).1

theorem distinct_cons : Distinct (p :: pages) ↔ (∀ q ∈ pages, q.page ≠ p.page) ∧ Distinct pages := by
  simp [Distinct]

theorem inMap_eq {m : Map} (distinct : Distinct m.pages) : inMap m n = (m.neg ^^ stored m.pages n) := by
  obtain ⟨neg, pages⟩ := m
  unfold inMap
  induction pages with
  | nil => simp [stored]
  | cons p pages ih =>
    obtain ⟨apart, distinct⟩ := distinct_cons.mp distinct
    by_cases same : p.page = numberToPage n
    · have none := stored_of_forall fun q inside => same ▸ apart q inside
      simp [same, stored_cons, none]
    · have later := ih distinct
      simpa [same, stored_cons] using later

theorem takePage_none (missing : takePage page right = none) : ∀ r ∈ right, r.page ≠ page := by
  induction right with
  | nil =>
    intro r none
    cases none
  | cons r rest ih =>
    unfold takePage at missing
    split at missing
    · cases missing
    · rename_i other
      rw [Option.map_eq_none_iff] at missing
      exact List.forall_mem_cons.mpr ⟨other, ih missing⟩

theorem takePage_some (found : takePage page right = some (r, rest)) :
    r.page = page ∧ ∃ front back, right = front ++ r :: back ∧ rest = front ++ back := by
  induction right generalizing rest with
  | nil => cases found
  | cons q later ih =>
    unfold takePage at found
    split at found
    · rename_i same
      cases found
      exact ⟨same, [], later, rfl, rfl⟩
    obtain ⟨⟨_, remaining⟩, further, eq⟩ := Option.map_eq_some_iff.mp found
    cases eq
    obtain ⟨same, front, back, rfl, rfl⟩ := ih further
    exact ⟨same, q :: front, back, rfl, rfl⟩

structure Taken (page : Int) (right : List Bitmap) (r : Bitmap) (rest : List Bitmap) : Prop where
  same : r.page = page
  distinct : Distinct rest
  apart : ∀ q ∈ rest, q.page ≠ page
  inside : ∀ q ∈ rest, q ∈ right
  stored : ∀ n, stored right n = (decide (page = numberToPage n) && r.bit n || stored rest n)

theorem taken (distinct : Distinct right) (found : takePage page right = some (r, rest)) : Taken page right r rest := by
  obtain ⟨rfl, front, back, rfl, rfl⟩ := takePage_some found
  have split : Distinct (r :: (front ++ back)) := (List.perm_middle.map _).nodup_iff.mp distinct
  obtain ⟨apart, distinct⟩ := distinct_cons.mp split
  refine ⟨rfl, distinct, apart, fun q inside => ?_, fun n => ?_⟩
  · rcases List.mem_append.mp inside with first | later
    · exact mem_append_left _ first
    · exact mem_append_right _ (mem_cons_of_mem _ later)
  · rw [stored_append, stored_cons, stored_append]
    exact Bool.or_left_comm _ _ _

theorem distinct_simplifyBitmap (distinct : Distinct pages) : Distinct (simplifyBitmap pages) :=
  distinct.sublist (List.filter_sublist.map _)

theorem stored_ite_sig (p : Bitmap) (pages : List Bitmap) (n : Int) :
    stored (if p.sig then p :: pages else pages) n = (decide (p.page = numberToPage n) && p.bit n || stored pages n) := by
  split
  · exact stored_cons _ _ _
  · rename_i zero
    rw [Bitmap.bit_of_sig (Bool.not_eq_true _ ▸ zero), Bool.and_false, Bool.false_or]

theorem stored_simplifyBitmap (pages : List Bitmap) (n : Int) : stored (simplifyBitmap pages) n = stored pages n := by
  induction pages with
  | nil => rfl
  | cons p pages ih =>
    unfold simplifyBitmap at *
    rw [filter_cons, stored_ite_sig, stored_cons, ih]

theorem andPages_sublist : ((andPages left right).map Bitmap.page).Sublist (left.map Bitmap.page) := by
  induction left generalizing right with
  | nil => exact List.Sublist.refl _
  | cons l left ih =>
    unfold andPages
    split
    · dsimp only
      split
      · exact ih.cons_cons _
      · exact ih.cons _
    · exact ih.cons _

theorem stored_andPages (distinctLeft : Distinct left) (distinct : Distinct right) :
    stored (andPages left right) n = (stored left n && stored right n) := by
  induction left generalizing right with
  | nil => rfl
  | cons l left ih =>
    obtain ⟨apart, distinctLeft⟩ := distinct_cons.mp distinctLeft
    unfold andPages
    rw [stored_cons]
    split
    · rename_i r rest found
      have taken := taken distinct found
      have later := ih distinctLeft taken.distinct
      rw [stored_ite_sig, Bitmap.bit_and, later, taken.stored]
      by_cases same : l.page = numberToPage n
      · have none := stored_of_forall fun q inside => same ▸ apart q inside
        have gone := stored_of_forall fun q inside => same ▸ taken.apart q inside
        simp [same, none, gone]
      · simp [same]
    · rename_i missing
      rw [ih distinctLeft distinct]
      by_cases same : l.page = numberToPage n
      · have none := stored_of_forall fun q inside => same ▸ apart q inside
        have gone := stored_of_forall fun q inside => same ▸ takePage_none missing q inside
        simp [none, gone]
      · simp [same]

theorem bicPages_sublist : ((bicPages left right).map Bitmap.page).Sublist (left.map Bitmap.page) := by
  induction left generalizing right with
  | nil => exact List.Sublist.refl _
  | cons l left ih =>
    unfold bicPages
    split
    · dsimp only
      split
      · exact ih.cons_cons _
      · exact ih.cons _
    · exact ih.cons_cons _

theorem stored_bicPages (distinctLeft : Distinct left) (distinct : Distinct right) :
    stored (bicPages left right) n = (stored left n && !stored right n) := by
  induction left generalizing right with
  | nil => rfl
  | cons l left ih =>
    obtain ⟨apart, distinctLeft⟩ := distinct_cons.mp distinctLeft
    unfold bicPages
    rw [stored_cons]
    split
    · rename_i r rest found
      have taken := taken distinct found
      have later := ih distinctLeft taken.distinct
      rw [stored_ite_sig, Bitmap.bit_bic, later, taken.stored]
      by_cases same : l.page = numberToPage n
      · have none := stored_of_forall fun q inside => same ▸ apart q inside
        have gone := stored_of_forall fun q inside => same ▸ taken.apart q inside
        simp [same, none, gone]
      · simp [same]
    · rename_i missing
      rw [stored_cons, ih distinctLeft distinct]
      by_cases same : l.page = numberToPage n
      · have none := stored_of_forall fun q inside => same ▸ apart q inside
        have gone := stored_of_forall fun q inside => same ▸ takePage_none missing q inside
        simp [none, gone]
      · simp [same]

theorem orPages_apart (distinct : Distinct right) :
    (orPages left right).1.map Bitmap.page = left.map Bitmap.page ∧ Distinct (orPages left right).2 ∧
      (∀ q ∈ (orPages left right).2, q ∈ right) ∧ ∀ l ∈ left, ∀ q ∈ (orPages left right).2, q.page ≠ l.page := by
  induction left generalizing right with
  | nil =>
    refine ⟨rfl, distinct, fun q inside => inside, ?_⟩
    intro l none
    cases none
  | cons l left ih =>
    unfold orPages
    split
    · rename_i r rest found
      have taken := taken distinct found
      obtain ⟨same, distinct, inside, apart⟩ := ih taken.distinct
      refine ⟨congrArg (l.page :: ·) same, distinct, fun q left => taken.inside q (inside q left), ?_⟩
      exact List.forall_mem_cons.mpr ⟨fun q left => taken.apart q (inside q left), apart⟩
    · rename_i missing
      obtain ⟨same, distinct, inside, apart⟩ := ih distinct
      refine ⟨congrArg (l.page :: ·) same, distinct, inside, ?_⟩
      exact List.forall_mem_cons.mpr ⟨fun q left => takePage_none missing q (inside q left), apart⟩

theorem stored_orPages (distinctLeft : Distinct left) (distinct : Distinct right) :
    (stored (orPages left right).1 n || stored (orPages left right).2 n) = (stored left n || stored right n) := by
  induction left generalizing right with
  | nil => rfl
  | cons l left ih =>
    obtain ⟨apart, distinctLeft⟩ := distinct_cons.mp distinctLeft
    unfold orPages
    split
    · rename_i r rest found
      have taken := taken distinct found
      have later := ih distinctLeft taken.distinct
      change (stored (({ l with data := fun i => l.data i ||| r.data i } : Bitmap) :: _) n || _) = _
      rw [stored_cons, Bool.or_assoc, later, Bitmap.bit_or, stored_cons, taken.stored]
      cases decide (l.page = numberToPage n) <;> cases l.bit n <;> cases r.bit n <;> simp
    · have later := ih distinctLeft distinct
      change (stored (l :: _) n || _) = _
      rw [stored_cons, stored_cons, Bool.or_assoc, later, Bool.or_assoc]

theorem distinct_orBitmap (distinctLeft : Distinct left) (distinct : Distinct right) : Distinct (orBitmap left right) := by
  obtain ⟨same, distinct, -, apart⟩ := orPages_apart distinct
  unfold orBitmap Distinct
  rw [map_append, same]
  refine List.nodup_append.mpr ⟨distinctLeft, distinct, ?_⟩
  intro page first page' later
  obtain ⟨l, inLeft, rfl⟩ := List.mem_map.mp first
  obtain ⟨q, over_, rfl⟩ := List.mem_map.mp later
  exact (apart l inLeft q over_).symm

theorem stored_orBitmap (distinctLeft : Distinct left) (distinct : Distinct right) :
    stored (orBitmap left right) n = (stored left n || stored right n) := by
  rw [← stored_orPages distinctLeft distinct]
  exact stored_append _ _ _

theorem distinct_andBitmap (distinct : Distinct left) : Distinct (andBitmap left right) :=
  distinct_simplifyBitmap (distinct.sublist andPages_sublist)

theorem stored_andBitmap (distinctLeft : Distinct left) (distinct : Distinct right) :
    stored (andBitmap left right) n = (stored left n && stored right n) := by
  rw [andBitmap, stored_simplifyBitmap, stored_andPages distinctLeft distinct]

theorem distinct_bicBitmap (distinct : Distinct left) : Distinct (bicBitmap left right) :=
  distinct_simplifyBitmap (distinct.sublist bicPages_sublist)

theorem stored_bicBitmap (distinctLeft : Distinct left) (distinct : Distinct right) :
    stored (bicBitmap left right) n = (stored left n && !stored right n) := by
  rw [bicBitmap, stored_simplifyBitmap, stored_bicPages distinctLeft distinct]

theorem copyPages_eq (pages : List Bitmap) : copyPages pages = pages := by
  induction pages with
  | nil => rfl
  | cons p pages ih => exact congrArg (p :: ·) ih

theorem pages_changePage {f : Bitmap → Bitmap} (same : ∀ p, (f p).page = p.page) :
    (changePage page f pages).map Bitmap.page = pages.map Bitmap.page := by
  induction pages with
  | nil => rfl
  | cons p pages ih =>
    unfold changePage
    split
    · rw [map_cons, map_cons, same]
    · rw [map_cons, map_cons, ih]

theorem stored_changePage {neg : Bool} {node : Int} (distinct : Distinct pages) (there : ∃ p ∈ pages, p.page = numberToPage node) :
    stored (changePage (numberToPage node) (Bitmap.add neg node) pages) n = if n = node then !neg else stored pages n := by
  induction pages with
  | nil =>
    obtain ⟨p, none, -⟩ := there
    cases none
  | cons p pages ih =>
    obtain ⟨apart, distinct⟩ := distinct_cons.mp distinct
    unfold changePage
    split
    · rename_i here
      rw [stored_cons, stored_cons, Bitmap.page_add]
      by_cases same : numberToPage n = numberToPage node
      · have none := stored_of_forall fun q inside => same ▸ here ▸ apart q inside
        rw [Bitmap.bit_add same, none, here, same]
        split <;> simp
      · have other : n ≠ node := fun eq => same (congrArg numberToPage eq)
        have elsewhere : ¬ p.page = numberToPage n := fun eq => same (eq ▸ here)
        simp [other, elsewhere]
    rename_i elsewhere
    have later : ∃ q ∈ pages, q.page = numberToPage node := by
      obtain ⟨q, inside, same⟩ := there
      rcases List.mem_cons.mp inside with rfl | further
      · exact absurd same elsewhere
      · exact ⟨q, further, same⟩
    rw [stored_cons, stored_cons, ih distinct later]
    by_cases same : n = node
    · subst same
      simp [elsewhere]
    · simp [same]

end Pages

section Maps

variable {m a b : Map} {node n : Int}

def Map.HasPage (m : Map) (node : Int) : Prop := ∃ p ∈ m.pages, p.page = numberToPage node

theorem addMap_found (there : m.HasPage node) :
    addMap m node = { m with pages := changePage (numberToPage node) (Bitmap.add m.neg node) m.pages } := by
  obtain ⟨p, inside, same⟩ := there
  have found : m.pages.any (·.page = numberToPage node) = true := List.any_eq_true.mpr ⟨p, inside, decide_eq_true same⟩
  unfold addMap
  simp only [found, if_true]

theorem addMap_missing (missing : ¬ m.HasPage node) : addMap m node = { m with
      pages := changePage (numberToPage node) (Bitmap.add m.neg node) (newPage m.neg (numberToPage node) :: m.pages) } := by
  have none : ¬ m.pages.any (·.page = numberToPage node) = true := fun found => by
    obtain ⟨p, inside, same⟩ := List.any_eq_true.mp found
    exact missing ⟨p, inside, of_decide_eq_true same⟩
  unfold addMap
  simp only [none, Bool.false_eq_true, if_false]

section

variable (distinct : Distinct m.pages)
include distinct

theorem distinct_newPage (missing : ¬ m.HasPage node) :
    Distinct (newPage m.neg (numberToPage node) :: m.pages) :=
  distinct_cons.mpr ⟨fun q inside same => missing ⟨q, inside, same⟩, distinct⟩

theorem distinct_addMap (node : Int) : Distinct (addMap m node).pages := by
  have kept (pages : List Bitmap) (distinct : Distinct pages) :
      Distinct (changePage (numberToPage node) (Bitmap.add m.neg node) pages) := by
    unfold Distinct
    rwa [pages_changePage fun p => Bitmap.page_add p _ _]
  by_cases there : m.HasPage node
  · rw [addMap_found there]
    exact kept _ distinct
  · rw [addMap_missing there]
    exact kept _ (distinct_newPage distinct there)

theorem stored_addMap_missing (missing : ¬ m.HasPage node) : stored (addMap m node).pages n =
      if n = node then !m.neg else (decide (numberToPage node = numberToPage n) && m.neg || stored m.pages n) := by
  have whole : (newPage m.neg (numberToPage node)).bit n = m.neg := by
    rw [Bitmap.bit_eq]
    change (if m.neg then BitVec.allOnes 32 else 0).getLsbD _ = _
    cases m.neg
    · exact BitVec.getLsbD_zero
    · exact (BitVec.getLsbD_allOnes).trans (decide_eq_true (numberToBit_lt n))
  rw [addMap_missing missing, stored_changePage (distinct_newPage distinct missing) ⟨_, mem_cons_self, rfl⟩, stored_cons, whole]
  rfl

theorem stored_addMap (fits : m.neg = false ∨ m.HasPage node) :
    stored (addMap m node).pages n = if n = node then !m.neg else stored m.pages n := by
  by_cases there : m.HasPage node
  · rw [addMap_found there]
    exact stored_changePage distinct there
  · rw [stored_addMap_missing distinct there, fits.resolve_right there, Bool.and_false, Bool.false_or]

theorem inMap_addMap (fits : m.neg = false ∨ m.HasPage node) :
    inMap (addMap m node) n = (decide (n = node) || inMap m n) := by
  rw [inMap_eq (distinct_addMap distinct node), inMap_eq distinct, stored_addMap distinct fits]
  change (m.neg ^^ _) = _
  split
  · rename_i same
    simp [same]
  · rename_i other
    simp [other]

theorem inMap_addMap_beside (negative : m.neg = true) (missing : ¬ m.HasPage node)
    (page : numberToPage n = numberToPage node) (other : n ≠ node) :
    inMap m n = true ∧ inMap (addMap m node) n = false := by
  have apart : ∀ q ∈ m.pages, q.page ≠ numberToPage node := fun q inside same => missing ⟨q, inside, same⟩
  have none : stored m.pages n = false := stored_of_forall fun q inside => page ▸ apart q inside
  constructor
  · rw [inMap_eq distinct, negative, none, Bool.true_xor, Bool.not_false]
  · rw [inMap_eq (distinct_addMap distinct node), stored_addMap_missing distinct missing, if_neg other, page]
    change (m.neg ^^ _) = false
    simp [negative]

theorem inMap_notMap : inMap (notMap m) n = !inMap m n := by
  have same : Distinct (notMap m).pages := distinct
  rw [inMap_eq same, inMap_eq distinct]
  exact Bool.not_xor _ _

end

theorem inMap_copyMap : inMap (copyMap m) n = inMap m n := by
  unfold copyMap
  rw [copyPages_eq]

variable (first : Distinct a.pages)
include first

variable (second : Distinct b.pages)
include second

theorem distinct_andMap : Distinct (andMap a b).pages := by
  unfold andMap
  split
  · exact distinct_andBitmap first
  · exact distinct_bicBitmap first
  · exact distinct_bicBitmap second
  · exact distinct_orBitmap first second

theorem inMap_andMap :
    inMap (andMap a b) n = (inMap a n && inMap b n) := by
  rw [inMap_eq (distinct_andMap first second), inMap_eq first, inMap_eq second]
  unfold andMap
  cases a.neg <;> cases b.neg
  · simp [stored_andBitmap first second]
  · simp [stored_bicBitmap first second]
  · simp [stored_bicBitmap second first, Bool.and_comm]
  · simp [stored_orBitmap first second]

theorem distinct_orMap : Distinct (orMap a b).pages := by
  unfold orMap
  split
  · exact distinct_orBitmap first second
  · exact distinct_bicBitmap second
  · exact distinct_bicBitmap first
  · exact distinct_andBitmap first

theorem inMap_orMap : inMap (orMap a b) n = (inMap a n || inMap b n) := by
  rw [inMap_eq (distinct_orMap first second), inMap_eq first, inMap_eq second]
  unfold orMap
  cases a.neg <;> cases b.neg
  · simp [stored_orBitmap first second]
  · simp [stored_bicBitmap second first, Bool.or_comm]
  · simp [stored_bicBitmap first second]
  · simp [stored_andBitmap first second]

theorem inMap_bicMap :
    inMap (bicMap a b) n = (inMap a n && !inMap b n) := by
  have same : Distinct (notMap b).pages := second
  rw [bicMap, inMap_andMap first same, inMap_notMap second]

end Maps

inductive Built : Map → Prop
  | nil : Built nilMap
  | add {m : Map} {node : Int} (before : Built m) (int : IsInt node) : Built (addMap m node)
  | and {a b : Map} (first : Built a) (second : Built b) : Built (andMap a b)
  | or {a b : Map} (first : Built a) (second : Built b) : Built (orMap a b)
  | bic {a b : Map} (first : Built a) (second : Built b) : Built (bicMap a b)
  | not {m : Map} (before : Built m) : Built (notMap m)
  | copy {m : Map} (before : Built m) : Built (copyMap m)

theorem Built.distinct {m : Map} (built : Built m) : Distinct m.pages := by
  induction built with
  | nil => exact nodup_nil
  | add _ _ ih => exact distinct_addMap ih _
  | and _ _ first second => exact distinct_andMap first second
  | or _ _ first second => exact distinct_orMap first second
  | bic _ _ first second => exact distinct_andMap first second
  | not _ ih => exact ih
  | copy _ ih =>
    unfold copyMap
    rwa [copyPages_eq]

end OpenAFS.Ptserver
