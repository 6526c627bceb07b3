import Mathlib.Data.List.FinRange
import OpenAFS.Ptserver.MapLaws

namespace OpenAFS.Ptserver

open List

theorem getLsbD_neg_bit {b c : Nat} (small : c < 32) : (-(1#32 <<< b)).getLsbD c = decide (b ≤ c) := by
  change (-(BitVec.twoPow 32 b)).getLsbD c = _
  have lower : (∃ j < c, (BitVec.twoPow 32 b).getLsbD j = true) ↔ b < c := by
    constructor
    · rintro ⟨j, before, one⟩
      rw [BitVec.getLsbD_twoPow, Bool.and_eq_true, decide_eq_true_eq, decide_eq_true_eq] at one
      omega
    intro below
    refine ⟨b, below, ?_⟩
    rw [BitVec.getLsbD_twoPow, Bool.and_eq_true, decide_eq_true_eq, decide_eq_true_eq]
    omega
  rw [BitVec.getLsbD_neg, BitVec.getLsbD_twoPow]
  simp only [lower]
  rcases Nat.lt_trichotomy b c with below | same | above
  · simp [small, below, below.le, below.ne]
  · subst same
    simp [small]
  · simp [above.le, above.ne', above.not_ge]

def toNumber (page : Int) (index : Fin 256) (bit : Nat) : Int := bit + (index + page * 256) * 32

theorem numberTo_toNumber {page : Int} {index : Fin 256} {bit : Nat} (small : bit < 32) :
    numberToPage (toNumber page index bit) = page ∧ numberToIndex (toNumber page index bit) = index ∧
      numberToBit (toNumber page index bit) = bit := by
  refine ⟨?_, Fin.ext ?_, ?_⟩
  · simp only [numberToPage, toNumber]
    omega
  · simp only [numberToIndex, toNumber]
    omega
  · simp only [numberToBit, toNumber]
    omega

theorem toNumber_numberTo (n : Int) : toNumber (numberToPage n) (numberToIndex n) (numberToBit n) = n := by
  simp only [numberToPage, numberToIndex, numberToBit, toNumber]
  omega

theorem toNumber_le {page : Int} {i j : Fin 256} {b c : Nat} (small : b < 32) (small' : c < 32) :
    toNumber page i b ≤ toNumber page j c ↔ i < j ∨ i = j ∧ b ≤ c := by
  simp only [toNumber]
  omega

theorem getLsbD_from {p : Bitmap} {i j : Fin 256} {b c : Nat} {mask : BitVec 32} (small : c < 32)
    (bits : ∀ c < 32, mask.getLsbD c = decide (b ≤ c)) :
    (p.data j &&& if j = i then mask else BitVec.allOnes 32).getLsbD c = true ↔
      (p.data j).getLsbD c = true ∧ (j = i → b ≤ c) := by
  rw [BitVec.getLsbD_and, Bool.and_eq_true]
  refine and_congr_right fun _ => ?_
  split
  · rename_i same
    rw [bits c small, decide_eq_true_eq, imp_iff_right same]
  · rename_i other
    exact iff_of_true (BitVec.getLsbD_allOnes.trans (decide_eq_true small)) fun same => absurd same other

theorem findIdx_bit (x : BitVec 32) : let bn := (List.range 32).findIdx fun bn => x &&& 1#32 <<< bn ≠ 0
    (x ≠ 0 → bn < 32 ∧ x.getLsbD bn = true) ∧ ∀ c < bn, c < 32 → x.getLsbD c = false := by
  intro bn
  constructor
  · intro some
    have lower : bn < (List.range 32).length := by
      rw [findIdx_lt_length]
      by_contra none
      refine some (BitVec.eq_of_getLsbD_eq fun c small => ?_)
      have zero : ¬ (x &&& 1#32 <<< c ≠ 0) := fun one => none ⟨c, List.mem_range.mpr small, decide_eq_true one⟩
      rw [and_bit small, Bool.not_eq_true] at zero
      rw [zero]
      exact BitVec.getLsbD_zero.symm
    have here := findIdx_getElem (w := lower)
    rw [getElem_range, decide_eq_true_eq] at here
    exact ⟨lower, (and_bit lower).mp here⟩
  · intro c before small
    have below := not_of_lt_findIdx before
    rw [getElem_range] at below
    have zero : ¬ (x &&& 1#32 <<< c ≠ 0) := of_decide_eq_false below
    rwa [and_bit small, Bool.not_eq_true] at zero

structure FirstOf (has : Int → Prop) (first v : Int) : Prop where
  there : has v
  notBefore : first ≤ v
  least : ∀ k, has k → first ≤ k → v ≤ k

def Bitmap.Has (p : Bitmap) (k : Int) : Prop := numberToPage k = p.page ∧ p.bit k = true

section FirstFrom

variable {p : Bitmap} {i : Fin 256} {b : Nat} {mask : BitVec 32}

theorem firstFrom_some {v : Int} (low : b < 32) (bits : ∀ c < 32, mask.getLsbD c = decide (b ≤ c))
    (found : p.firstFrom i mask = some v) : FirstOf p.Has (toNumber p.page i b) v := by
  obtain ⟨j, first, rfl⟩ := Option.map_eq_some_iff.mp found
  obtain ⟨here, front, back, split, before⟩ := List.find?_eq_some_iff_append.mp first
  rw [decide_eq_true_eq] at here
  obtain ⟨later, some⟩ := here
  obtain ⟨lowest, none⟩ := findIdx_bit (p.data j &&& if j = i then mask else BitVec.allOnes 32)
  obtain ⟨small, one⟩ := lowest some
  change FirstOf p.Has _ (toNumber p.page j _)
  generalize (List.range 32).findIdx _ = bn at *
  rw [getLsbD_from small bits] at one
  obtain ⟨page, index, bit⟩ := @numberTo_toNumber p.page j bn small
  refine ⟨⟨page, ?_⟩, ?_, ?_⟩
  · rw [Bitmap.bit_eq, index, bit]
    exact one.1
  · rw [toNumber_le low small]
    rcases later.lt_or_eq with behind | same
    · exact .inl behind
    · exact .inr ⟨same, one.2 same.symm⟩
  rintro k ⟨inPage, set⟩ beyond
  have number := toNumber_numberTo k
  rw [inPage] at number
  rw [← number] at beyond ⊢
  rw [toNumber_le low (numberToBit_lt k)] at beyond
  rw [toNumber_le small (numberToBit_lt k)]
  rw [Bitmap.bit_eq] at set
  have notBelow : numberToIndex k = i → b ≤ numberToBit k := fun same =>
    (beyond.resolve_left (same ▸ lt_irrefl _)).2
  have seen := (getLsbD_from (numberToBit_lt k) bits).mpr ⟨set, notBelow⟩
  have order := pairwise_lt_finRange 256
  have all := mem_finRange (numberToIndex k)
  rw [split] at order all
  rcases List.mem_append.mp all with earlier | further
  · have skipped := before _ earlier
    rw [Bool.not_eq_true', decide_eq_false_iff_not, not_and, not_not] at skipped
    have zero : (p.data (numberToIndex k) &&& if numberToIndex k = i then mask else BitVec.allOnes 32) = 0#32 := skipped (by omega)
    rw [zero, BitVec.getLsbD_zero] at seen
    cases seen
  rcases List.mem_cons.mp further with same | behind
  · refine .inr ⟨same.symm, ?_⟩
    by_contra below
    rw [same] at seen
    rw [none _ (by omega) (numberToBit_lt k)] at seen
    cases seen
  · exact .inl ((List.pairwise_cons.mp (List.pairwise_append.mp order).2.1).1 _ behind)

theorem firstFrom_none (low : b < 32) (bits : ∀ c < 32, mask.getLsbD c = decide (b ≤ c))
    (found : p.firstFrom i mask = none) {k : Int} (has : p.Has k) : k < toNumber p.page i b := by
  by_contra beyond
  obtain ⟨inPage, set⟩ := has
  have number := toNumber_numberTo k
  rw [inPage] at number
  rw [← number, not_lt, toNumber_le low (numberToBit_lt k)] at beyond
  rw [Bitmap.bit_eq] at set
  have notBelow : numberToIndex k = i → b ≤ numberToBit k := fun same =>
    (beyond.resolve_left (same ▸ lt_irrefl _)).2
  have seen := (getLsbD_from (numberToBit_lt k) bits).mpr ⟨set, notBelow⟩
  have skipped := List.find?_eq_none.mp (Option.map_eq_none_iff.mp found) _ (mem_finRange (numberToIndex k))
  rw [decide_eq_true_eq, not_and, not_not] at skipped
  have zero : (p.data (numberToIndex k) &&& if numberToIndex k = i then mask else BitVec.allOnes 32) = 0#32 := skipped (by omega)
  rw [zero, BitVec.getLsbD_zero] at seen
  cases seen

end FirstFrom

def Bitmap.nextIn (p : Bitmap) (node : Int) : Option Int :=
  if numberToPage node = p.page then p.firstFrom (numberToIndex node) (-(1#32 <<< numberToBit node))
  else p.firstFrom 0 (BitVec.allOnes 32)

section NextIn

variable {p : Bitmap} {node : Int}

theorem page_lt {n k : Int} (before : numberToPage n < numberToPage k) : n < k := by
  unfold numberToPage at before
  omega

theorem nextIn_some {v : Int} (page : numberToPage node ≤ p.page) (found : p.nextIn node = some v) : FirstOf p.Has node v := by
  unfold Bitmap.nextIn at found
  split at found
  · rename_i same
    have first := firstFrom_some (numberToBit_lt node) (fun c small => getLsbD_neg_bit small) found
    rwa [← same, toNumber_numberTo] at first
  rename_i other
  have first := firstFrom_some (b := 0) (by decide)
    (fun c small => (BitVec.getLsbD_allOnes).trans (by simp [small])) found
  refine ⟨first.there, (page_lt (by rw [first.there.1]; omega)).le, fun k has beyond => first.least k has ?_⟩
  have number := toNumber_numberTo k
  rw [← number, has.1, toNumber_le (by decide) (numberToBit_lt k)]
  rcases Nat.eq_zero_or_pos (numberToIndex k).val with zero | pos
  · exact .inr ⟨Fin.ext zero.symm, Nat.zero_le _⟩
  · exact .inl (Fin.lt_def.mpr pos)

theorem nextIn_none (found : p.nextIn node = none) {k : Int} (has : p.Has k) : k < node := by
  unfold Bitmap.nextIn at found
  split at found
  · rename_i same
    have past := firstFrom_none (numberToBit_lt node) (fun c small => getLsbD_neg_bit small) found has
    rwa [← same, toNumber_numberTo] at past
  have past := firstFrom_none (b := 0) (by decide)
    (fun c small => (BitVec.getLsbD_allOnes).trans (by simp [small])) found has
  have number := toNumber_numberTo k
  rw [← number, has.1] at past
  exact absurd past (not_lt.mpr ((toNumber_le (by decide) (numberToBit_lt k)).mpr (by omega)))

end NextIn

theorem pass_eq (node : Int) (lowest : Lowest) (map : Bitmap) : Lowest.pass node lowest map =
      if numberToPage node ≤ map.page ∧ lowest.page.all (map.page < ·) then
        match map.nextIn node with
        | some best => ⟨some map.page, best⟩
        | none => lowest
      else lowest := by
  rfl

inductive Lowest.Knows (node : Int) (seen : Int → Prop) : Lowest → Prop
  | none (past : ∀ k, seen k → k < node) : Knows node seen ⟨none, -1⟩
  | some {best : Int} (first : FirstOf seen node best) : Knows node seen ⟨some (numberToPage best), best⟩

section NextMap

variable {node : Int} {seen : Int → Prop} {lowest : Lowest} {p : Bitmap} {pages : List Bitmap}

theorem Lowest.Knows.congr {seen' : Int → Prop} (knows : lowest.Knows node seen) (same : ∀ k, seen' k ↔ seen k) :
    lowest.Knows node seen' := by
  rwa [funext fun k => propext (same k)]

theorem FirstOf.or_past {has other : Int → Prop} {v : Int} (first : FirstOf has node v)
    (later : ∀ k, other k → node ≤ k → v ≤ k) : FirstOf (fun k => has k ∨ other k) node v where
  there := .inl first.there
  notBefore := first.notBefore
  least k either beyond := either.elim (first.least k · beyond) (later k · beyond)

theorem Lowest.Knows.pass (knows : lowest.Knows node seen) (apart : ∀ k, seen k → numberToPage k ≠ p.page) :
    (lowest.pass node p).Knows node fun k => seen k ∨ p.Has k := by
  rw [pass_eq]
  by_cases before : numberToPage node ≤ p.page
  · cases knows with
    | none past =>
      rw [if_pos ⟨before, rfl⟩]
      split
      · rename_i v found
        have first := nextIn_some before found
        have either := first.or_past fun k was beyond => absurd (past k was) (by omega)
        have page := first.there.1
        have knows := Lowest.Knows.some either
        rw [page] at knows
        exact knows.congr fun k => Or.comm
      · rename_i found
        exact .none fun k either => either.elim (past k) (nextIn_none found)
    | @some best first =>
      by_cases lower : p.page < numberToPage best
      · rw [if_pos ⟨before, decide_eq_true lower⟩]
        split
        · rename_i v found
          have first' := nextIn_some before found
          have page := first'.there.1
          have less : v < best := page_lt (by omega)
          have either := first'.or_past fun k was beyond => less.le.trans (first.least k was beyond)
          have knows := Lowest.Knows.some either
          rw [page] at knows
          exact knows.congr fun k => Or.comm
        · rename_i found
          exact .some (first.or_past fun k has beyond => absurd (nextIn_none found has) (by omega))
      · rw [if_neg fun both => lower (of_decide_eq_true both.2)]
        refine .some (first.or_past fun k has beyond => (page_lt ?_).le)
        have other := apart best first.there
        rw [has.1]
        omega
  · rw [if_neg fun both => before both.1]
    have past : ∀ k, p.Has k → k < node := fun k has => page_lt (by rw [has.1]; omega)
    cases knows with
    | none past' => exact .none fun k either => either.elim (past' k) (past k)
    | some first => exact .some (first.or_past fun k has beyond => absurd (past k has) (by omega))

theorem Lowest.Knows.loop (knows : lowest.Knows node seen) (distinct : Distinct pages)
    (apart : ∀ k, seen k → ∀ p ∈ pages, numberToPage k ≠ p.page) :
    (pages.foldl (Lowest.pass node) lowest).Knows node fun k => seen k ∨ stored pages k = true := by
  induction pages generalizing lowest seen with
  | nil => exact knows.congr fun k => by simp [stored]
  | cons p pages ih =>
    obtain ⟨other, distinct⟩ := distinct_cons.mp distinct
    have next := ih (knows.pass fun k was => apart k was p mem_cons_self) distinct ?_
    · refine next.congr fun k => ?_
      rw [stored_cons, Bool.or_eq_true, Bool.and_eq_true, decide_eq_true_eq, ← or_assoc]
      exact or_congr_left (or_congr_right (and_congr_left fun _ => eq_comm))
    rintro k (was | has) q inside
    · exact apart k was q (mem_cons_of_mem _ inside)
    · rw [has.1]
      exact (other q inside).symm

theorem nextMap_spec {m : Map} (positive : m.neg = false) (distinct : Distinct m.pages) (node : Int) :
    nextMap m node = -1 ∧ (∀ k, inMap m k = true → k < increment node) ∨
      FirstOf (fun k => inMap m k = true) (increment node) (nextMap m node) := by
  have members : (fun k => False ∨ stored m.pages k = true) = fun k => inMap m k = true := by
    funext k
    rw [inMap_eq distinct, positive, Bool.false_xor, false_or]
  have start : Lowest.Knows (increment node) (fun _ => False) {} := .none fun _ no => no.elim
  have knows := start.loop distinct fun _ no => no.elim
  rw [members] at knows
  unfold nextMap
  rw [if_neg (by rw [positive]; exact Bool.false_ne_true)]
  generalize m.pages.foldl _ _ = found at knows
  cases knows with
  | none past => exact .inl ⟨rfl, past⟩
  | some first => exact .inr first

end NextMap

/-- The loop over a map ends, and it has gone through the numbers of the map in order. -/
def Map.Enumerated (m : Map) : Prop :=
  ∃ fuel l, walkMap m fuel (firstMap m) = some l ∧ l.Pairwise (· < ·) ∧ ∀ n, IsInt n → (n ∈ l ↔ inMap m n = true)

section Loop

variable {m : Map}

def NextAfter (m : Map) (b v : Int) : Prop :=
  v = -1 ∧ (∀ k, inMap m k = true → k ≤ b) ∨ FirstOf (fun k => inMap m k = true) (b + 1) v

theorem walkMap_ends (positive : m.neg = false) (distinct : Distinct m.pages)
    (usual : ∀ n, inMap m n = true → n < 2 ^ 31 - 1) {b v : Int} (from_ : -1 ≤ b) (next : NextAfter m b v) :
    ∃ fuel l, walkMap m fuel v = some l ∧ l.Pairwise (· < ·) ∧ ∀ n, n ∈ l ↔ inMap m n = true ∧ b < n := by
  induction measure : (2 ^ 31 - b).toNat using Nat.strong_induction_on generalizing b v with
  | _ _ ih =>
    rcases next with ⟨rfl, past⟩ | first
    · refine ⟨1, [], rfl, List.Pairwise.nil, fun n => ?_⟩
      refine iff_of_false not_mem_nil fun both => ?_
      have below := past n both.1
      omega
    have small := usual v first.there
    have above := first.notBefore
    have next' : NextAfter m v (nextMap m v) := by
      have spec := nextMap_spec positive distinct v
      have step : increment v = v + 1 := if_neg (by omega)
      rw [step] at spec
      exact spec.imp (And.imp_right fun past k has => by have := past k has; omega) id
    obtain ⟨fuel, l, walked, sorted, members⟩ := ih _ (by omega) (by omega) next' rfl
    refine ⟨fuel + 1, v :: l, ?_, List.pairwise_cons.mpr ⟨fun n inside => ((members n).mp inside).2, sorted⟩, fun n => ?_⟩
    · unfold walkMap
      rw [if_neg (by omega), walked]
      rfl
    rw [mem_cons, members]
    constructor
    · rintro (rfl | ⟨has, beyond⟩)
      · exact ⟨first.there, by omega⟩
      · exact ⟨has, by omega⟩
    rintro ⟨has, beyond⟩
    have least := first.least n has (by omega)
    rcases least.eq_or_lt with same | more
    · exact .inl same.symm
    · exact .inr ⟨has, more⟩

theorem walkMap_nonneg {fuel : Nat} {b : Int} {l : List Int} (walked : walkMap m fuel b = some l) : ∀ n ∈ l, 0 ≤ n := by
  induction fuel generalizing b l with
  | zero => cases walked
  | succ fuel ih =>
    unfold walkMap at walked
    split at walked
    · cases walked
      exact fun n none => absurd none not_mem_nil
    · obtain ⟨rest, further, rfl⟩ := Option.map_eq_some_iff.mp walked
      exact List.forall_mem_cons.mpr ⟨by omega, ih further⟩

theorem walkMap_behind {fuel : Nat} {b n : Int} {l : List Int} (walked : walkMap m fuel b = some l) (inside : n ∈ l) :
    ∃ front back fuel', l = front ++ n :: back ∧ walkMap m fuel' (nextMap m n) = some back := by
  induction fuel generalizing b l with
  | zero => cases walked
  | succ fuel ih =>
    unfold walkMap at walked
    split at walked
    · cases walked
      exact absurd inside not_mem_nil
    obtain ⟨rest, further, rfl⟩ := Option.map_eq_some_iff.mp walked
    rcases List.mem_cons.mp inside with rfl | later
    · exact ⟨[], rest, fuel, rfl, further⟩
    · obtain ⟨front, back, fuel', rfl, behind⟩ := ih further later
      exact ⟨b :: front, back, fuel', rfl, behind⟩

theorem walkMap_largest (positive : m.neg = false) (distinct : Distinct m.pages) (all : m.Enumerated) :
    inMap m (2 ^ 31 - 1) = false := by
  by_contra has
  rw [Bool.not_eq_false] at has
  obtain ⟨fuel, l, walked, sorted, members⟩ := all
  have inside := (members _ (by decide)).mpr has
  obtain ⟨front, back, fuel', rfl, behind⟩ := walkMap_behind walked inside
  have order := List.pairwise_cons.mp (List.pairwise_append.mp sorted).2.1
  have start : increment (2 ^ 31 - 1) = -2 ^ 31 := rfl
  rcases nextMap_spec positive distinct (2 ^ 31 - 1) with ⟨-, past⟩ | first
  · have below := past _ has
    omega
  have least := first.least _ has (by omega)
  have nonneg := walkMap_nonneg walked _ ((members _ ⟨first.notBefore, by omega⟩).mpr first.there)
  cases fuel' with
  | zero => cases behind
  | succ fuel' =>
    unfold walkMap at behind
    rw [if_neg (by omega)] at behind
    obtain ⟨rest, -, rfl⟩ := Option.map_eq_some_iff.mp behind
    have more := order.1 _ mem_cons_self
    omega

theorem enumerated_iff (positive : m.neg = false) (distinct : Distinct m.pages) (ints : ∀ n, inMap m n = true → IsInt n) :
    m.Enumerated ↔ ∀ n, IsInt n → inMap m n = true → 0 ≤ n ∧ n < 2 ^ 31 - 1 := by
  constructor
  · intro all n int has
    have largest := walkMap_largest positive distinct all
    obtain ⟨fuel, l, walked, sorted, members⟩ := all
    refine ⟨walkMap_nonneg walked n ((members n int).mpr has), ?_⟩
    have other : n ≠ 2 ^ 31 - 1 := by
      rintro rfl
      rw [has] at largest
      cases largest
    have := int.2
    omega
  intro usual
  have usual' : ∀ n, inMap m n = true → 0 ≤ n ∧ n < 2 ^ 31 - 1 := fun n has => usual n (ints n has) has
  have first : NextAfter m (-1) (firstMap m) := by
    rcases nextMap_spec positive distinct (-9999) with ⟨none, past⟩ | first
    · refine .inl ⟨none, fun k has => ?_⟩
      have below := past k has
      have start : increment (-9999) = -9998 := rfl
      omega
    · refine .inr ⟨first.there, (usual' _ first.there).1, fun k has beyond => first.least k has ?_⟩
      have start : increment (-9999) = -9998 := rfl
      omega
  obtain ⟨fuel, l, walked, sorted, members⟩ :=
    walkMap_ends positive distinct (fun n has => (usual' n has).2) (by omega) first
  refine ⟨fuel, l, walked, sorted, fun n _ => (members n).trans (and_iff_left_of_imp fun has => ?_)⟩
  have nonneg := (usual' n has).1
  omega

end Loop

theorem Built.pages {m : Map} (built : Built m) : ∀ page ∈ m.pages.map Bitmap.page, -2 ^ 18 ≤ page ∧ page < 2 ^ 18 := by
  have both {a b : Map} (first : Built a) (second : Built b)
      (inFirst : ∀ page ∈ a.pages.map Bitmap.page, -2 ^ 18 ≤ page ∧ page < 2 ^ 18)
      (inSecond : ∀ page ∈ b.pages.map Bitmap.page, -2 ^ 18 ≤ page ∧ page < 2 ^ 18) :
      ∀ page ∈ (orBitmap a.pages b.pages).map Bitmap.page, -2 ^ 18 ≤ page ∧ page < 2 ^ 18 := by
    obtain ⟨same, -, kept, -⟩ := @orPages_apart a.pages b.pages second.distinct
    intro page inside
    unfold orBitmap at inside
    rw [map_append, same] at inside
    rcases List.mem_append.mp inside with early | late
    · exact inFirst page early
    · obtain ⟨q, left, rfl⟩ := List.mem_map.mp late
      exact inSecond _ (mem_map_of_mem (kept q left))
  have simplified {left right : List Bitmap} (sub : (left.map Bitmap.page).Sublist (right.map Bitmap.page)) :
      ((simplifyBitmap left).map Bitmap.page).Sublist (right.map Bitmap.page) :=
    (List.filter_sublist.map _).trans sub
  have anded {a b : Map} (first : Built a) (second : Built b)
      (inFirst : ∀ page ∈ a.pages.map Bitmap.page, -2 ^ 18 ≤ page ∧ page < 2 ^ 18)
      (inSecond : ∀ page ∈ b.pages.map Bitmap.page, -2 ^ 18 ≤ page ∧ page < 2 ^ 18) :
      ∀ page ∈ (andMap a b).pages.map Bitmap.page, -2 ^ 18 ≤ page ∧ page < 2 ^ 18 := by
    unfold andMap
    split
    · exact fun page inside => inFirst page ((simplified andPages_sublist).subset inside)
    · exact fun page inside => inFirst page ((simplified bicPages_sublist).subset inside)
    · exact fun page inside => inSecond page ((simplified bicPages_sublist).subset inside)
    · exact both first second inFirst inSecond
  induction built with
  | nil => exact fun page none => absurd none not_mem_nil
  | @add m node before int ih =>
    have small : -2 ^ 18 ≤ numberToPage node ∧ numberToPage node < 2 ^ 18 := by
      obtain ⟨low, high⟩ := int
      unfold numberToPage
      omega
    intro page inside
    by_cases there : m.HasPage node
    · rw [addMap_found there] at inside
      exact ih page ((pages_changePage fun p => Bitmap.page_add p _ _) ▸ inside)
    rw [addMap_missing there] at inside
    have inside : page ∈ (newPage m.neg (numberToPage node) :: m.pages).map Bitmap.page :=
      (pages_changePage fun p => Bitmap.page_add p _ _) ▸ inside
    rcases List.mem_cons.mp inside with rfl | old
    · exact small
    · exact ih page old
  | and first second inFirst inSecond => exact anded first second inFirst inSecond
  | or first second inFirst inSecond =>
    unfold orMap
    split
    · exact both first second inFirst inSecond
    · exact fun page inside => inSecond page ((simplified bicPages_sublist).subset inside)
    · exact fun page inside => inFirst page ((simplified bicPages_sublist).subset inside)
    · exact fun page inside => inFirst page ((simplified andPages_sublist).subset inside)
  | bic first second inFirst inSecond => exact anded first second.not inFirst inSecond
  | not _ ih => exact ih
  | copy _ ih =>
    unfold copyMap
    rwa [copyPages_eq]

theorem Built.isInt {m : Map} (built : Built m) (positive : m.neg = false) {n : Int} (has : inMap m n = true) : IsInt n := by
  rw [inMap_eq built.distinct, positive, Bool.false_xor] at has
  obtain ⟨p, inside, both⟩ := List.any_eq_true.mp has
  have small := built.pages p.page (mem_map_of_mem inside)
  rw [(of_decide_eq_true both).1] at small
  unfold numberToPage at small
  unfold IsInt
  omega

structure SetOperations (a b : Map) : Prop where
  and : ∀ n, inMap (andMap a b) n = (inMap a n && inMap b n)
  or : ∀ n, inMap (orMap a b) n = (inMap a n || inMap b n)
  bic : ∀ n, inMap (bicMap a b) n = (inMap a n && !inMap b n)
  not : ∀ n, inMap (notMap a) n = !inMap a n
  copy : ∀ n, inMap (copyMap a) n = inMap a n

def AddsOne (m : Map) (node : Int) : Prop := ∀ n, IsInt n → inMap (addMap m node) n = (decide (n = node) || inMap m n)

/-- Maps are sets. But a number can be added to a complement only if its page is there, and a loop misses numbers below 0
    and does not end at the largest. -/
theorem maps_are_sets (a b : Map) (first : Built a) (second : Built b) :
    SetOperations a b ∧ (∀ node, IsInt node → (AddsOne a node ↔ a.neg = false ∨ a.HasPage node)) ∧
      (a.neg = false → (a.Enumerated ↔ ∀ n, IsInt n → inMap a n = true → 0 ≤ n ∧ n < 2 ^ 31 - 1)) := by
  refine ⟨⟨fun n => inMap_andMap first.distinct second.distinct, fun n => inMap_orMap first.distinct second.distinct,
    fun n => inMap_bicMap first.distinct second.distinct, fun n => inMap_notMap first.distinct, fun n => inMap_copyMap⟩,
    fun node int => ⟨fun one => ?_, fun fits n _ => inMap_addMap first.distinct fits⟩,
    fun positive => enumerated_iff positive first.distinct fun n has => first.isInt positive has⟩
  by_contra neither
  rw [not_or, Bool.not_eq_false] at neither
  have beside : ∃ n, IsInt n ∧ numberToPage n = numberToPage node ∧ n ≠ node := by
    unfold IsInt numberToPage at *
    by_cases even : node % 2 = 0
    · exact ⟨node + 1, by omega, by omega, by omega⟩
    · exact ⟨node - 1, by omega, by omega, by omega⟩
  obtain ⟨n, int', page, other⟩ := beside
  obtain ⟨was, lost⟩ := inMap_addMap_beside first.distinct neither.1 neither.2 page other
  have kept := one n int'
  rw [was, lost, Bool.or_true] at kept
  cases kept

theorem maps_are_sets_small : SetOperations (addMap nilMap 7) nilMap ∧
    (∀ node, IsInt node → (AddsOne (addMap nilMap 7) node ↔ (addMap nilMap 7).neg = false ∨ (addMap nilMap 7).HasPage node)) ∧
      ((addMap nilMap 7).neg = false → ((addMap nilMap 7).Enumerated ↔
        ∀ n, IsInt n → inMap (addMap nilMap 7) n = true → 0 ≤ n ∧ n < 2 ^ 31 - 1)) :=
  maps_are_sets _ _ (.add .nil (by decide)) .nil

/-- In the map of all numbers to which 5 is added, 6 is missing. -/
theorem add_to_complement_removes : ¬ ∀ a b : Map, Built a → Built b →
    SetOperations a b ∧ (∀ node, IsInt node → AddsOne a node) ∧ (a.neg = false → a.Enumerated) := by
  intro sets
  have added := (sets (notMap nilMap) nilMap (.not .nil) .nil).2.1 5 (by decide) 6 (by decide)
  revert added
  decide

end OpenAFS.Ptserver
