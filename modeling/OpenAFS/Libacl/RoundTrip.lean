import Mathlib.Data.List.Sort
import OpenAFS.Libacl.External

namespace OpenAFS.Libacl

open Lib List OpenAFS.Lib.Text

/-- Two translations that are inverse on the ids involved, whose names are words. -/
structure Inverse (idToName : List Int32 → Option (List Text)) (nameToId : List Text → Option (List Int32)) (name : Int32 → Text)
    (involved : Int32 → Prop) : Prop where
  named : ∀ ids : List Int32, (∀ i ∈ ids, involved i) → idToName ids = some (ids.map name)
  back : ∀ ids : List Int32, (∀ i ∈ ids, involved i) → nameToId (ids.map name) = some ids
  nonempty : ∀ i, involved i → name i ≠ []
  plain : ∀ i, involved i → ∀ c ∈ name i, isSpace c = false

namespace AccessList

variable (acl : AccessList)

def used : List AccessEntry := acl.entries.take acl.total.toNat

def written : List AccessEntry := acl.positives ++ acl.negatives.reverse

/-- The counts make up the total, and no id is twice in a part. -/
structure Proper : Prop extends Sorted acl where
  whole : acl.total = acl.positive + acl.negative
  few : acl.total ≤ aclMaxEntries
  distinctPositive : (acl.positives.map AccessEntry.id).Nodup
  distinctNegative : (acl.negatives.map AccessEntry.id).Nodup

variable {acl}

theorem Proper.used_eq (proper : acl.Proper) : acl.used = acl.positives ++ acl.negatives := by
  have whole := proper.whole
  have negative := proper.negative
  have place : (acl.total - acl.negative).toNat = acl.positive.toNat := by omega
  have less : min acl.positive.toNat acl.total.toNat = acl.positive.toNat := by omega
  have first : acl.positives = acl.used.take acl.positive.toNat := by
    unfold positives used
    rw [take_take, less]
  unfold negatives
  rw [place, first]
  exact (take_append_drop acl.positive.toNat acl.used).symm

theorem Proper.mem_written (proper : acl.Proper) {e : AccessEntry} : e ∈ acl.written ↔ e ∈ acl.used := by
  rw [proper.used_eq]
  unfold written
  rw [mem_append, mem_append, mem_reverse]

theorem Proper.length_positives (proper : acl.Proper) : acl.positives.length = acl.positive.toNat := by
  have parts := proper.parts
  have room := proper.room
  have negative := proper.negative
  unfold positives
  rw [length_take]
  omega

theorem Proper.length_negatives (proper : acl.Proper) : acl.negatives.length = acl.negative.toNat := by
  have parts := proper.parts
  have room := proper.room
  have positive := proper.positive
  unfold negatives
  rw [length_drop, length_take]
  omega

theorem Proper.length_written (proper : acl.Proper) : acl.written.length = acl.total.toNat := by
  have positive := proper.positive
  have negative := proper.negative
  have whole := proper.whole
  unfold written
  rw [length_append, length_reverse, proper.length_positives, proper.length_negatives]
  omega

theorem map_range_getD {α : Type} (l : List α) (d : α) (a b : Nat) (room : a + b ≤ l.length) :
    (List.range' a b).map (fun i => l.getD i d) = (l.take (a + b)).drop a := by
  refine ext_getElem (by simp; omega) fun k low high => ?_
  rw [getElem_map, getElem_range', getElem_drop, getElem_take, Nat.one_mul]
  exact (getElem_eq_getD d).symm

theorem Proper.map_externalIndices (proper : acl.Proper) (d : AccessEntry) :
    acl.externalIndices.map (fun i => acl.entries.getD i d) = acl.written := by
  have room := proper.room
  have positive := proper.positive
  have negative := proper.negative
  have whole := proper.whole
  have last : (acl.total - acl.negative).toNat + acl.negative.toNat = acl.total.toNat := by omega
  unfold externalIndices written
  rw [map_append, map_reverse, range_eq_range', map_range_getD _ _ _ _ (by omega),
    map_range_getD _ _ _ _ (by omega), last, Nat.zero_add, drop_zero]
  rfl

end AccessList

theorem apart_newline {rest : Text} : Apart (newline :: rest) := by
  rintro c ⟨⟩
  rfl

theorem newline_notMem_printInt (v : Int32) : newline ∉ printInt v := by
  have digits (n : Nat) : newline ∉ decimal n := fun inside => absurd (decimal_digits n newline inside) (by decide)
  unfold printInt
  split
  · rw [mem_cons, not_or]
    exact ⟨by decide, digits _⟩
  · exact digits _

section

variable {word : Text} (some : word ≠ []) (plain : ∀ c ∈ word, isSpace c = false)
include plain

theorem nextLine_printEntry (rights : Int32) (rest : Text) : nextLine (printEntry word rights ++ rest) = Option.some rest := by
  have line : printEntry word rights ++ rest = (word ++ tab :: printInt rights) ++ newline :: rest := by
    unfold printEntry
    simp
  have one : newline ∉ word ++ tab :: printInt rights := by
    rw [mem_append, mem_cons, not_or, not_or]
    exact ⟨fun inside => absurd (plain newline inside) (by decide), by decide, newline_notMem_printInt rights⟩
  rw [line]
  exact nextLine_append one

include some

theorem scanEntry_printEntry (rights : Int32) (rest : Text) :
    scanEntry (printEntry word rights ++ rest) = Option.some (word, rights) := by
  have line : printEntry word rights ++ rest = word ++ tab :: (printInt rights ++ newline :: rest) := by
    unfold printEntry
    simp
  unfold scanEntry
  rw [line, scanWord_append some plain (by decide)]
  dsimp only
  rw [scanInt_space (by decide), scanInt_printInt rights apart_newline]
  rfl

end

section

variable {idToName : List Int32 → Option (List Text)} {nameToId : List Text → Option (List Int32)} {name : Int32 → Text}
  {acl : AccessList}

def printEntries (name : Int32 → Text) (entries : List AccessEntry) : Text :=
  (entries.map fun e => printEntry (name e.id) e.rights).flatten

variable {entries : List AccessEntry}

theorem readEntries_printEntries {total : Int} {j : Nat} (room : j + entries.length ≤ total)
    (nonempty : ∀ e ∈ entries, name e.id ≠ []) (plain : ∀ e ∈ entries, ∀ c ∈ name e.id, isSpace c = false) :
    readEntries total entries.length j (printEntries name entries) = .ok (entries.map fun e => (name e.id, e.rights), []) := by
  induction entries generalizing j with
  | nil => rfl
  | cons e entries ih =>
    have word := nonempty e mem_cons_self
    have letters := plain e mem_cons_self
    have lines : printEntries name (e :: entries) = printEntry (name e.id) e.rights ++ printEntries name entries := rfl
    rw [length_cons] at room ⊢
    rw [lines, readEntries_next (by omega) (scanEntry_printEntry word letters e.rights _) (nextLine_printEntry letters e.rights _),
      ih (by omega) (fun e' later => nonempty e' (mem_cons_of_mem e later))
        fun e' later => plain e' (mem_cons_of_mem e later)]
    rfl

theorem putIds_filled {total : Int} {ids : List Int32} {indices : List Int} (inside : ∀ i ∈ indices, 0 ≤ i ∧ i < total)
    (known : ∀ i ∈ indices, ids.getD i.toNat 0 ≠ anonymousId) (entries : List AccessEntry) :
    ∃ filled, putIds total ids indices entries = .ok filled ∧
      ∀ k : Nat, filled[k]? = entries[k]?.map fun e => if (k : Int) ∈ indices then { e with id := ids.getD k 0 } else e := by
  induction indices generalizing entries with
  | nil => exact ⟨entries, rfl, fun k => by simp⟩
  | cons i rest ih =>
    obtain ⟨low, high⟩ := inside i mem_cons_self
    obtain ⟨filled, run, all⟩ := ih (fun i' later => inside i' (mem_cons_of_mem i later))
      (fun i' later => known i' (mem_cons_of_mem i later))
      (entries.modify i.toNat fun e => { e with id := ids.getD i.toNat 0 })
    refine ⟨filled, ?_, fun k => ?_⟩
    · rw [putIds, useIndex_inside low high, if_neg (known i mem_cons_self)]
      exact run
    rw [all, getElem?_modify]
    cases entries[k]? with
    | none => rfl
    | some e =>
      by_cases here : i.toNat = k
      · have same : (k : Int) = i := by omega
        subst here
        simp [same]
      · have other : (k : Int) ≠ i := by omega
        simp [here, other]

theorem sortPart_eq {cmp : AccessEntry → AccessEntry → Ordering} {first count : Int} (some : 0 ≤ count) :
    sortPart cmp first count entries = .ok (entries.take first.toNat ++
      ((entries.drop first.toNat).take count.toNat).mergeSort (fun a b => cmp a b ≠ .gt) ++
        (entries.drop first.toNat).drop count.toNat) :=
  if_neg (by omega)

theorem cmpInt_le_iff {x y : Int32} : cmpInt x y ≠ .gt ↔ x ≤ y := by
  rw [← Int32.not_lt, ← cmpInt_gt]

theorem mergeSort_cmpPlus (sorted : entries.Pairwise fun a b => cmpPlus a b ≠ .gt) :
    entries.mergeSort (fun a b => cmpPlus a b ≠ .gt) = entries :=
  mergeSort_of_pairwise (sorted.imp fun ordered => by simpa using ordered)

theorem mergeSort_cmpMinus (sorted : entries.Pairwise fun a b => cmpMinus a b ≠ .gt)
    (distinct : (entries.map AccessEntry.id).Nodup) :
    entries.reverse.mergeSort (fun a b => cmpMinus a b ≠ .gt) = entries := by
  have ordered : (entries.reverse.mergeSort fun a b => decide (cmpMinus a b ≠ .gt)).Pairwise
      fun a b => decide (cmpMinus a b ≠ .gt) = true := pairwise_mergeSort
    (fun a b c ab bc => by
      rw [decide_eq_true_eq] at ab bc ⊢
      exact cmpInt_le_iff.2 (Int32.le_trans (cmpInt_le_iff.1 bc) (cmpInt_le_iff.1 ab)))
    (fun a b => by
      rw [Bool.or_eq_true, decide_eq_true_eq, decide_eq_true_eq]
      exact (Int32.le_total b.id a.id).imp cmpInt_le_iff.2 cmpInt_le_iff.2)
    entries.reverse
  refine List.Perm.eq_of_pairwise (fun a b first second ab ba => ?_) ordered (sorted.imp fun less => by simpa using less)
    ((mergeSort_perm _ _).trans (reverse_perm entries))
  rw [decide_eq_true_eq] at ab ba
  have same : a.id = b.id := Int32.le_antisymm (cmpInt_le_iff.1 ba) (cmpInt_le_iff.1 ab)
  rw [mem_mergeSort, mem_reverse] at first
  exact inj_on_of_nodup_map distinct first second same

theorem setIds_written (proper : acl.Proper) (known : ∀ e ∈ acl.used, e.id ≠ anonymousId) {p n : Int32}
    (positive : p.toInt = acl.positive) (negative : n.toInt = acl.negative) (total : (p + n).toInt = acl.total) (more : 0 < acl.total) :
    setIds p n (acl.written.map AccessEntry.id) (acl.written.map fun e => (name e.id, e.rights)) =
      .ok { newAcl p n with entries := acl.used } := by
  have bounds := And.intro proper.positive proper.negative
  have whole := proper.whole
  have length := proper.length_written
  have id_at {i : Int} (low : 0 ≤ i) (high : i < acl.total) : (acl.written.map AccessEntry.id).getD i.toNat 0 ≠ anonymousId := by
    have room : i.toNat < (acl.written.map AccessEntry.id).length := by
      rw [length_map]
      omega
    rw [← getElem_eq_getD (h := room), getElem_map]
    exact known _ (proper.mem_written.1 (getElem_mem _))
  have firstIndices : ∀ i ∈ positiveIndices p, 0 ≤ i ∧ i < acl.total := fun i inside => by
    have between := mem_positiveIndices.1 inside
    omega
  have secondIndices : ∀ i ∈ negativeIndices (p + n) n, 0 ≤ i ∧ i < acl.total := fun i inside => by
    have between := (mem_negativeIndices (by omega)).1 inside
    omega
  obtain ⟨half, first, half_at⟩ := putIds_filled firstIndices
    (fun i inside => id_at (firstIndices i inside).1 (firstIndices i inside).2)
    ((acl.written.map fun e => (name e.id, e.rights)).map fun e => ⟨0, e.2⟩)
  obtain ⟨filled, second, filled_at⟩ := putIds_filled secondIndices
    (fun i inside => id_at (secondIndices i inside).1 (secondIndices i inside).2) half
  have all : filled = acl.written := by
    refine ext_getElem? fun k => ?_
    rw [filled_at, half_at, getElem?_map, getElem?_map]
    by_cases room : k < acl.written.length
    · have either : (k : Int) ∈ positiveIndices p ∨ (k : Int) ∈ negativeIndices (p + n) n := by
        rw [mem_positiveIndices, mem_negativeIndices (by omega)]
        omega
      by_cases first : (k : Int) ∈ positiveIndices p
      · simp [first, room]
      · simp [first, either.resolve_left first, room]
    · rw [getElem?_eq_none (by omega)]
      rfl
  have once : sortPart cmpPlus 0 p.toInt acl.written = .ok acl.written := by
    rw [sortPart_eq (by omega), positive, ← proper.length_positives]
    unfold AccessList.written
    rw [Int.toNat_zero, take_zero, drop_zero, take_left, drop_left, mergeSort_cmpPlus proper.ascending]
    rfl
  have twice : sortPart cmpMinus (p + n - n).toInt n.toInt acl.written = .ok acl.used := by
    have all : acl.negative.toNat = acl.negatives.reverse.length := by rw [length_reverse, proper.length_negatives]
    rw [sortPart_eq (by omega), Int32.add_sub_cancel, positive, negative, ← proper.length_positives, all]
    unfold AccessList.written
    rw [take_left, drop_left, take_length, drop_length,
      mergeSort_cmpMinus proper.descending proper.distinctNegative, append_nil, proper.used_eq]
  unfold setIds
  rw [total, first]
  show (putIds acl.total _ (negativeIndices (p + n) n) half >>= _) = _
  rw [second, all]
  show (sortPart cmpPlus 0 p.toInt acl.written >>= _) = _
  rw [once]
  show (sortPart cmpMinus (p + n - n).toInt n.toInt acl.written >>= _) = _
  rw [twice]
  rfl

/-- A proper list, none of whose ids is that of nobody, is written and read back. -/
theorem internalize_externalize (proper : acl.Proper) (known : ∀ e ∈ acl.used, e.id ≠ anonymousId)
    (inverse : Inverse idToName nameToId name fun i => ∃ e ∈ acl.used, e.id = i) :
    ∃ elist, externalize idToName acl = some elist ∧
      ∃ again, internalize nameToId true elist = .ok again ∧ again.positive = acl.positive ∧ again.negative = acl.negative ∧
        again.total = acl.total ∧ again.entries = acl.used := by
  have bounds := And.intro proper.positive proper.negative
  have whole := proper.whole
  have few : acl.total ≤ 20 := proper.few
  have fits {v : Int} (low : 0 ≤ v) (high : v ≤ 20) : (Int32.ofInt v).toInt = v :=
    Int32.toInt_ofInt_of_le (by omega) (by omega)
  have positive := fits bounds.1 (by omega)
  have negative := fits bounds.2 (by omega)
  have sum : Int32.ofInt acl.positive + Int32.ofInt acl.negative = Int32.ofInt acl.total := by
    rw [← Int32.ofInt_add, whole]
  have total : (Int32.ofInt acl.positive + Int32.ofInt acl.negative).toInt = acl.total := by
    rw [sum]
    exact fits (by omega) few
  have involved : ∀ i ∈ acl.written.map AccessEntry.id, ∃ e ∈ acl.used, e.id = i := fun i inside => by
    obtain ⟨e, member, same⟩ := List.mem_map.1 inside
    exact ⟨e, proper.mem_written.1 member, same⟩
  have ids : ((acl.written.map AccessEntry.id ++ List.replicate aclMaxEntries.toNat 0).take acl.total.toNat) =
      acl.written.map AccessEntry.id := by
    have all : (acl.written.map AccessEntry.id).length = acl.total.toNat := by rw [length_map, proper.length_written]
    rw [← all, take_left]
  have text : externalize idToName acl =
      some (printInt (Int32.ofInt acl.positive) ++ newline :: (printInt (Int32.ofInt acl.negative) ++ newline ::
        printEntries name acl.written)) := by
    unfold externalize
    rw [if_neg (Int.not_lt.2 proper.few), proper.map_externalIndices]
    dsimp only
    rw [ids, inverse.named _ involved]
    dsimp only
    unfold printEntries
    rw [map_map, zipWith_map_left, zipWith_self]
    simp
  refine ⟨_, text, ?_⟩
  have counts : scanCounts (printInt (Int32.ofInt acl.positive) ++ newline :: (printInt (Int32.ofInt acl.negative) ++ newline ::
      printEntries name acl.written)) = some (Int32.ofInt acl.positive, Int32.ofInt acl.negative) := by
    unfold scanCounts
    rw [scanInt_printInt _ apart_newline]
    dsimp only
    rw [scanInt_space (by decide), scanInt_printInt _ apart_newline]
    rfl
  unfold internalize
  rw [counts]
  dsimp only
  rw [if_neg (by rw [total]; exact Int.not_lt.2 few)]
  by_cases zero : acl.total = 0
  · have empty : Int32.ofInt acl.positive + Int32.ofInt acl.negative = 0 := by
      rw [sum, zero]
      rfl
    have none : acl.used = [] := by
      unfold AccessList.used
      rw [zero]
      rfl
    rw [if_pos empty]
    exact ⟨_, rfl, positive, negative, total, none.symm⟩
  have some : ¬Int32.ofInt acl.positive + Int32.ofInt acl.negative = 0 := fun same => by
    rw [same] at total
    exact zero total.symm
  have above : ¬Int32.ofInt acl.positive + Int32.ofInt acl.negative < 0 := by
    rw [Int32.lt_iff_toInt_lt, total, Int32.toInt_zero]
    omega
  have turns_eq : turns (Int32.ofInt acl.positive) (Int32.ofInt acl.negative) = acl.written.length := by
    have both := turns_le (p := Int32.ofInt acl.positive) (n := Int32.ofInt acl.negative) (by omega)
    rw [proper.length_written, ← total]
    refine Nat.le_antisymm (both.2.2 ?_) both.1
    rw [Int32.le_iff_toInt_le, Int32.le_iff_toInt_le, positive, negative]
    exact bounds
  have lines : readEntries acl.total acl.written.length 0 (printEntries name acl.written) =
      .ok (acl.written.map fun e => (name e.id, e.rights), []) := readEntries_printEntries
    (by rw [proper.length_written]; omega) (fun e inside => inverse.nonempty _ ⟨e, proper.mem_written.1 inside, rfl⟩)
    fun e inside => inverse.plain _ ⟨e, proper.mem_written.1 inside, rfl⟩
  have behind : entryLines (printInt (Int32.ofInt acl.positive) ++ newline :: (printInt (Int32.ofInt acl.negative) ++ newline ::
      printEntries name acl.written)) = Option.some (printEntries name acl.written) := by
    unfold entryLines
    rw [nextLine_append (newline_notMem_printInt _), Option.bind_some, nextLine_append (newline_notMem_printInt _)]
  have names : (acl.written.map fun e => (name e.id, e.rights)).map Prod.fst = (acl.written.map AccessEntry.id).map name := by
    rw [map_map, map_map]
    rfl
  rw [if_neg some, if_neg (not_not.2 rfl), readList_eq, behind]
  dsimp only
  rw [total, turns_eq, lines]
  show ∃ again, translate nameToId _ _ (acl.written.map fun e => (name e.id, e.rights)) = .ok again ∧ _
  unfold translate
  rw [if_neg above, names, inverse.back _ involved]
  dsimp only
  rw [setIds_written proper known positive negative total (by omega)]
  exact ⟨_, rfl, positive, negative, total, rfl⟩

def mixedList : AccessList where
  size := 44
  version := 1
  total := 3
  positive := 2
  negative := 1
  entries := [⟨-101, 9⟩, ⟨7, 127⟩, ⟨7, -16⟩]

def letters (id : Int32) : Text := if id = 7 then [97] else [98]

def lookUp (names : List Text) : List Int32 := names.map fun name => if name = [97] then 7 else -101

theorem internalize_externalize_mixedList : ∃ elist, externalize (fun ids => some (ids.map letters)) mixedList = some elist ∧
      ∃ again, internalize (fun names => some (lookUp names)) true elist = .ok again ∧ again.positive = 2 ∧ again.negative = 1 ∧
        again.total = 3 ∧ again.entries = mixedList.entries := by
  have two (i : Int32) : (∃ e ∈ mixedList.used, e.id = i) → i = 7 ∨ i = -101 := by
    rintro ⟨e, inside, rfl⟩
    revert e
    decide
  have short (i : Int32) : letters i = [97] ∨ letters i = [98] := by
    unfold letters
    split
    · exact .inl rfl
    · exact .inr rfl
  have inverse : Inverse (fun ids => some (ids.map letters)) (fun names => some (lookUp names)) letters
      fun i => ∃ e ∈ mixedList.used, e.id = i :=
    { named := fun ids _ => rfl
      back := fun ids all => by
        refine congrArg some ((map_map).trans ?_)
        conv_rhs => rw [← map_id ids]
        refine map_congr_left fun i inside => ?_
        rcases two i (all i inside) with rfl | rfl <;> rfl
      nonempty := fun i _ => by rcases short i with same | same <;> rw [same] <;> exact cons_ne_nil _ _
      plain := fun i _ => by rcases short i with same | same <;> rw [same, forall_mem_singleton] <;> rfl }
  exact internalize_externalize
    { positive := by decide
      negative := by decide
      parts := by decide
      room := by decide
      ascending := by decide
      descending := by decide
      whole := by decide
      few := by decide
      distinctPositive := by decide
      distinctNegative := by decide }
    (by decide) inverse

def nobodysList : AccessList where
  size := 28
  version := 1
  total := 1
  positive := 1
  negative := 0
  entries := [⟨anonymousId, 9⟩]

theorem nobodysList_refused : (externalize (fun ids => some (ids.map fun _ => [97])) nobodysList).map
      (internalize (fun names => some (names.map fun _ => anonymousId)) true) = some (.error .refused) := by
  have digit (n : Nat) (small : n < 10) : decimal n = [UInt8.ofNat (48 + n % 10)] := by
    rw [decimal, if_pos small]
    rfl
  have one : printInt 1 = [49] := (if_neg (by decide)).trans (digit 1 (by decide))
  have zero : printInt 0 = [48] := (if_neg (by decide)).trans (digit 0 (by decide))
  have nine : printInt 9 = [57] := (if_neg (by decide)).trans (digit 9 (by decide))
  have text : externalize (fun ids => some (ids.map fun _ => [97])) nobodysList =
      some (printInt 1 ++ newline :: printInt 0 ++ newline :: [[97] ++ tab :: printInt 9 ++ [newline]].flatten) := rfl
  rw [text, one, zero, nine]
  decide +kernel

end

end OpenAFS.Libacl
