import OpenAFS.Lib.Scanf
import OpenAFS.Libacl.AccessList

namespace OpenAFS.Libacl

open Lib OpenAFS.Lib.Text

/-- What `pr_NameToId` gives for a name that nobody has. -/
def anonymousId : Int32 := 32766

def aclVersion : Int := 1

def scanCounts (elist : Text) : Option (Int32 × Int32) :=
  match scanInt elist with
  | none => none
  | some (p, rest) => (scanInt rest).map fun (n, _) => (p, n)

def scanEntry (nextc : Text) : Option (Text × Int32) :=
  match scanWord nextc with
  | none => none
  | some (name, rest) => (scanInt rest).map fun (rights, _) => (name, rights)

/-- How `acl_Internalize` stops: it returns -1, or it uses an index outside of its arrays or leaves the text. -/
inductive Stop where
  | refused
  | astray
  deriving DecidableEq, Repr

abbrev Parse := Except Stop

/-- An index into `entries` and `namelist_val`, which have `total` elements. -/
def useIndex (total i : Int) : Parse Unit := if 0 ≤ i ∧ i < total then pure () else throw .astray

def advance (nextc : Text) : Parse Text :=
  match nextLine nextc with
  | none => throw .astray
  | some nextc => pure nextc

def readEntries (total : Int) : (turns : Nat) → (j : Nat) → Text → Parse (List (Text × Int32) × Text)
  | 0, _, nextc => pure ([], nextc)
  | turns + 1, j, nextc => do
    useIndex total j
    match scanEntry nextc with
    | none => throw .refused
    | some entry =>
      let nextc ← advance nextc
      let (rest, nextc) ← readEntries total turns (j + 1) nextc
      pure (entry :: rest, nextc)

def putIds (total : Int) (ids : List Int32) : List Int → List AccessEntry → Parse (List AccessEntry)
  | [], entries => pure entries
  | i :: rest, entries => do
    useIndex total i
    if ids.getD i.toNat 0 = anonymousId then throw .refused
    putIds total ids rest (entries.modify i.toNat fun e => { e with id := ids.getD i.toNat 0 })

/-- `qsort` takes the number of the elements as unsigned. -/
def sortPart (cmp : AccessEntry → AccessEntry → Ordering) (first count : Int) (entries : List AccessEntry) :
    Parse (List AccessEntry) :=
  if count < 0 then throw .astray
  else
    let tail := entries.drop first.toNat
    pure (entries.take first.toNat ++ (tail.take count.toNat).mergeSort (fun a b => cmp a b ≠ .gt) ++ tail.drop count.toNat)

/-- The values of `i` from `total - 1` down, as long as it is not less than `total - negative`. -/
def negativeIndices (total negative : Int32) : List Int :=
  (List.range ((total - 1).toInt + 1 - (total - negative).toInt).toNat).map fun (k : Nat) => (total - 1).toInt - k

def positiveIndices (positive : Int32) : List Int := (List.range positive.toInt.toNat).map fun (k : Nat) => (k : Int)

def newAcl (p n : Int32) : AccessList where
  size := 28 + ((p + n).toInt - 1) * 8
  version := aclVersion
  total := (p + n).toInt
  positive := p.toInt
  negative := n.toInt
  entries := []

def readList (p n : Int32) (elist : Text) : Parse (List (Text × Int32)) := do
  let nextc ← advance (← advance elist)
  let (positives, nextc) ← readEntries (p + n).toInt p.toInt.toNat 0 nextc
  let (negatives, _) ← readEntries (p + n).toInt (negativeIndices (p + n) n).length positives.length nextc
  pure (positives ++ negatives)

def setIds (p n : Int32) (ids : List Int32) (read : List (Text × Int32)) : Parse AccessList := do
  let entries ← putIds (p + n).toInt ids (positiveIndices p) (read.map fun e => ⟨0, e.2⟩)
  let entries ← putIds (p + n).toInt ids (negativeIndices (p + n) n) entries
  let entries ← sortPart cmpPlus 0 p.toInt entries
  let entries ← sortPart cmpMinus (p + n - n).toInt n.toInt entries
  pure { newAcl p n with entries }

section

variable (nameToId : List Text → Option (List Int32)) (allocated : Bool)

/-- The names are translated. Their number is unsigned: where it is negative, `pr_NameToId` goes on to names that are not there. -/
def translate (p n : Int32) (read : List (Text × Int32)) : Parse AccessList :=
  if p + n < 0 then throw .astray
  else
    match nameToId (read.map Prod.fst) with
    | none => throw .refused
    | some ids => setIds p n ids read

/-- `acl_Internalize`; `allocated` says whether there is memory for the names. -/
def internalize (elist : Text) : Parse AccessList :=
  match scanCounts elist with
  | none => throw .refused
  | some (p, n) =>
    if aclMaxEntries < (p + n).toInt then throw .refused
    else if p + n = 0 then pure (newAcl p n)
    else if ¬allocated then throw .refused
    else do
      let read ← readList p n elist
      translate nameToId p n read

end

/-- The indices of the entries in the order in which they are written: the positive ones, and the negative ones from the end. -/
def AccessList.externalIndices (acl : AccessList) : List Nat :=
  List.range acl.positive.toNat ++ (List.range' (acl.total - acl.negative).toNat acl.negative.toNat).reverse

def printEntry (name : Text) (rights : Int32) : Text := name ++ tab :: printInt rights ++ [newline]

def externalize (idToName : List Int32 → Option (List Text)) (acl : AccessList) : Option Text :=
  if aclMaxEntries < acl.total then none
  else
    let written := acl.externalIndices.map fun i => acl.entries.getD i ⟨0, 0⟩
    match idToName ((written.map AccessEntry.id ++ List.replicate aclMaxEntries.toNat 0).take acl.total.toNat) with
    | none => none
    | some names =>
      some (printInt (Int32.ofInt acl.positive) ++ newline :: printInt (Int32.ofInt acl.negative) ++ newline ::
        (List.zipWith (fun name e => printEntry name e.rights) names written).flatten)

/-- The text behind `k` lines that are entries and end with a newline. -/
def linesRead : Nat → Text → Option Text
  | 0, nextc => some nextc
  | k + 1, nextc => if (scanEntry nextc).isSome then (nextLine nextc).bind (linesRead k) else none

/-- One of the first `k` lines is not an entry, and those before it are and end with a newline. -/
def Breaks (k : Nat) (nextc : Text) : Prop := ∃ m < k, ∃ nextc', linesRead m nextc = some nextc' ∧ scanEntry nextc' = none

def entryLines (elist : Text) : Option Text := (nextLine elist).bind nextLine

/-- A text whose entries are looked at has two lines for the counts, and of as many lines behind them as the counts make together one
    is not an entry before the text ends, or neither count is negative and all are entries that end with a newline. -/
def ReadInside (allocated : Bool) (elist : Text) : Prop :=
  ∀ p n, scanCounts elist = some (p, n) → (p + n).toInt ≤ aclMaxEntries → p + n ≠ 0 → allocated →
    ∃ nextc, entryLines elist = some nextc ∧ (Breaks (p + n).toInt.toNat nextc ∨
        0 ≤ p ∧ 0 ≤ n ∧ 0 ≤ p + n ∧ (linesRead (p + n).toInt.toNat nextc).isSome)

section

variable {total : Int}

theorem useIndex_inside {i : Int} (low : 0 ≤ i) (high : i < total) : useIndex total i = .ok () := if_pos ⟨low, high⟩

theorem useIndex_outside {i : Int} (high : total ≤ i) : useIndex total i = .error .astray :=
  if_neg fun inside => absurd inside.2 (by omega)

theorem breaks_succ {k : Nat} {nextc : Text} : Breaks (k + 1) nextc ↔
      scanEntry nextc = none ∨ (scanEntry nextc).isSome ∧ ∃ nextc', nextLine nextc = some nextc' ∧ Breaks k nextc' := by
  constructor
  · rintro ⟨m, low, nextc', read, none⟩
    cases m with
    | zero =>
      cases read
      exact .inl none
    | succ m =>
      rw [linesRead] at read
      split at read
      · next entry =>
        obtain ⟨next, line, read⟩ := Option.bind_eq_some_iff.1 read
        exact .inr ⟨entry, next, line, m, by omega, nextc', read, none⟩
      · cases read
  · rintro (none | ⟨entry, next, line, m, low, nextc', read, none⟩)
    · exact ⟨0, Nat.succ_pos k, nextc, rfl, none⟩
    · refine ⟨m + 1, Nat.succ_lt_succ low, nextc', ?_, none⟩
      rw [linesRead, if_pos entry, line]
      exact read

theorem not_breaks_zero {nextc : Text} : ¬Breaks 0 nextc := fun ⟨_, low, _⟩ => absurd low (Nat.not_lt_zero _)

section

variable {turns j : Nat} {nextc next : Text} {e : Text × Int32}

theorem readEntries_outside (high : total ≤ j) : readEntries total (turns + 1) j nextc = .error .astray := by
  rw [readEntries, useIndex_outside high]
  rfl

theorem readEntries_refused (high : j < total) (entry : scanEntry nextc = none) :
    readEntries total (turns + 1) j nextc = .error .refused := by
  rw [readEntries, useIndex_inside (Int.natCast_nonneg j) high, entry]
  rfl

theorem readEntries_endless (high : j < total) (entry : scanEntry nextc = some e) (line : nextLine nextc = none) :
    readEntries total (turns + 1) j nextc = .error .astray := by
  have stops : advance nextc = .error .astray := by
    unfold advance
    rw [line]
    rfl
  rw [readEntries, useIndex_inside (Int.natCast_nonneg j) high, entry, stops]
  rfl

theorem readEntries_next (high : j < total) (entry : scanEntry nextc = some e) (line : nextLine nextc = some next) :
    readEntries total (turns + 1) j nextc = (readEntries total turns (j + 1) next).map fun r => (e :: r.1, r.2) := by
  have goes : advance nextc = .ok next := by
    unfold advance
    rw [line]
    rfl
  rw [readEntries, useIndex_inside (Int.natCast_nonneg j) high, entry, goes]
  rfl

end

theorem map_eq_error {α β : Type} {f : α → β} {x : Parse α} {stop : Stop} : x.map f = .error stop ↔ x = .error stop := by
  cases x with
  | error e =>
    constructor
    · rintro ⟨⟩
      rfl
    · rintro ⟨⟩
      rfl
  | ok a => exact iff_of_false (by rintro ⟨⟩) (by rintro ⟨⟩)

theorem readEntries_astray {turns j : Nat} {nextc : Text} : readEntries total turns j nextc = .error .astray ↔
      ¬Breaks (min turns (total - j).toNat) nextc ∧ (turns ≤ (total - j).toNat → linesRead turns nextc = none) := by
  induction turns generalizing j nextc with
  | zero =>
    refine iff_of_false (by rintro ⟨⟩) fun both => ?_
    cases both.2 (Nat.zero_le _)
  | succ turns ih =>
    by_cases inside : (j : Int) < total
    · have room : (total - j).toNat = (total - (j + 1 : Nat)).toNat + 1 := by omega
      rw [room, Nat.succ_min_succ, breaks_succ, Nat.succ_le_succ_iff, linesRead]
      cases entry : scanEntry nextc with
      | none =>
        rw [readEntries_refused inside entry]
        exact iff_of_false (by rintro ⟨⟩) fun both => both.1 (.inl rfl)
      | some e =>
        cases line : nextLine nextc with
        | none =>
          rw [readEntries_endless inside entry line]
          exact iff_of_true rfl ⟨by simp, fun _ => rfl⟩
        | some next =>
          rw [readEntries_next inside entry line, map_eq_error, ih]
          simp
    · have room : (total - j).toNat = 0 := by omega
      rw [readEntries_outside (by omega), room, Nat.min_zero]
      exact iff_of_true rfl ⟨not_breaks_zero, fun few => absurd few (Nat.not_succ_le_zero turns)⟩

theorem readEntries_ok {turns j : Nat} {nextc left : Text} {read : List (Text × Int32)}
    (run : readEntries total turns j nextc = .ok (read, left)) : read.length = turns ∧ turns ≤ (total - j).toNat := by
  induction turns generalizing j nextc read with
  | zero =>
    cases run
    exact ⟨rfl, Nat.zero_le _⟩
  | succ turns ih =>
    by_cases inside : (j : Int) < total
    · cases entry : scanEntry nextc with
      | none =>
        rw [readEntries_refused inside entry] at run
        cases run
      | some e =>
        cases line : nextLine nextc with
        | none =>
          rw [readEntries_endless inside entry line] at run
          cases run
        | some next =>
          rw [readEntries_next inside entry line] at run
          rcases rest : readEntries total turns (j + 1) next with stop | ⟨read', left'⟩
          · rw [rest] at run
            cases run
          rw [rest] at run
          cases run
          obtain ⟨length, room⟩ := ih rest
          rw [List.length_cons, length]
          exact ⟨rfl, by omega⟩
    · rw [readEntries_outside (by omega)] at run
      cases run

theorem readEntries_add (a b j : Nat) (nextc : Text) : readEntries total (a + b) j nextc = (do
      let (first, nextc) ← readEntries total a j nextc
      let (rest, nextc) ← readEntries total b (j + a) nextc
      pure (first ++ rest, nextc)) := by
  induction a generalizing j nextc with
  | zero =>
    have last : readEntries total b j nextc = (do
        let (rest, nextc) ← readEntries total b j nextc
        pure ([] ++ rest, nextc)) := by
      rcases readEntries total b j nextc with stop | ⟨read, left⟩ <;> rfl
    rw [Nat.zero_add]
    exact last
  | succ a ih =>
    rw [Nat.succ_add_eq_add_succ, Nat.add_succ]
    by_cases inside : (j : Int) < total
    · cases entry : scanEntry nextc with
      | none =>
        rw [readEntries_refused inside entry, readEntries_refused inside entry]
        rfl
      | some e =>
        cases line : nextLine nextc with
        | none =>
          rw [readEntries_endless inside entry line, readEntries_endless inside entry line]
          rfl
        | some next =>
          have place : j + 1 + a = j + (a + 1) := by omega
          rw [readEntries_next inside entry line, readEntries_next inside entry line, ih, place]
          rcases readEntries total a (j + 1) next with stop | ⟨read, left⟩
          · rfl
          · show (readEntries total b (j + (a + 1)) left >>= _).map _ = (readEntries total b (j + (a + 1)) left >>= _)
            rcases readEntries total b (j + (a + 1)) left with stop | ⟨read', left'⟩ <;> rfl
    · rw [readEntries_outside (by omega), readEntries_outside (by omega)]
      rfl

end

section

variable {p n : Int32} {elist : Text}

def turns (p n : Int32) : Nat := p.toInt.toNat + (negativeIndices (p + n) n).length

theorem readList_eq : readList p n elist = match entryLines elist with
    | none => .error .astray
    | some nextc => (readEntries (p + n).toInt (turns p n) 0 nextc).map Prod.fst := by
  unfold readList entryLines
  cases first : nextLine elist with
  | none =>
    have stops : advance elist = .error .astray := by
      unfold advance
      rw [first]
      rfl
    rw [stops]
    rfl
  | some next =>
    have goes : advance elist = .ok next := by
      unfold advance
      rw [first]
      rfl
    rw [goes]
    cases second : nextLine next with
    | none =>
      have stops : advance next = .error .astray := by
        unfold advance
        rw [second]
        rfl
      show (advance next >>= _) = _
      rw [stops, Option.bind_some, second]
      rfl
    | some nextc =>
      have goes : advance next = .ok nextc := by
        unfold advance
        rw [second]
        rfl
      show (advance next >>= _) = _
      rw [goes, Option.bind_some, second]
      dsimp only
      unfold turns
      rw [readEntries_add]
      show (readEntries (p + n).toInt p.toInt.toNat 0 nextc >>= _) = _
      rcases run : readEntries (p + n).toInt p.toInt.toNat 0 nextc with stop | ⟨positives, left⟩
      · rfl
      have length := (readEntries_ok run).1
      rw [Nat.zero_add]
      show (readEntries _ _ positives.length left >>= _) = (readEntries _ _ _ left >>= _).map _
      rw [length]
      rcases readEntries (p + n).toInt (negativeIndices (p + n) n).length p.toInt.toNat left with stop | ⟨negatives, left'⟩ <;> rfl

theorem length_negativeIndices : (negativeIndices (p + n) n).length = ((p + n - 1).toInt + 1 - p.toInt).toNat := by
  unfold negativeIndices
  rw [List.length_map, List.length_range, Int32.add_sub_cancel]

theorem turns_le (more : 0 < (p + n).toInt) :
    (p + n).toInt.toNat ≤ turns p n ∧ (turns p n ≤ (p + n).toInt.toNat ↔ 0 ≤ p ∧ 0 ≤ n) := by
  have sum : (p + n).toInt = (p.toInt + n.toInt).bmod (2 ^ 32) := Int32.toInt_add p n
  have before : (p + n - 1).toInt = ((p + n).toInt - 1).bmod (2 ^ 32) := Int32.toInt_sub (p + n) 1
  have pBounds := And.intro p.le_toInt p.toInt_lt
  have nBounds := And.intro n.le_toInt n.toInt_lt
  unfold turns
  rw [length_negativeIndices, Int32.le_iff_toInt_le, Int32.le_iff_toInt_le, Int32.toInt_zero]
  generalize (p + n - 1).toInt = last at *
  generalize (p + n).toInt = total at *
  simp only [Int.bmod, Nat.reducePow] at sum before
  omega

theorem putIds_kept {total : Int} {ids : List Int32} {indices : List Int} (inside : ∀ i ∈ indices, 0 ≤ i ∧ i < total)
    (entries : List AccessEntry) : putIds total ids indices entries ≠ .error .astray := by
  induction indices generalizing entries with
  | nil => rintro ⟨⟩
  | cons i rest ih =>
    obtain ⟨low, high⟩ := inside i List.mem_cons_self
    rw [putIds, useIndex_inside low high]
    by_cases anonymous : ids.getD i.toNat 0 = anonymousId
    · rw [if_pos anonymous]
      rintro ⟨⟩
    · rw [if_neg anonymous]
      exact ih (fun i' later => inside i' (List.mem_cons_of_mem i later)) _

theorem sortPart_ok (cmp : AccessEntry → AccessEntry → Ordering) (first : Int) {count : Int} (some : 0 ≤ count)
    (entries : List AccessEntry) : ∃ sorted, sortPart cmp first count entries = .ok sorted :=
  ⟨_, if_neg (by omega)⟩

theorem mem_positiveIndices {p : Int32} {i : Int} : i ∈ positiveIndices p ↔ 0 ≤ i ∧ i < p.toInt := by
  unfold positiveIndices
  rw [List.mem_map]
  constructor
  · rintro ⟨k, inside, rfl⟩
    have low := List.mem_range.1 inside
    omega
  · rintro ⟨low, high⟩
    exact ⟨i.toNat, List.mem_range.2 (by omega), by omega⟩

theorem mem_negativeIndices {i : Int} (more : 0 < (p + n).toInt) :
    i ∈ negativeIndices (p + n) n ↔ p.toInt ≤ i ∧ i < (p + n).toInt := by
  have before : (p + n - 1).toInt = ((p + n).toInt - 1).bmod (2 ^ 32) := Int32.toInt_sub (p + n) 1
  have sumBounds := And.intro (p + n).le_toInt (p + n).toInt_lt
  simp only [Int.bmod, Nat.reducePow] at before
  unfold negativeIndices
  rw [List.mem_map, Int32.add_sub_cancel]
  constructor
  · rintro ⟨k, inside, rfl⟩
    have low := List.mem_range.1 inside
    omega
  rintro ⟨low, high⟩
  refine ⟨((p + n - 1).toInt - i).toNat, List.mem_range.2 ?_, ?_⟩
  · omega
  · omega

theorem bind_kept {α β : Type} {x : Parse α} {f : α → Parse β} (first : x ≠ .error .astray)
    (rest : ∀ a, f a ≠ .error .astray) : (x >>= f) ≠ .error .astray := by
  cases x with
  | error stop =>
    rintro ⟨⟩
    exact first rfl
  | ok a => exact rest a

variable (nameToId : List Text → Option (List Int32))

theorem translate_kept (first : 0 ≤ p) (second : 0 ≤ n) (more : 0 < (p + n).toInt)
    (read : List (Text × Int32)) : translate nameToId p n read ≠ .error .astray := by
  rw [Int32.le_iff_toInt_le, Int32.toInt_zero] at first second
  have sum : (p + n).toInt = (p.toInt + n.toInt).bmod (2 ^ 32) := Int32.toInt_add p n
  have pBound := p.toInt_lt
  have nBound := n.toInt_lt
  simp only [Int.bmod, Nat.reducePow] at sum
  have notNegative : ¬p + n < 0 := by
    rw [Int32.lt_iff_toInt_lt, Int32.toInt_zero]
    omega
  have positives : ∀ i ∈ positiveIndices p, 0 ≤ i ∧ i < (p + n).toInt := fun i inside => by
    have bounds := mem_positiveIndices.1 inside
    omega
  have negatives : ∀ i ∈ negativeIndices (p + n) n, 0 ≤ i ∧ i < (p + n).toInt := fun i inside => by
    have bounds := (mem_negativeIndices more).1 inside
    omega
  unfold translate
  rw [if_neg notNegative]
  cases nameToId (read.map Prod.fst) with
  | none => rintro ⟨⟩
  | some ids =>
    refine bind_kept (putIds_kept positives _) fun entries => ?_
    refine bind_kept (putIds_kept negatives entries) fun entries => ?_
    obtain ⟨sorted, run⟩ := sortPart_ok cmpPlus 0 first entries
    rw [run]
    obtain ⟨sorted', run'⟩ := sortPart_ok cmpMinus (p + n - n).toInt second sorted
    show (sortPart cmpMinus (p + n - n).toInt n.toInt sorted >>= _) ≠ _
    rw [run']
    rintro ⟨⟩

theorem readList_kept (more : 0 < (p + n).toInt) : readList p n elist ≠ .error .astray ↔ ∃ nextc, entryLines elist = some nextc ∧
        (Breaks (p + n).toInt.toNat nextc ∨ (0 ≤ p ∧ 0 ≤ n) ∧ (linesRead (p + n).toInt.toNat nextc).isSome) := by
  rw [readList_eq]
  cases entryLines elist with
  | none => exact iff_of_false (not_not.2 rfl) (by rintro ⟨nextc, ⟨⟩, -⟩)
  | some nextc =>
    obtain ⟨least, exact_⟩ := turns_le more
    rw [ne_eq, map_eq_error, readEntries_astray, Int.natCast_zero, Int.sub_zero, Nat.min_eq_right least, exact_, not_and_or, not_not]
    simp only [Option.some.injEq, exists_eq_left', Classical.not_imp]
    refine or_congr_right (and_congr_right fun both => ?_)
    rw [Nat.le_antisymm (exact_.2 both) least, ← Option.ne_none_iff_isSome]

theorem negative_astray (none : (p + n).toInt < 0) :
    (readList p n elist >>= translate nameToId p n) = .error .astray := by
  have less : p + n < 0 := by
    rw [Int32.lt_iff_toInt_lt]
    exact none
  rw [readList_eq]
  cases entryLines elist with
  | none => rfl
  | some nextc =>
    cases turns p n with
    | zero => exact if_pos less
    | succ turns =>
      dsimp only
      rw [readEntries_outside (by omega)]
      rfl

theorem positive_kept (more : 0 < (p + n).toInt) :
    (readList p n elist >>= translate nameToId p n) ≠ .error .astray ↔ readList p n elist ≠ .error .astray := by
  rcases run : readList p n elist with stop | read
  · show (Except.error stop : Parse AccessList) ≠ _ ↔ _
    simp
  refine iff_of_true ?_ (by rintro ⟨⟩)
  rw [readList_eq] at run
  cases lines : entryLines elist with
  | none =>
    rw [lines] at run
    cases run
  | some nextc =>
    rw [lines] at run
    dsimp only at run
    rcases loop : readEntries (p + n).toInt (turns p n) 0 nextc with stop | ⟨read', left⟩
    · rw [loop] at run
      cases run
    obtain ⟨-, room⟩ := readEntries_ok loop
    rw [Int.natCast_zero, Int.sub_zero] at room
    obtain ⟨first, second⟩ := (turns_le more).2.1 room
    exact translate_kept nameToId first second more read

def oneTooMany : Text := [50, newline, 45, 49, newline, 97, tab, 49, newline, 98, tab, 49, newline]

end

end OpenAFS.Libacl
