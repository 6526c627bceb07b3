import Mathlib.Data.List.TakeWhile
import Mathlib.Data.UInt

namespace OpenAFS.Lib

open List

abbrev Text := List UInt8

namespace Text

def newline : UInt8 := 10
def tab : UInt8 := 9

def isSpace (c : UInt8) : Bool := c = 32 ∨ 9 ≤ c ∧ c ≤ 13
def isDigit (c : UInt8) : Bool := 48 ≤ c ∧ c ≤ 57

def skipSpace (s : Text) : Text := s.dropWhile isSpace

def numeral (digits : Text) : Nat := digits.foldl (fun v c => 10 * v + (c.toNat - 48)) 0

/-- What `%d` stores: a number is read as a `long`, which ends at its bounds, and cut to an `int`. -/
def cutInt (v : Int) : Int32 := Int32.ofInt (max (-2 ^ 63) (min v (2 ^ 63 - 1)))

def scanDigits (minus : Bool) (s : Text) : Option (Int32 × Text) :=
  let digits := s.takeWhile isDigit
  if digits = [] then none
  else some (cutInt (if minus then -numeral digits else numeral digits), s.dropWhile isDigit)

def scanInt (s : Text) : Option (Int32 × Text) :=
  match skipSpace s with
  | [] => none
  | c :: rest =>
    if c = 43 then scanDigits false rest
    else if c = 45 then scanDigits true rest
    else scanDigits false (c :: rest)

def scanWord (s : Text) : Option (Text × Text) :=
  let word := (skipSpace s).takeWhile (!isSpace ·)
  if word = [] then none else some (word, (skipSpace s).dropWhile (!isSpace ·))

def nextLine (s : Text) : Option Text :=
  match s.dropWhile (· ≠ newline) with
  | [] => none
  | _ :: rest => some rest

def decimal (n : Nat) : Text := (if n < 10 then [] else decimal (n / 10)) ++ [UInt8.ofNat (48 + n % 10)]
termination_by n

def printInt (v : Int32) : Text := if v < 0 then 45 :: decimal v.toInt.natAbs else decimal v.toInt.natAbs

theorem toNat_digit {d : Nat} (low : d < 10) : (UInt8.ofNat (48 + d)).toNat = 48 + d := by
  rw [UInt8.toNat_ofNat']
  omega

variable {c : UInt8} {rest : Text}

theorem isDigit_iff : isDigit c = true ↔ 48 ≤ c.toNat ∧ c.toNat ≤ 57 := by
  simp [isDigit, UInt8.le_iff_toNat_le]

theorem isSpace_iff : isSpace c = true ↔ c.toNat = 32 ∨ 9 ≤ c.toNat ∧ c.toNat ≤ 13 := by
  simp [isSpace, UInt8.le_iff_toNat_le, ← UInt8.toNat_inj]

theorem decimal_digits (n : Nat) : ∀ c ∈ decimal n, isDigit c = true := by
  induction n using decimal.induct with
  | case1 n ih =>
    intro c inside
    rw [decimal] at inside
    rcases List.mem_append.1 inside with early | last
    · by_cases small : n < 10
      · rw [if_pos small] at early
        cases early
      · rw [if_neg small] at early
        exact ih small c early
    · rw [List.mem_singleton.1 last, isDigit_iff, toNat_digit (Nat.mod_lt n (by decide))]
      omega

theorem decimal_ne_nil (n : Nat) : decimal n ≠ [] := by
  rw [decimal]
  exact append_ne_nil_of_right_ne_nil _ (cons_ne_nil _ _)

theorem numeral_append (digits : Text) (c : UInt8) : numeral (digits ++ [c]) = 10 * numeral digits + (c.toNat - 48) := by
  unfold numeral
  rw [foldl_append]
  rfl

theorem numeral_decimal (n : Nat) : numeral (decimal n) = n := by
  induction n using decimal.induct with
  | case1 n ih =>
    rw [decimal, numeral_append, toNat_digit (Nat.mod_lt n (by decide))]
    by_cases small : n < 10
    · rw [if_pos small]
      have none : numeral [] = 0 := rfl
      omega
    · rw [if_neg small, ih small]
      omega

def Apart (rest : Text) : Prop := ∀ c, rest.head? = some c → isDigit c = false

theorem takeWhile_append_stop {p : UInt8 → Bool} {s : Text} (all : ∀ c ∈ s, p c = true)
    (stop : ∀ c, rest.head? = some c → p c = false) : (s ++ rest).takeWhile p = s ∧ (s ++ rest).dropWhile p = rest := by
  rw [takeWhile_append_of_pos all, dropWhile_append_of_pos all]
  cases rest with
  | nil => exact ⟨append_nil s, rfl⟩
  | cons c rest =>
    have stops : p c = false := stop c rfl
    simp [stops]

theorem scanDigits_decimal {n : Nat} (minus : Bool) (apart : Apart rest) :
    scanDigits minus (decimal n ++ rest) = some (cutInt (if minus then -n else n), rest) := by
  obtain ⟨taken, left⟩ := takeWhile_append_stop (decimal_digits n) apart
  unfold scanDigits
  rw [taken, left]
  dsimp only
  rw [numeral_decimal]
  exact if_neg (decimal_ne_nil n)

theorem cutInt_toInt (v : Int32) : cutInt v.toInt = v := by
  have low := v.le_toInt
  have high := v.toInt_lt
  unfold cutInt
  rw [Int.min_eq_left (by omega), Int.max_eq_right (by omega), Int32.ofInt_toInt]

theorem skipSpace_cons (word : isSpace c = false) : skipSpace (c :: rest) = c :: rest := by
  unfold skipSpace
  rw [dropWhile_cons_of_neg (by simp [word])]

theorem scanInt_printInt (v : Int32) (apart : Apart rest) : scanInt (printInt v ++ rest) = some (v, rest) := by
  unfold printInt
  by_cases minus : v < 0
  · have negative : -(v.toInt.natAbs : Int) = v.toInt := by
      rw [Int32.lt_iff_toInt_lt, Int32.toInt_zero] at minus
      omega
    have scanned := scanDigits_decimal (n := v.toInt.natAbs) true apart
    rw [if_pos rfl, negative, cutInt_toInt] at scanned
    rw [if_pos minus, cons_append, scanInt, skipSpace_cons (by decide)]
    exact scanned
  have positive : (v.toInt.natAbs : Int) = v.toInt := by
    rw [Int32.lt_iff_toInt_lt, Int32.toInt_zero] at minus
    omega
  have scanned := scanDigits_decimal (n := v.toInt.natAbs) false apart
  rw [if_neg Bool.false_ne_true, positive, cutInt_toInt] at scanned
  rw [if_neg minus]
  obtain ⟨c, digits, eq⟩ := exists_cons_of_ne_nil (decimal_ne_nil v.toInt.natAbs)
  have digit := isDigit_iff.1 (decimal_digits v.toInt.natAbs c (eq ▸ mem_cons_self))
  have plain : isSpace c = false := by
    rw [← Bool.not_eq_true, isSpace_iff]
    omega
  have sign (s : UInt8) (below : s.toNat < 48) : c ≠ s := by
    rintro rfl
    omega
  rw [eq] at scanned ⊢
  rw [cons_append] at scanned ⊢
  rw [scanInt, skipSpace_cons plain]
  dsimp only
  rw [if_neg (sign 43 (by decide)), if_neg (sign 45 (by decide))]
  exact scanned

theorem scanInt_space (space : isSpace c = true) (s : Text) : scanInt (c :: s) = scanInt s := by
  have same : skipSpace (c :: s) = skipSpace s := dropWhile_cons_of_pos space
  unfold scanInt
  rw [same]

theorem scanWord_append {word : Text} (some : word ≠ []) (plain : ∀ c ∈ word, isSpace c = false)
    (space : isSpace c = true) : scanWord (word ++ c :: rest) = Option.some (word, c :: rest) := by
  obtain ⟨d, word', rfl⟩ := exists_cons_of_ne_nil some
  have same : skipSpace (d :: word' ++ c :: rest) = d :: word' ++ c :: rest := skipSpace_cons (plain d mem_cons_self)
  have stops (c' : UInt8) (first : (c :: rest).head? = Option.some c') : (!isSpace c') = false := by
    cases first
    rw [space]
    rfl
  obtain ⟨taken, left⟩ :=
    takeWhile_append_stop (p := fun c => !isSpace c) (s := d :: word') (fun c inside => by rw [plain c inside]; rfl) stops
  unfold scanWord
  rw [same, taken, left]
  exact if_neg (cons_ne_nil d word')

theorem nextLine_append {s : Text} (one : newline ∉ s) : nextLine (s ++ newline :: rest) = some rest := by
  have all : ∀ c ∈ s, decide (c ≠ newline) = true := fun c inside => by
    rw [decide_eq_true_eq]
    rintro rfl
    exact one inside
  unfold nextLine
  rw [dropWhile_append_of_pos all, dropWhile_cons_of_neg (by simp)]

end Text

end OpenAFS.Lib
