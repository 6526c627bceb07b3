import Mathlib.Data.List.Basic

namespace OpenAFS.Libacl

open List

/-- The number of the members of `system:administrators`. -/
def sysAdminId : Int32 := -204

def aclMaxEntries : Int := 20

structure AccessEntry where
  id : Int32
  rights : Int32
  deriving DecidableEq, Repr

/-- `acl_accessList`. The array of entries may be longer than `total` says; negative entries are stored backwards from its end. -/
structure AccessList where
  size : Int
  version : Int
  total : Int
  positive : Int
  negative : Int
  entries : List AccessEntry
  deriving DecidableEq, Repr

def cmpInt (x y : Int32) : Ordering :=
  if x < y then .lt
  else if x = y then .eq
  else .gt

def cmpPlus (a b : AccessEntry) : Ordering := cmpInt a.id b.id
def cmpMinus (a b : AccessEntry) : Ordering := cmpInt b.id a.id

namespace AccessList

variable (acl : AccessList)

def positives : List AccessEntry := acl.entries.take acl.positive.toNat

def negatives : List AccessEntry := (acl.entries.take acl.total.toNat).drop (acl.total - acl.negative).toNat

end AccessList

/-- A loop of `acl_CheckRights`. Each turn eats up one entry or one group. -/
def accumulate (rights : Int32) : List AccessEntry → List Int32 → Int32
  | [], _ => rights
  | _, [] => rights
  | e :: entries, g :: groups =>
    match cmpInt e.id g with
    | .lt => accumulate rights entries (g :: groups)
    | .eq => accumulate (rights ||| e.rights) entries (g :: groups)
    | .gt => accumulate rights (e :: entries) groups
termination_by entries groups => entries.length + groups.length

/-- `acl_CheckRights`; `none` is the 1 for a list that is not sane. -/
def checkRights (acl : AccessList) (groups : List Int32) : Option Int32 :=
  if aclMaxEntries < acl.total then none
  else if acl.total < 0 then none
  else if 192 < acl.size then none
  else if acl.total ≤ 0 ∨ groups = [] then some 0
  else if groups.getLast? = some sysAdminId then some (-1)
  else
    let temprights := accumulate 0 acl.positives groups
    let negrights := accumulate 0 acl.negatives.reverse groups
    some (temprights &&& ~~~negrights)

def rightsFor (groups : List Int32) (entries : List AccessEntry) : Int32 :=
  ((entries.filter (·.id ∈ groups)).map AccessEntry.rights).foldr (· ||| ·) 0

section

variable {groups : List Int32}

theorem rightsFor_cons (e : AccessEntry) (entries : List AccessEntry) : rightsFor groups (e :: entries) =
      if e.id ∈ groups then e.rights ||| rightsFor groups entries else rightsFor groups entries := by
  unfold rightsFor
  rw [filter_cons]
  split
  · next inside =>
    rw [if_pos (by simpa using inside)]
    rfl
  · next outside =>
    rw [if_neg (by simpa using outside)]

theorem rightsFor_append (entries entries' : List AccessEntry) :
    rightsFor groups (entries ++ entries') = rightsFor groups entries ||| rightsFor groups entries' := by
  induction entries with
  | nil => exact Int32.zero_or.symm
  | cons e entries ih =>
    rw [cons_append, rightsFor_cons, rightsFor_cons, ih]
    split
    · exact (Int32.or_assoc ..).symm
    · rfl

theorem rightsFor_reverse (entries : List AccessEntry) : rightsFor groups entries.reverse = rightsFor groups entries := by
  induction entries with
  | nil => rfl
  | cons e entries ih =>
    have front : e :: entries = [e] ++ entries := rfl
    rw [reverse_cons, rightsFor_append, ih, front, rightsFor_append]
    exact Int32.or_comm ..

theorem rightsFor_drop {g : Int32} {entries : List AccessEntry} (below : ∀ e ∈ entries, g < e.id) :
    rightsFor (g :: groups) entries = rightsFor groups entries := by
  unfold rightsFor
  congr 2
  refine filter_congr fun e inside => ?_
  have other : e.id ≠ g := fun same => Int32.lt_irrefl (same ▸ below e inside)
  simp [other]

theorem cmpInt_lt {x y : Int32} : cmpInt x y = .lt ↔ x < y := by
  unfold cmpInt
  split
  · next less => exact iff_of_true rfl less
  · next notLess => exact iff_of_false (by split <;> decide) notLess

theorem cmpInt_gt {x y : Int32} : cmpInt x y = .gt ↔ y < x := by
  unfold cmpInt
  split
  · next less => exact iff_of_false (by decide) fun more => Int32.lt_irrefl (Int32.lt_trans less more)
  next notLess =>
  split
  · next same => exact iff_of_false (by decide) (same ▸ notLess)
  · next other =>
    refine iff_of_true rfl (Int32.lt_of_le_of_ne (Int32.not_lt.1 notLess) fun same => other same.symm)

theorem cmpInt_eq {x y : Int32} (equal : cmpInt x y = .eq) : x = y := by
  unfold cmpInt at equal
  split at equal
  · cases equal
  · split at equal
    · assumption
    · cases equal

theorem accumulate_sorted {entries : List AccessEntry} (rights : Int32)
    (sorted : entries.Pairwise fun e e' => e.id ≤ e'.id) (ascending : groups.Pairwise (· ≤ ·)) :
    accumulate rights entries groups = rights ||| rightsFor groups entries := by
  induction rights, entries, groups using accumulate.induct with
  | case1 rights groups =>
    rw [accumulate]
    exact Int32.or_zero.symm
  | case2 rights entries some =>
    have none : rightsFor [] entries = 0 := by simp [rightsFor]
    rw [accumulate, none, Int32.or_zero]
    exact some
  | case3 rights e entries g groups less ih =>
    have before : e.id < g := cmpInt_lt.1 less
    have outside : e.id ∉ g :: groups := by
      intro inside
      have above : g ≤ e.id := by
        rcases List.mem_cons.1 inside with same | later
        · rw [same]
          exact Int32.le_refl g
        · exact rel_of_pairwise_cons ascending later
      exact Int32.lt_irrefl (Int32.lt_of_lt_of_le before above)
    rw [accumulate, less, ih sorted.of_cons ascending, rightsFor_cons, if_neg outside]
  | case4 rights e entries g groups equal ih =>
    have same : e.id = g := cmpInt_eq equal
    have inside : e.id ∈ g :: groups := same ▸ mem_cons_self
    rw [accumulate, equal, ih sorted.of_cons ascending, rightsFor_cons, if_pos inside]
    exact Int32.or_assoc ..
  | case5 rights e entries g groups greater ih =>
    have below : ∀ e' ∈ e :: entries, g < e'.id := by
      intro e' inside
      have first := cmpInt_gt.1 greater
      rcases List.mem_cons.1 inside with rfl | later
      · exact first
      · exact Int32.lt_of_lt_of_le first (rel_of_pairwise_cons sorted later)
    rw [accumulate, greater, ih sorted ascending.of_cons, rightsFor_drop below]

end

/-- Both parts are sorted, the negative one by descending ids, and they do not overlap. -/
structure AccessList.Sorted (acl : AccessList) : Prop where
  positive : 0 ≤ acl.positive
  negative : 0 ≤ acl.negative
  parts : acl.positive + acl.negative ≤ acl.total
  room : acl.total ≤ acl.entries.length
  ascending : acl.positives.Pairwise fun a b => cmpPlus a b ≠ .gt
  descending : acl.negatives.Pairwise fun a b => cmpMinus a b ≠ .gt

theorem le_of_cmpInt {x y : Int32} (ordered : cmpInt x y ≠ .gt) : x ≤ y :=
  Int32.not_lt.1 fun greater => ordered (cmpInt_gt.2 greater)

/-- Where a list and the groups are sorted, it gives the rights of its positive entries for the groups without those of its
    negative ones. -/
theorem rights_checked {acl : AccessList} {groups : List Int32} (sorted : acl.Sorted) (few : acl.total ≤ aclMaxEntries)
    (small : acl.size ≤ 192) (ascending : groups.Pairwise (· ≤ ·)) (plain : groups.getLast? ≠ some sysAdminId) :
    checkRights acl groups = some (rightsFor groups acl.positives &&& ~~~rightsFor groups acl.negatives) := by
  have up : acl.positives.Pairwise fun e e' => e.id ≤ e'.id := sorted.ascending.imp le_of_cmpInt
  have down : acl.negatives.reverse.Pairwise fun e e' => e.id ≤ e'.id := by
    rw [pairwise_reverse]
    exact sorted.descending.imp le_of_cmpInt
  have parts := sorted.parts
  have positive := sorted.positive
  have negative := sorted.negative
  unfold checkRights
  rw [if_neg (by omega), if_neg (by omega), if_neg (by omega)]
  by_cases empty : acl.total ≤ 0 ∨ groups = []
  · rw [if_pos empty]
    have none : rightsFor groups acl.positives = 0 := by
      rcases empty with empty | rfl
      · have zero : acl.positive.toNat = 0 := by omega
        unfold AccessList.positives
        rw [zero]
        rfl
      · simp [rightsFor]
    rw [none, Int32.zero_and]
  · rw [if_neg empty, if_neg plain]
    dsimp only
    rw [accumulate_sorted 0 up ascending, accumulate_sorted 0 down ascending, Int32.zero_or, Int32.zero_or, rightsFor_reverse]

def threeEntries : AccessList where
  size := 44
  version := 1
  total := 3
  positive := 2
  negative := 1
  entries := [⟨-101, 9⟩, ⟨7, 127⟩, ⟨7, 16⟩]

theorem rights_checked_threeEntries : checkRights threeEntries [-101, 7, 7] =
      some (rightsFor [-101, 7, 7] threeEntries.positives &&& ~~~rightsFor [-101, 7, 7] threeEntries.negatives) :=
  rights_checked
    { positive := by decide
      negative := by decide
      parts := by decide
      room := by decide
      ascending := by decide
      descending := by decide }
    (by decide) (by decide) (by decide) (by decide)

end OpenAFS.Libacl
