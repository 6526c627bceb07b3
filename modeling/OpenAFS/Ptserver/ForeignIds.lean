import OpenAFS.Ptserver.Entries

namespace OpenAFS.Ptserver

open Lib

def PrEntry.cell (cellEntry : PrEntry) : Int := cellEntry.id % 65536

def foreignUser (cellEntry : PrEntry) (id : Int) : Int := int32 (id * 65536 + cellEntry.cell)

def PrDb.Uses (db : PrDb) (aid : Id) : Prop := ∃ loc, db.findByID aid = .ok loc ∧ loc ≠ 0

def firstNumber (cellEntry : PrEntry) : Int := int32 (cellEntry.nusers + 1)

structure FirstFree (db : PrDb) (cellEntry : PrEntry) (n : Int) : Prop where
  above : firstNumber cellEntry ≤ n
  last : n ≤ 0xffff ∨ n = firstNumber cellEntry
  free : db.findByID (foreignUser cellEntry n) = .ok 0
  used : ∀ m, firstNumber cellEntry ≤ m → m < n → db.Uses (foreignUser cellEntry m)

def NoneFree (db : PrDb) (cellEntry : PrEntry) : Prop :=
  ∀ aid : Int, 0 < aid → aid < 2 ^ 31 → aid % 65536 = cellEntry.cell → cellEntry.nusers < aid / 65536 → db.findByID aid ≠ .ok 0

/-- An id that is given to a user is fit for one, and is refused only if there is none. -/
structure AllocOK (db : PrDb) (cellEntry : PrEntry) : Prop where
  given : ∀ cellEntry' id, db.foreignId cellEntry 0 false = .ok (cellEntry', id) →
    id ≠ 0 ∧ 0 < id ∧ db.findByID id = .ok 0 ∧ id % 65536 = cellEntry.cell
  refused : db.foreignId cellEntry 0 false = .error .noIds → NoneFree db cellEntry

/-- The number that is taken fits into the positive half, and gives an id or nothing was left. -/
def TakesSmall (db : PrDb) (cellEntry : PrEntry) : Prop :=
  ∀ n, FirstFree db cellEntry n → n % 65536 < 0x8000 ∧ (n % 65536 = 0 → cellEntry.cell = 0 → NoneFree db cellEntry)

def Records (aid : Id) (db db' : PrDb) : Prop := db'.Uses aid ∧ ∀ x, db.Uses x → db'.Uses x

/-- Users of a cell are made one after the other, with ids that are asked for or allocated. -/
inductive CellRun (db₀ : PrDb) (cell₀ : PrEntry) : PrDb → PrEntry → Prop
  | start : CellRun db₀ cell₀ db₀ cell₀
  | serve {db db' : PrDb} {cellEntry cellEntry' cellEntry'' : PrEntry} {aid id : Id} {idflag : Bool} :
      CellRun db₀ cell₀ db cellEntry → db.foreignId cellEntry aid idflag = .ok (cellEntry', id) → Records id db db' →
      cellEntry''.id = cellEntry'.id → cellEntry''.nusers = cellEntry'.nusers → CellRun db₀ cell₀ db' cellEntry''

theorem PrEntry.cell_range (cellEntry : PrEntry) : 0 ≤ cellEntry.cell ∧ cellEntry.cell < 65536 := by
  unfold PrEntry.cell
  omega

theorem foreignUser_cell (cellEntry : PrEntry) (n : Int) : foreignUser cellEntry n % 65536 = cellEntry.cell := by
  have range := cellEntry.cell_range
  unfold foreignUser int32
  rw [Int.bmod_def]
  split <;> omega

theorem foreignUser_positive {cellEntry : PrEntry} {n : Int} (some : foreignUser cellEntry n ≠ 0) :
    0 < foreignUser cellEntry n ↔ n % 65536 < 0x8000 := by
  have range := cellEntry.cell_range
  unfold foreignUser int32 at *
  rw [Int.bmod_def] at *
  split at some <;> rename_i half
  · omega
  · omega

theorem foreignUser_zero {cellEntry : PrEntry} {n : Int} : foreignUser cellEntry n = 0 ↔ n % 65536 = 0 ∧ cellEntry.cell = 0 := by
  have range := cellEntry.cell_range
  unfold foreignUser int32
  rw [Int.bmod_def]
  split <;> omega

theorem foreignUser_of_positive {cellEntry : PrEntry} {aid : Int} (positive : 0 < aid) (fits : aid < 2 ^ 31)
    (cell : aid % 65536 = cellEntry.cell) : foreignUser cellEntry (aid / 65536) = aid := by
  unfold foreignUser int32
  rw [← cell, Int.bmod_def]
  split <;> omega

section

variable {db : PrDb} {cellEntry : PrEntry}

variable {fuel : Nat} {id n : Int}

theorem allocNextIdFrom_some (found : db.allocNextIdFrom (cellEntry.cell) fuel id = .ok (some n)) :
    id ≤ n ∧ n < id + fuel ∧ db.findByID (foreignUser cellEntry n) = .ok 0 ∧
      ∀ m, id ≤ m → m < n → db.Uses (foreignUser cellEntry m) := by
  induction fuel generalizing id with
  | zero => cases found
  | succ fuel ih =>
    obtain ⟨loc, here, found⟩ := except_bind_eq_ok.mp found
    split at found
    · rename_i free
      cases found
      rw [free] at here
      exact ⟨Int.le_refl _, by omega, here, fun m low high => by omega⟩
    rename_i taken
    obtain ⟨above, below, free, used⟩ := ih found
    refine ⟨by omega, by omega, free, fun m low high => ?_⟩
    rcases Int.lt_or_eq_of_le low with later | rfl
    · exact used m (by omega) high
    · exact ⟨loc, here, taken⟩

theorem allocNextIdFrom_none (none : db.allocNextIdFrom (cellEntry.cell) fuel id = .ok none) :
    ∀ m, id ≤ m → m < id + fuel → db.Uses (foreignUser cellEntry m) := by
  induction fuel generalizing id with
  | zero => exact fun m low high => by omega
  | succ fuel ih =>
    obtain ⟨loc, here, none⟩ := except_bind_eq_ok.mp none
    split at none
    · cases none
    rename_i taken
    intro m low high
    rcases Int.lt_or_eq_of_le low with later | rfl
    · exact ih none m (by omega) (by omega)
    · exact ⟨loc, here, taken⟩

theorem allocNextIdFrom_reaches (above : id ≤ n) (below : n < id + fuel) (free : db.findByID (foreignUser cellEntry n) = .ok 0)
    (used : ∀ m, id ≤ m → m < n → db.Uses (foreignUser cellEntry m)) :
    db.allocNextIdFrom (cellEntry.cell) fuel id = .ok (some n) := by
  induction fuel generalizing id with
  | zero => omega
  | succ fuel ih =>
    rcases Int.lt_or_eq_of_le above with later | rfl
    · obtain ⟨loc, here, taken⟩ := used id (Int.le_refl _) later
      refine except_bind_eq_ok.mpr ⟨loc, here, ?_⟩
      rw [if_neg taken]
      exact ih (by omega) (by omega) fun m low high => used m (by omega) high
    · exact except_bind_eq_ok.mpr ⟨0, free, if_pos rfl⟩

theorem findFrom_loops {hit : PrEntry → Bool} {k : Thread} {b : Nat} {e : PrError}
    (failed : db.findFrom hit k fuel b = .error e) : e = .loops := by
  induction fuel generalizing b with
  | zero =>
    cases failed
    rfl
  | succ fuel ih =>
    rw [PrDb.findFrom] at failed
    split at failed
    · cases failed
    · split at failed
      · cases failed
      · exact ih failed

theorem allocNextIdFrom_loops {cellid : Int} {e : PrError}
    (failed : db.allocNextIdFrom cellid fuel id = .error e) : e = .loops := by
  induction fuel generalizing id with
  | zero => cases failed
  | succ fuel ih =>
    rcases except_bind_eq_error.mp failed with none | ⟨loc, -, later⟩
    · unfold PrDb.findByID at none
      split at none
      · cases none
      · exact findFrom_loops none
    · split at later
      · cases later
      · exact ih later

theorem foreignId_given {cellEntry' : PrEntry} {id : Id} (given : db.foreignId cellEntry 0 false = .ok (cellEntry', id)) :
    ∃ n, FirstFree db cellEntry n ∧ cellEntry' = { cellEntry with nusers := n } ∧ id = foreignUser cellEntry n ∧ id ≠ 0 := by
  obtain ⟨⟨group, id'⟩, allocated, given⟩ := except_bind_eq_ok.mp given
  obtain ⟨some, given⟩ := ensure_then.mp given
  cases given
  obtain ⟨r, found, allocated⟩ := except_bind_eq_ok.mp allocated
  cases r with
  | none =>
    cases allocated
    exact absurd rfl some
  | some n =>
    cases allocated
    obtain ⟨above, below, free, used⟩ := allocNextIdFrom_some found
    refine ⟨n, ⟨above, ?_, free, used⟩, rfl, rfl, some⟩
    unfold firstNumber
    omega

theorem foreignId_of_firstFree (first : FirstFree db cellEntry n) : db.foreignId cellEntry 0 false =
      if foreignUser cellEntry n ≠ 0 then .ok ({ cellEntry with nusers := n }, foreignUser cellEntry n)
      else .error .noIds := by
  have reach : n < firstNumber cellEntry + (max 1 (65536 - firstNumber cellEntry).toNat : Nat) := by
    rcases first.last with low | same <;> omega
  have found := allocNextIdFrom_reaches first.above reach first.free first.used
  have allocated : db.allocNextId cellEntry = .ok ({ cellEntry with nusers := n }, foreignUser cellEntry n) := by
    exact except_bind_eq_ok.mpr ⟨some n, found, rfl⟩
  unfold PrDb.foreignId
  rw [allocated]
  by_cases zero : foreignUser cellEntry n = 0
  · rw [if_neg (not_not_intro zero)]
    exact ensure_fails_or.mpr (.inl ⟨not_not_intro zero, rfl⟩)
  · rw [if_pos zero]
    exact ensure_then.mpr ⟨zero, rfl⟩

theorem foreignId_refused (refused : db.foreignId cellEntry 0 false = .error .noIds) :
    (∃ n, FirstFree db cellEntry n ∧ foreignUser cellEntry n = 0) ∨
      ∀ m, firstNumber cellEntry ≤ m → m ≤ 0xffff → db.Uses (foreignUser cellEntry m) := by
  rcases except_bind_eq_error.mp refused with failed | ⟨⟨group, id⟩, allocated, refused⟩
  · rcases except_bind_eq_error.mp failed with failed | ⟨r, -, failed⟩
    · cases allocNextIdFrom_loops failed
    · cases r <;> cases failed
  rcases ensure_fails_or.mp refused with ⟨zero, -⟩ | ⟨-, none⟩
  · rw [not_not] at zero
    obtain ⟨r, found, allocated⟩ := except_bind_eq_ok.mp allocated
    cases r with
    | none =>
      right
      intro m low high
      apply allocNextIdFrom_none found m low
      omega
    | some n =>
      left
      cases allocated
      obtain ⟨above, below, free, used⟩ := allocNextIdFrom_some found
      refine ⟨n, ⟨above, ?_, free, used⟩, zero⟩
      unfold firstNumber
      omega
  · cases none

variable (word : int32 cellEntry.nusers = cellEntry.nusers)
include word

theorem firstNumber_le {m : Int} (above : cellEntry.nusers < m) :
    firstNumber cellEntry ≤ m := by
  unfold firstNumber int32 at *
  rw [Int.bmod_def] at *
  split at word <;> split <;> omega

theorem noneFree_of_used
    (used : ∀ m, firstNumber cellEntry ≤ m → m ≤ 0xffff → db.Uses (foreignUser cellEntry m)) : NoneFree db cellEntry := by
  intro aid positive fits cell above free
  have low : firstNumber cellEntry ≤ aid / 65536 := firstNumber_le word above
  obtain ⟨loc, found, taken⟩ := used _ low (by omega)
  rw [foreignUser_of_positive positive fits cell, free] at found
  cases found
  exact taken rfl

theorem allocOK_iff : AllocOK db cellEntry ↔ TakesSmall db cellEntry := by
  constructor
  · intro ok n first
    have result := foreignId_of_firstFree first
    by_cases zero : foreignUser cellEntry n = 0
    · rw [if_neg (not_not_intro zero)] at result
      have halves := foreignUser_zero.mp zero
      exact ⟨by omega, fun _ _ => ok.refused result⟩
    · rw [if_pos zero] at result
      obtain ⟨-, positive, -, -⟩ := ok.given _ _ result
      exact ⟨(foreignUser_positive zero).mp positive, fun half cell => absurd (foreignUser_zero.mpr ⟨half, cell⟩) zero⟩
  intro small
  constructor
  · intro cellEntry' id given
    obtain ⟨n, first, -, rfl, some⟩ := foreignId_given given
    exact ⟨some, (foreignUser_positive some).mpr (small n first).1, first.free, foreignUser_cell cellEntry n⟩
  intro refused
  rcases foreignId_refused refused with ⟨n, first, zero⟩ | used
  · obtain ⟨half, cell⟩ := foreignUser_zero.mp zero
    exact (small n first).2 half cell
  · exact noneFree_of_used word used

end

theorem int32_word (i : Int) : int32 (int32 i) = int32 i := by
  exact Int.bmod_bmod

theorem foreignId_word {db : PrDb} {cellEntry cellEntry' : PrEntry} {aid id : Id} {idflag : Bool}
    (word : int32 cellEntry.nusers = cellEntry.nusers)
    (given : db.foreignId cellEntry aid idflag = .ok (cellEntry', id)) : int32 cellEntry'.nusers = cellEntry'.nusers := by
  cases idflag with
  | false =>
    obtain ⟨n, first, rfl, -⟩ := foreignId_given given
    rcases first.last with low | same
    · have above := first.above
      unfold firstNumber int32 at above
      unfold int32
      rw [Int.bmod_eq_of_le]
      · have bound := Int.le_bmod (x := cellEntry.nusers + 1) (m := 2 ^ 32) (by decide)
        dsimp only
        omega
      · dsimp only
        omega
    · rw [same]
      exact int32_word _
  | true =>
    unfold PrDb.foreignId at given
    rw [if_pos rfl] at given
    unfold inRange at given
    split at given
    · cases given
    rename_i group range
    cases given
    split at range
    · cases range
    cases range
    split
    · exact int32_word _
    · exact word

theorem CellRun.word {db₀ db : PrDb} {cell₀ cellEntry : PrEntry} (run : CellRun db₀ cell₀ db cellEntry)
    (word : int32 cell₀.nusers = cell₀.nusers) : int32 cellEntry.nusers = cellEntry.nusers := by
  induction run with
  | start => exact word
  | serve _ given _ _ same ih =>
    rw [same]
    exact foreignId_word ih given

/-- After any run, an allocation gives a positive id that is not in use, or refuses one because none is left, exactly if
    the number that it comes to is in the positive half. -/
theorem foreign_ids_given {db₀ db : PrDb} {cell₀ cellEntry : PrEntry} (word : int32 cell₀.nusers = cell₀.nusers)
    (run : CellRun db₀ cell₀ db cellEntry) : AllocOK db cellEntry ↔ TakesSmall db cellEntry :=
  allocOK_iff (run.word word)

def oneUser (aid : Id) : PrDb where
  header := { eofPtr := headerSize + entrySize, idHash := fun _ => headerSize }
  block _ := .entry { id := aid }

theorem oneUser_records (aid : Id) (some : aid ≠ badId ∧ aid ≠ 0) : Records aid {} (oneUser aid) := by
  constructor
  · refine ⟨headerSize, ?_, by decide⟩
    unfold PrDb.findByID
    have head : (oneUser aid).header.idHash (idHash aid) = headerSize := rfl
    rw [if_neg (by tauto), PrDb.fuel, PrDb.findFrom, head, if_neg (by decide)]
    exact if_pos (decide_eq_true rfl)
  rintro x ⟨loc, found, taken⟩
  unfold PrDb.findByID at found
  split at found
  · cases found
    exact absurd rfl taken
  · cases found
    exact absurd rfl taken

theorem lastUser_run : CellRun {} { id := -1000 } (oneUser 0x7ffffc18) { id := -1000, nusers := 0x7fff } := by
  have given : PrDb.foreignId {} { id := -1000 } 0x7ffffc18 true = .ok ({ id := -1000, nusers := 0x7fff }, 0x7ffffc18) := rfl
  exact .serve .start given (oneUser_records _ (by decide)) rfl rfl

theorem foreign_ids_given_last_user : AllocOK (oneUser 0x7ffffc18) { id := -1000, nusers := 0x7fff } ↔
      TakesSmall (oneUser 0x7ffffc18) { id := -1000, nusers := 0x7fff } :=
  foreign_ids_given (by decide) lastUser_run

/-- The next user of the cell is given the id of a group. -/
theorem user_with_group_id : ¬ ∀ (db₀ db : PrDb) (cell₀ cellEntry : PrEntry), int32 cell₀.nusers = cell₀.nusers →
    CellRun db₀ cell₀ db cellEntry → AllocOK db cellEntry := by
  intro all
  have ok := all _ _ _ _ (by decide) lastUser_run
  have first : FirstFree (oneUser 0x7ffffc18) { id := -1000, nusers := 0x7fff } 0x8000 := by
    refine ⟨by decide, by decide, by decide +kernel, ?_⟩
    intro m low high
    rw [show firstNumber { id := -1000, nusers := 0x7fff } = 0x8000 by decide] at low
    omega
  have given := foreignId_of_firstFree first
  rw [if_pos (by decide)] at given
  exact absurd (ok.given _ _ given).2.1 (by decide)

end OpenAFS.Ptserver
