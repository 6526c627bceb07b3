import OpenAFS.Lib.Census
import OpenAFS.Lwp.Lock

namespace OpenAFS.Lwp

open Lib

inductive Held where
  | read
  | write
  | shared
  | boosted
  deriving DecidableEq, Repr

/-- Where a process is. One that waits for a boost still has its shared lock. -/
inductive Phase where
  | idle
  | holding (held : Held)
  | asleep (how : How)
  | signalled (how : How)
  deriving DecidableEq, Repr

namespace Phase

def isAsleep : Phase → Bool
  | asleep _ => true
  | _ => false

def isSignalled : Phase → Bool
  | signalled _ => true
  | _ => false

def waits (phase : Phase) : Bool := phase.isAsleep || phase.isSignalled

def writes : Phase → Bool
  | holding .write | holding .boosted => true
  | _ => false

def shares : Phase → Bool
  | holding .shared | asleep .boosted | signalled .boosted => true
  | _ => false

def holds (phase : Phase) : Bool := phase = holding .read || phase.writes || phase.shares

def exclusive : Finset Phase :=
  {holding .write, holding .boosted, holding .shared, asleep .boosted, signalled .boosted}

def waitingPhases : Finset Phase :=
  {asleep .read, asleep .write, asleep .shared, asleep .boosted, signalled .read, signalled .write, signalled .shared,
    signalled .boosted}

theorem mem_exclusive (phase : Phase) : phase ∈ exclusive ↔ phase.writes ∨ phase.shares := by
  cases phase with
  | idle => decide
  | holding held => cases held <;> decide
  | asleep how => cases how <;> decide
  | signalled how => cases how <;> decide

theorem mem_waitingPhases (phase : Phase) : phase ∈ waitingPhases ↔ phase.waits := by
  cases phase with
  | idle => decide
  | holding held => cases held <;> decide
  | asleep how => cases how <;> decide
  | signalled how => cases how <;> decide

end Phase

def How.held : How → Held
  | .read => .read
  | .write => .write
  | .shared => .shared
  | .boosted => .boosted

def Phase.wake (signal : Option Event) : Phase → Phase
  | .asleep how => if signal = some how.event then .signalled how else .asleep how
  | phase => phase

section Numbers

variable (n : Phase → Nat)

def readers : Nat := n (.holding .read)

def writers : Nat := n (.holding .write) + n (.holding .boosted)

def sharers : Nat := n (.holding .shared) + n (.asleep .boosted) + n (.signalled .boosted)

def asleepExcl : Nat := n (.asleep .write) + n (.asleep .shared) + n (.asleep .boosted)

def signalled : Nat :=
  n (.signalled .read) + n (.signalled .write) + n (.signalled .shared) + n (.signalled .boosted)

def waiting : Nat := n (.asleep .read) + asleepExcl n + signalled n

theorem sum_exclusive : ∑ phase ∈ Phase.exclusive, n phase = writers n + sharers n := by
  simp [Phase.exclusive, writers, sharers]
  omega

theorem sum_waiting : ∑ phase ∈ Phase.waitingPhases, n phase = waiting n := by
  simp [Phase.waitingPhases, waiting, asleepExcl, signalled]
  omega

def waitStatesOf : BitVec 8 :=
  (if 0 < n (.asleep .read) then readLock else 0)
    ||| (if 0 < n (.asleep .write) + n (.asleep .boosted) then writeLock else 0)
    ||| (if 0 < n (.asleep .shared) then sharedLock else 0)

def exclLockedOf : BitVec 8 :=
  if 0 < writers n then writeLock else if 0 < sharers n then sharedLock else 0

def lockOf : Lock where
  waitStates := waitStatesOf n
  exclLocked := exclLockedOf n
  readersReading := BitVec.ofNat 8 (readers n)
  numWaiting := BitVec.ofNat 8 (waiting n)

structure Balanced : Prop where
  few : n .idle + readers n + writers n + n (.holding .shared) + waiting n ≤ 255
  one : writers n + sharers n ≤ 1
  alone : 0 < writers n → readers n = 0

structure Fair : Prop extends Balanced n where
  /-- While nobody has the lock and somebody sleeps, somebody has been signalled. -/
  woken : readers n + writers n + sharers n = 0 → 0 < n (.asleep .read) + asleepExcl n → 0 < signalled n

def woken (signal : Option Event) : Phase → Nat
  | .asleep how => if signal = some how.event then 0 else n (.asleep how)
  | .signalled how => n (.signalled how) + if signal = some how.event then n (.asleep how) else 0
  | phase => n phase

end Numbers

section Words

variable {n : Phase → Nat}

theorem waitStates_read : waitStatesOf n &&& readLock ≠ 0 ↔ 0 < n (.asleep .read) := by
  unfold waitStatesOf
  split_ifs with r w s s w s s <;> simp [readLock, writeLock, sharedLock, r]

theorem waitStates_excl : waitStatesOf n &&& exclLocks ≠ 0 ↔ 0 < asleepExcl n := by
  unfold waitStatesOf asleepExcl
  split_ifs with r w s s w s s <;> simp [exclLocks, readLock, writeLock, sharedLock] <;> omega

theorem waitStates_any : waitStatesOf n ≠ 0 ↔ 0 < n (.asleep .read) + asleepExcl n := by
  unfold waitStatesOf asleepExcl
  split_ifs with r w s s w s s <;> simp [readLock, writeLock, sharedLock] <;> omega

theorem waitStates_bit {how : How} (sleeper : 0 < n (.asleep how)) : waitStatesOf n &&& Lock.waitBit how ≠ 0 := by
  unfold waitStatesOf
  cases how <;> split_ifs <;> simp [Lock.waitBit, readLock, writeLock, sharedLock] <;> omega

theorem exclLocked_write : exclLockedOf n &&& writeLock ≠ 0 ↔ 0 < writers n := by
  unfold exclLockedOf
  split_ifs with w s <;> simp [writeLock, sharedLock, w]

theorem exclLocked_any : exclLockedOf n ≠ 0 ↔ 0 < writers n + sharers n := by
  unfold exclLockedOf
  split_ifs with w s <;> simp [writeLock, sharedLock] <;> omega

theorem readersReading_any (fair : Balanced n) : BitVec.ofNat 8 (readers n) ≠ 0 ↔ 0 < readers n := by
  have few := fair.few
  rw [ne_eq, ← BitVec.toNat_inj]
  simp only [BitVec.toNat_ofNat, BitVec.ofNat_eq_ofNat]
  omega

def Blocked (n : Phase → Nat) : How → Prop
  | .read => 0 < writers n
  | .write => 0 < writers n + sharers n + readers n
  | .shared => 0 < writers n + sharers n
  | .boosted => 0 < readers n

theorem mustWait_lockOf (fair : Fair n) (how : How) : (lockOf n).mustWait how = true ↔ Blocked n how := by
  have write := exclLocked_write (n := n)
  have excl := exclLocked_any (n := n)
  have read := readersReading_any fair.toBalanced
  cases how <;> (simp only [Lock.mustWait, Blocked, lockOf, write, excl, read, decide_eq_true_eq]; try omega)

def Refused (n : Phase → Nat) : How → Prop
  | .read => 0 < writers n + (n (.asleep .read) + asleepExcl n)
  | .write => 0 < writers n + sharers n + readers n
  | .shared => 0 < writers n + sharers n + (n (.asleep .read) + asleepExcl n)
  | .boosted => 0 < readers n

theorem free_lockOf (fair : Fair n) (how : How) : (lockOf n).free how = true ↔ ¬ Refused n how := by
  have write := exclLocked_write (n := n)
  have excl := exclLocked_any (n := n)
  have wait := waitStates_any (n := n)
  have read := readersReading_any fair.toBalanced
  cases how <;>
    simp only [Lock.free, Refused, lockOf, write, excl, wait, read, decide_eq_true_eq] <;>
    omega

theorem waitStatesOf_congr {m : Phase → Nat} (read : 0 < n (.asleep .read) ↔ 0 < m (.asleep .read))
    (write : 0 < n (.asleep .write) + n (.asleep .boosted) ↔ 0 < m (.asleep .write) + m (.asleep .boosted))
    (shared : 0 < n (.asleep .shared) ↔ 0 < m (.asleep .shared)) : waitStatesOf n = waitStatesOf m := by
  simp only [waitStatesOf, read, write, shared]

theorem exclLockedOf_congr {m : Phase → Nat} (write : 0 < writers n ↔ 0 < writers m)
    (shared : writers n = 0 → (0 < sharers n ↔ 0 < sharers m)) : exclLockedOf n = exclLockedOf m := by
  unfold exclLockedOf
  by_cases somebody : 0 < writers n
  · rw [if_pos somebody, if_pos (write.mp somebody)]
  · rw [if_neg somebody, if_neg (fun h => somebody (write.mpr h))]
    simp only [shared (by omega)]

theorem exclLockedOf_writer (somebody : 0 < writers n) : exclLockedOf n = writeLock := if_pos somebody

theorem exclLockedOf_sharer (unwritten : writers n = 0) (somebody : 0 < sharers n) : exclLockedOf n = sharedLock := by
  rw [exclLockedOf, if_neg (by omega), if_pos somebody]

theorem exclLockedOf_nobody (unwritten : writers n = 0) (unshared : sharers n = 0) : exclLockedOf n = 0 := by
  rw [exclLockedOf, if_neg (by omega), if_neg (by omega)]

end Words

section Moves

variable {n : Phase → Nat}

def How.origin : How → Phase
  | .read | .write | .shared => .idle
  | .boosted => .holding .shared

variable {a : Phase} {how : How}

theorem waitStates_sleep (awake : ∀ how, a ≠ .asleep how) :
    waitStatesOf n ||| Lock.waitBit how = waitStatesOf (move a (.asleep how) n) := by
  unfold waitStatesOf
  simp only [move, (awake _).symm, if_false]
  cases how <;> simp [Lock.waitBit] <;> split_ifs <;> rfl

theorem afsLockObtain_lockOf (here : 0 < n how.origin) :
    (lockOf n).afsLockObtain how = lockOf (move how.origin (.asleep how) n) := by
  have awake : ∀ other, how.origin ≠ .asleep other := by
    intro other
    cases how <;> simp [How.origin]
  have more : waiting (move how.origin (.asleep how) n) = waiting n + 1 := by
    cases how <;> simp [How.origin, waiting, asleepExcl, signalled, move] <;> omega
  have excl : exclLockedOf (move how.origin (.asleep how) n) = exclLockedOf n := by
    apply exclLockedOf_congr
    · cases how <;> simp [How.origin, writers, move]
    · intro none
      cases how <;> simp_all [How.origin, sharers, move]
  have read : readers (move how.origin (.asleep how) n) = readers n := by
    cases how <;> simp [How.origin, readers, move]
  simp only [Lock.afsLockObtain, lockOf, waitStates_sleep awake, more, excl, read, BitVec.ofNat_add]
  rfl

theorem resleep_lockOf (here : 0 < n (.signalled how)) :
    { lockOf n with waitStates := (lockOf n).waitStates ||| Lock.waitBit how }
      = lockOf (move (.signalled how) (.asleep how) n) := by
  have awake : ∀ other, Phase.signalled how ≠ .asleep other := by simp
  have same : waiting (move (.signalled how) (.asleep how) n) = waiting n := by
    cases how <;> simp [waiting, asleepExcl, signalled, move] <;> omega
  have excl : exclLockedOf (move (.signalled how) (.asleep how) n) = exclLockedOf n := by
    apply exclLockedOf_congr
    · cases how <;> simp [writers, move]
    · intro none
      cases how <;> simp_all [sharers, move]
  have read : readers (move (.signalled how) (.asleep how) n) = readers n := by
    cases how <;> simp [readers, move]
  simp only [lockOf, waitStates_sleep awake, same, excl, read]

theorem exclLocked_take (source : a = how.origin ∨ a = .signalled how) (here : 0 < n a)
    (fair : Fair n) (unblocked : ¬ Blocked n how) :
    ((lockOf n).take how).exclLocked = exclLockedOf (move a (.holding how.held) n) := by
  have one := fair.one
  unfold lockOf Lock.take exclLockedOf
  rcases source with rfl | rfl <;> cases how <;>
    simp_all [How.origin, How.held, Blocked, writers, sharers, move]

theorem readers_take (source : a = how.origin ∨ a = .signalled how) :
    BitVec.ofNat 8 (readers (move a (.holding how.held) n)) = ((lockOf n).take how).readersReading := by
  rcases source with rfl | rfl <;> cases how <;>
    simp [How.origin, How.held, readers, move, lockOf, Lock.take, BitVec.ofNat_add]

theorem waitStates_take (source : a = how.origin ∨ a = .signalled how) :
    waitStatesOf (move a (.holding how.held) n) = waitStatesOf n := by
  apply waitStatesOf_congr <;>
    rcases source with rfl | rfl <;> cases how <;> simp [How.origin, move]

theorem take_lockOf (here : 0 < n how.origin) (fair : Fair n) (unblocked : ¬ Blocked n how) :
    (lockOf n).take how = lockOf (move how.origin (.holding how.held) n) := by
  have same : waiting (move how.origin (.holding how.held) n) = waiting n := by
    cases how <;> simp [How.origin, waiting, asleepExcl, signalled, move]
  have excl := exclLocked_take (.inl rfl) here fair unblocked
  unfold lockOf at excl ⊢
  rw [same, waitStates_take (.inl rfl), readers_take (.inl rfl), ← excl]
  cases how <;> rfl

theorem woken_lockOf (here : 0 < n (.signalled how)) (fair : Fair n) (unblocked : ¬ Blocked n how) :
    { lockOf n with numWaiting := (lockOf n).numWaiting - 1 }.take how
      = lockOf (move (.signalled how) (.holding how.held) n) := by
  have less : waiting n = waiting (move (.signalled how) (.holding how.held) n) + 1 := by
    cases how <;> simp [waiting, asleepExcl, signalled, move] <;> omega
  have number : BitVec.ofNat 8 (waiting n) - 1
      = BitVec.ofNat 8 (waiting (move (.signalled how) (.holding how.held) n)) := by
    rw [less, BitVec.ofNat_add]
    exact BitVec.add_sub_cancel _ _
  have excl := exclLocked_take (.inr rfl) here fair unblocked
  unfold lockOf at excl ⊢
  rw [← number, waitStates_take (.inr rfl), readers_take (.inr rfl), ← excl]
  cases how <;> rfl

theorem fair_take (source : a = how.origin ∨ a = .signalled how) (here : 0 < n a)
    (fair : Fair n) (unblocked : ¬ Blocked n how) : Fair (move a (.holding how.held) n) := by
  have few := fair.few
  have one := fair.one
  have alone := fair.alone
  have woken := fair.woken
  simp only [readers, writers, sharers, waiting, asleepExcl, signalled] at few one alone woken
  rcases source with rfl | rfl <;> cases how <;>
    simp only [Blocked, readers, writers, sharers] at unblocked <;>
    refine ⟨⟨?_, ?_, ?_⟩, ?_⟩ <;>
    simp [How.origin, How.held, readers, writers, sharers, waiting, asleepExcl, signalled, move] at here ⊢ <;>
    omega

theorem fair_sleep (fair : Fair n) (here : 0 < n a)
    (source : a = how.origin ∧ Refused n how ∨ a = .signalled how ∧ Blocked n how) :
    Fair (move a (.asleep how) n) := by
  have few := fair.few
  have one := fair.one
  have alone := fair.alone
  have woken := fair.woken
  simp only [readers, writers, sharers, waiting, asleepExcl, signalled] at few one alone woken
  rcases source with ⟨rfl, blocked⟩ | ⟨rfl, blocked⟩ <;> cases how <;>
    simp only [Blocked, Refused, readers, writers, sharers, asleepExcl] at blocked <;>
    refine ⟨⟨?_, ?_, ?_⟩, ?_⟩ <;>
    simp [How.origin, readers, writers, sharers, waiting, asleepExcl, signalled, move] at here ⊢ <;>
    omega

end Moves

section Signals

variable {n : Phase → Nat} {signal : Option Event}

theorem readers_woken : readers (woken n signal) = readers n := rfl

theorem writers_woken : writers (woken n signal) = writers n := rfl

theorem sharers_woken : sharers (woken n signal) = sharers n := by
  simp only [sharers, woken]
  split <;> omega

theorem waiting_woken : waiting (woken n signal) = waiting n := by
  simp only [waiting, asleepExcl, signalled, woken]
  split_ifs <;> omega

theorem woken_none : woken n none = n := by
  funext phase
  cases phase <;> simp [woken]

theorem lockOf_woken : lockOf (woken n signal) = { lockOf n with waitStates := waitStatesOf (woken n signal) } := by
  simp only [lockOf, exclLockedOf, readers_woken, writers_woken, sharers_woken, waiting_woken]

theorem balanced_woken (balanced : Balanced n) : Balanced (woken n signal) where
  few := by
    rw [readers_woken, writers_woken, waiting_woken]
    exact balanced.few
  one := by
    rw [writers_woken, sharers_woken]
    exact balanced.one
  alone := balanced.alone

theorem clear_read : waitStatesOf n &&& ~~~readLock = waitStatesOf (woken n (some .readersReading)) := by
  unfold waitStatesOf
  simp only [woken, How.event, if_true, Nat.lt_irrefl, if_false, reduceCtorEq, Option.some.injEq]
  split_ifs <;> rfl

theorem clear_excl : waitStatesOf n &&& ~~~exclLocks = waitStatesOf (woken n (some .exclLocked)) := by
  unfold waitStatesOf
  simp only [woken, How.event, if_true, Nat.lt_irrefl, if_false, reduceCtorEq, Option.some.injEq]
  split_ifs <;> rfl

theorem tally_wake {P : Type} [Fintype P] (f : P → Phase) : tally (fun p => (f p).wake signal) = woken (tally f) signal := by
  ext x
  cases x with
  | idle =>
    rw [tally_comp f {.idle}]
    · rw [Finset.sum_singleton]
      rfl
    · intro phase
      cases phase <;> simp [Phase.wake]
      split <;> simp
  | holding held =>
    rw [tally_comp f {.holding held}]
    · rw [Finset.sum_singleton]
      rfl
    · intro phase
      cases phase <;> simp [Phase.wake]
      split <;> simp
  | asleep how =>
    by_cases reached : signal = some how.event
    · rw [tally_comp f ∅]
      · simp [woken, reached]
      intro phase
      cases phase <;> simp [Phase.wake]
      split
      · simp
      · intro same
        cases same
        contradiction
    rw [tally_comp f {.asleep how}]
    · simp [woken, reached]
    intro phase
    cases phase <;> simp [Phase.wake]
    rename_i other
    constructor
    · split <;> simp
    · rintro rfl
      rw [if_neg reached]
  | signalled how =>
    by_cases reached : signal = some how.event
    · rw [tally_comp f {.signalled how, .asleep how}]
      · simp [woken, reached]
      intro phase
      cases phase <;> simp [Phase.wake]
      rename_i other
      constructor
      · split <;> simp
      · rintro rfl
        rw [if_pos reached]
    rw [tally_comp f {.signalled how}]
    · simp [woken, reached]
    intro phase
    cases phase <;> simp [Phase.wake]
    split
    · intro same
      cases same
      contradiction
    · simp

structure Settles (n : Phase → Nat) (result : Lock × Option Event) : Prop where
  lock : result.1 = lockOf (woken n result.2)
  fair : Fair (woken n result.2)

theorem releaseR_settles (balanced : Balanced n) (sleepers : 0 < n (.asleep .read) + asleepExcl n) :
    Settles n (lockOf n).afsLockReleaseR := by
  unfold Lock.afsLockReleaseR
  by_cases read : (lockOf n).waitStates &&& readLock ≠ 0
  · have somebody := waitStates_read.mp read
    rw [if_pos read]
    constructor
    · simp only [lockOf_woken, ← clear_read]
      rfl
    refine ⟨balanced_woken balanced, ?_⟩
    intro _ _
    simp only [signalled, woken, How.event, if_true]
    omega
  have sleepless : ¬ 0 < n (.asleep .read) := fun h => read (waitStates_read.mpr h)
  rw [if_neg read]
  constructor
  · simp only [lockOf_woken, ← clear_excl]
    rfl
  refine ⟨balanced_woken balanced, ?_⟩
  intro _ _
  simp only [asleepExcl] at sleepers
  simp only [signalled, woken, How.event, if_true]
  omega

theorem releaseW_settles (balanced : Balanced n) (sleepers : 0 < n (.asleep .read) + asleepExcl n) :
    Settles n (lockOf n).afsLockReleaseW := by
  unfold Lock.afsLockReleaseW
  by_cases excl : (lockOf n).waitStates &&& exclLocks ≠ 0
  · have somebody := waitStates_excl.mp excl
    rw [if_pos excl]
    constructor
    · simp only [lockOf_woken, ← clear_excl]
      rfl
    refine ⟨balanced_woken balanced, ?_⟩
    intro _ _
    simp only [asleepExcl] at somebody
    simp only [signalled, woken, How.event, if_true]
    omega
  · have sleepless : ¬ 0 < asleepExcl n := fun h => excl (waitStates_excl.mpr h)
    rw [if_neg excl]
    constructor
    · simp only [lockOf_woken, ← clear_read]
      rfl
    refine ⟨balanced_woken balanced, ?_⟩
    intro _ _
    simp only [signalled, woken, How.event, if_true]
    omega

theorem unsignalled_settles (fair : Fair n) : Settles n (lockOf n, none) := by
  constructor
  · rw [woken_none]
  · rwa [woken_none]

theorem preferReaders_settles (balanced : Balanced n) :
    Settles n (if (lockOf n).waitStates ≠ 0 then (lockOf n).afsLockReleaseR else (lockOf n, none)) := by
  by_cases any : (lockOf n).waitStates ≠ 0
  · rw [if_pos any]
    exact releaseR_settles balanced (waitStates_any.mp any)
  · rw [if_neg any]
    have nobody : ¬ 0 < n (.asleep .read) + asleepExcl n := fun h => any (waitStates_any.mpr h)
    exact unsignalled_settles ⟨balanced, fun _ somebody => absurd somebody nobody⟩

end Signals

section Releases

variable {n : Phase → Nat}

theorem balanced_release {a now : Phase} (fair : Fair n) (here : 0 < n a) (kinds : (a = .holding .read ∧ now = .idle) ∨
      (a = .holding .write ∨ a = .holding .boosted) ∧ (now = .idle ∨ now = .holding .shared ∨ now = .holding .read) ∨
      a = .holding .shared ∧ now = .idle) :
    Balanced (move a now n) := by
  have few := fair.few
  have one := fair.one
  have alone := fair.alone
  simp only [readers, writers, sharers, waiting, asleepExcl, signalled] at few one alone
  rcases kinds with ⟨rfl, rfl⟩ | ⟨rfl | rfl, rfl | rfl | rfl⟩ | ⟨rfl, rfl⟩ <;>
    refine ⟨?_, ?_, ?_⟩ <;>
    simp [readers, writers, sharers, waiting, asleepExcl, signalled, move] at here ⊢ <;>
    omega

theorem releaseRead_settles (fair : Fair n) (here : 0 < n (.holding .read)) :
    Settles (move (.holding .read) .idle n) (lockOf n).releaseReadLock := by
  have balanced : Balanced (move (.holding .read) .idle n) := balanced_release fair here (.inl ⟨rfl, rfl⟩)
  have less : readers n = readers (move (.holding .read) .idle n) + 1 := by
    simp [readers, move]
    omega
  have number : BitVec.ofNat 8 (readers n) - 1 = BitVec.ofNat 8 (readers (move (.holding .read) .idle n)) := by
    rw [less, BitVec.ofNat_add]
    exact BitVec.add_sub_cancel _ _
  have lock : { lockOf n with readersReading := (lockOf n).readersReading - 1 }
      = lockOf (move (.holding .read) .idle n) := by
    simp only [lockOf, number]
    congr 1
  show Settles _ (if _ then _ else _)
  rw [lock]
  have left := readersReading_any balanced
  have any := waitStates_any (n := move (.holding .read) .idle n)
  split_ifs with last
  · exact releaseW_settles balanced (any.mp last.2)
  apply unsignalled_settles ⟨balanced, _⟩
  intro nobody sleeper
  have gone : readers (move (.holding .read) .idle n) = 0 := by omega
  exact absurd ⟨by simp [lockOf, gone], any.mpr sleeper⟩ last

variable {held : Held}

theorem exclRelease_lockOf {now : Phase} (kind : held ≠ .read ∧ (now = .idle ∨ now = .holding .shared)) :
    { lockOf n with exclLocked := exclLockedOf (move (.holding held) now n) } = lockOf (move (.holding held) now n) := by
  have read : readers (move (.holding held) now n) = readers n := by
    rcases kind with ⟨excl, rfl | rfl⟩ <;> cases held <;> simp_all [readers, move]
  have wait : waiting (move (.holding held) now n) = waiting n := by
    rcases kind with ⟨excl, rfl | rfl⟩ <;> simp [waiting, asleepExcl, signalled, move]
  have states : waitStatesOf (move (.holding held) now n) = waitStatesOf n := by
    apply waitStatesOf_congr <;> rcases kind with ⟨excl, rfl | rfl⟩ <;> simp [move]
  simp only [lockOf, read, wait, states]

theorem releaseWrite_settles (fair : Fair n) (here : 0 < n (.holding .write)) :
    Settles (move (.holding .write) .idle n) (lockOf n).releaseWriteLock := by
  have one := fair.one
  have excl : (lockOf n).exclLocked &&& ~~~writeLock = exclLockedOf (move (.holding .write) .idle n) := by
    simp only [writers, sharers] at one
    show exclLockedOf n &&& _ = _
    rw [exclLockedOf_writer (by simp only [writers]; omega), exclLockedOf_nobody]
    · rfl
    · simp [writers, move]
      omega
    · simp [sharers, move]
      omega
  show Settles _ (if _ then _ else _)
  rw [excl, exclRelease_lockOf ⟨by decide, .inl rfl⟩]
  exact preferReaders_settles (balanced_release fair here (.inr (.inl ⟨.inl rfl, .inl rfl⟩)))

theorem releaseShared_settles (fair : Fair n) (here : 0 < n (.holding held)) (kind : held = .shared ∨ held = .boosted) :
    Settles (move (.holding held) .idle n) (lockOf n).releaseSharedLock := by
  have one := fair.one
  have excl : (lockOf n).exclLocked &&& ~~~(sharedLock ||| writeLock) = exclLockedOf (move (.holding held) .idle n) := by
    simp only [writers, sharers] at one
    have gone : exclLockedOf (move (.holding held) .idle n) = 0 := by
      rcases kind with rfl | rfl
      all_goals
        apply exclLockedOf_nobody
        · simp [writers, move]
          omega
        · simp [sharers, move]
          omega
    rw [gone]
    show exclLockedOf n &&& _ = _
    rcases kind with rfl | rfl
    · rw [exclLockedOf_sharer (by simp only [writers]; omega) (by simp only [sharers]; omega)]
      rfl
    · rw [exclLockedOf_writer (by simp only [writers]; omega)]
      rfl
  show Settles _ (if _ then _ else _)
  rw [excl, exclRelease_lockOf ⟨by rcases kind with rfl | rfl <;> decide, .inl rfl⟩]
  apply preferReaders_settles (balanced_release fair here _)
  rcases kind with rfl | rfl
  · exact .inr (.inr ⟨rfl, rfl⟩)
  · exact .inr (.inl ⟨.inr rfl, .inl rfl⟩)

theorem unboost_settles (fair : Fair n) (here : 0 < n (.holding held)) (kind : held = .write ∨ held = .boosted) :
    Settles (move (.holding held) (.holding .shared) n) (lockOf n).unboostSharedLock := by
  have one := fair.one
  have excl : sharedLock = exclLockedOf (move (.holding held) (.holding .shared) n) := by
    simp only [writers, sharers] at one
    symm
    rcases kind with rfl | rfl
    all_goals
      apply exclLockedOf_sharer
      · simp [writers, move]
        omega
      · simp [sharers, move]
  show Settles _ (if _ then _ else _)
  rw [excl, exclRelease_lockOf ⟨by rcases kind with rfl | rfl <;> decide, .inr rfl⟩]
  apply preferReaders_settles (balanced_release fair here _)
  rcases kind with rfl | rfl
  · exact .inr (.inl ⟨.inl rfl, .inr (.inl rfl)⟩)
  · exact .inr (.inl ⟨.inr rfl, .inr (.inl rfl)⟩)

theorem convert_settles (fair : Fair n) (here : 0 < n (.holding .write)) :
    Settles (move (.holding .write) (.holding .read) n) (lockOf n).convertWriteToReadLock := by
  have balanced : Balanced (move (.holding .write) (.holding .read) n) :=
    balanced_release fair here (.inr (.inl ⟨.inl rfl, .inr (.inr rfl)⟩))
  have one := fair.one
  have excl : exclLockedOf n &&& ~~~writeLock = exclLockedOf (move (.holding .write) (.holding .read) n) := by
    simp only [writers, sharers] at one
    rw [exclLockedOf_writer (by simp only [writers]; omega), exclLockedOf_nobody]
    · rfl
    · simp [writers, move]
      omega
    · simp [sharers, move]
      omega
  have more : readers (move (.holding .write) (.holding .read) n) = readers n + 1 := by
    simp [readers, move]
  have wait : waiting (move (.holding .write) (.holding .read) n) = waiting n := by
    simp [waiting, asleepExcl, signalled, move]
  have states : waitStatesOf (move (.holding .write) (.holding .read) n) = waitStatesOf n := by
    apply waitStatesOf_congr <;> simp [move]
  have lock : { lockOf n with exclLocked := (lockOf n).exclLocked &&& ~~~writeLock
                              readersReading := (lockOf n).readersReading + 1 }
      = lockOf (move (.holding .write) (.holding .read) n) := by
    simp only [lockOf, excl, more, wait, states, BitVec.ofNat_add]
    rfl
  show Settles _ (if _ then _ else _)
  rw [lock]
  -- The process that converts stays a holder, so nobody has to be signalled.
  have fair' : ∀ signal, Fair (woken (move (.holding .write) (.holding .read) n) signal) := by
    intro signal
    refine ⟨balanced_woken balanced, ?_⟩
    intro nobody
    rw [readers_woken, more] at nobody
    omega
  split_ifs with read
  · unfold Lock.afsLockWakeupR
    rw [if_pos read]
    constructor
    · simp only [lockOf_woken, ← clear_read]
      rfl
    · exact fair' _
  · exact ⟨by rw [woken_none], fair' _⟩

end Releases

end OpenAFS.Lwp
