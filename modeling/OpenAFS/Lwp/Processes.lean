import OpenAFS.Lib.Machine
import OpenAFS.Lwp.Census

namespace OpenAFS.Lwp

open Lib

inductive Operation where
  | obtainReadLock
  | obtainReadLockNoBlock
  | obtainWriteLock
  | obtainWriteLockNoBlock
  | obtainSharedLock
  | obtainSharedLockNoBlock
  | boostSharedLock
  | unboostSharedLock
  | releaseReadLock
  | releaseWriteLock
  | releaseSharedLock
  | convertWriteToReadLock
  | run
  deriving DecidableEq, Repr

structure Processes (P : Type) where
  lock : Lock
  phase : P → Phase

namespace Processes

variable {P : Type} [DecidableEq P]

def asked (s : Processes P) (p : P) (how : How) : Lock.Outcome → Processes P
  | .got l => ⟨l, Function.update s.phase p (.holding how.held)⟩
  | .asleep l => ⟨l, Function.update s.phase p (.asleep how)⟩

def tried (s : Processes P) (p : P) (how : How) : Option Lock → Processes P
  | some l => ⟨l, Function.update s.phase p (.holding how.held)⟩
  | none => s

def released (s : Processes P) (p : P) (now : Phase) (result : Lock × Option Event) : Processes P :=
  ⟨result.1, fun q => (Function.update s.phase p now q).wake result.2⟩

/-- One operation, if the process may call it: it obtains only what it has not, and gives back what it has. -/
def step (s : Processes P) : P × Operation → Option (Processes P)
  | (p, operation) => match operation, s.phase p with
    | .obtainReadLock, .idle => some (s.asked p .read s.lock.obtainReadLock)
    | .obtainReadLockNoBlock, .idle => some (s.tried p .read s.lock.obtainReadLockNoBlock)
    | .obtainWriteLock, .idle => some (s.asked p .write s.lock.obtainWriteLock)
    | .obtainWriteLockNoBlock, .idle => some (s.tried p .write s.lock.obtainWriteLockNoBlock)
    | .obtainSharedLock, .idle => some (s.asked p .shared s.lock.obtainSharedLock)
    | .obtainSharedLockNoBlock, .idle => some (s.tried p .shared s.lock.obtainSharedLockNoBlock)
    | .boostSharedLock, .holding .shared => some (s.asked p .boosted s.lock.boostSharedLock)
    | .unboostSharedLock, .holding .boosted => some (s.released p (.holding .shared) s.lock.unboostSharedLock)
    | .unboostSharedLock, .holding .write => some (s.released p (.holding .shared) s.lock.unboostSharedLock)
    | .releaseReadLock, .holding .read => some (s.released p .idle s.lock.releaseReadLock)
    | .releaseWriteLock, .holding .write => some (s.released p .idle s.lock.releaseWriteLock)
    | .releaseSharedLock, .holding .shared => some (s.released p .idle s.lock.releaseSharedLock)
    | .releaseSharedLock, .holding .boosted => some (s.released p .idle s.lock.releaseSharedLock)
    | .convertWriteToReadLock, .holding .write => some (s.released p (.holding .read) s.lock.convertWriteToReadLock)
    | .run, .signalled how => some (s.asked p how (s.lock.afsLockWoken how))
    | _, _ => none

end Processes

def processes (P : Type) [DecidableEq P] : Machine (Processes P) (P × Operation) where
  start s := s = ⟨Lock.init, fun _ => .idle⟩
  step := Processes.step

namespace Processes

section Consistent

variable {P : Type} [Fintype P]

structure Consistent (s : Processes P) : Prop where
  lock : s.lock = lockOf (tally s.phase)
  fair : Fair (tally s.phase)

variable {s : Processes P}

theorem Consistent.exclusive (h : s.Consistent) {p q : P} (here : (s.phase p).writes ∨ (s.phase p).shares)
    (there : (s.phase q).writes ∨ (s.phase q).shares) : p = q := by
  have one := h.fair.one
  rw [← sum_exclusive] at one
  exact eq_of_tally one ((Phase.mem_exclusive _).mpr here) ((Phase.mem_exclusive _).mpr there)

theorem Consistent.unread (h : s.Consistent) {p : P} (here : (s.phase p).writes) (q : P) : s.phase q ≠ .holding .read := by
  intro reads
  have writer : 0 < writers (tally s.phase) := by
    have counted := tally_self s.phase p
    unfold writers
    generalize s.phase p = phase at here counted
    cases phase with
    | holding held =>
      cases held with
      | write => omega
      | boosted => omega
      | read => cases here
      | shared => cases here
    | idle => cases here
    | asleep how => cases here
    | signalled how => cases here
  have reader : 0 < readers (tally s.phase) := tally_pos.mpr ⟨q, reads⟩
  have alone := h.fair.alone writer
  omega

theorem Consistent.waiting_card (h : s.Consistent) :
    s.lock.numWaiting.toNat = (Finset.univ.filter fun p => (s.phase p).waits).card := by
  have few := h.fair.few
  simp only [← Phase.mem_waitingPhases, card_mem, sum_waiting]
  rw [h.lock]
  show (BitVec.ofNat 8 _).toNat = _
  rw [BitVec.toNat_ofNat]
  omega

theorem Consistent.readers_card (h : s.Consistent) :
    s.lock.readersReading.toNat = (Finset.univ.filter fun p => s.phase p = .holding .read).card := by
  have few := h.fair.few
  rw [h.lock]
  show (BitVec.ofNat 8 (tally s.phase (.holding .read))).toNat = tally s.phase (.holding .read)
  unfold readers at few
  rw [BitVec.toNat_ofNat]
  omega

theorem Consistent.somebody_signalled (h : s.Consistent) (nobody : ∀ p, ¬ (s.phase p).holds) {p : P}
    (sleeps : (s.phase p).isAsleep) : ∃ q, (s.phase q).isSignalled := by
  have absent : ∀ phase : Phase, phase.holds → tally s.phase phase = 0 := by
    intro phase holds
    by_contra somebody
    rcases tally_pos.mp (Nat.pos_of_ne_zero somebody) with ⟨q, here⟩
    exact nobody q (here ▸ holds)
  have free : readers (tally s.phase) + writers (tally s.phase) + sharers (tally s.phase) = 0 := by
    unfold readers writers sharers
    rw [absent _ rfl, absent _ rfl, absent _ rfl, absent _ rfl, absent _ rfl, absent _ rfl]
  have counted : 0 < tally s.phase (.asleep .read) + asleepExcl (tally s.phase) := by
    have one := tally_self s.phase p
    unfold asleepExcl
    generalize s.phase p = phase at sleeps one
    cases phase with
    | asleep how => cases how <;> omega
    | idle => cases sleeps
    | holding held => cases sleeps
    | signalled how => cases sleeps
  have woken := h.fair.woken free counted
  have reached : ∀ how, 0 < tally s.phase (.signalled how) → ∃ q, (s.phase q).isSignalled := by
    intro how somebody
    rcases tally_pos.mp somebody with ⟨q, here⟩
    exact ⟨q, here ▸ rfl⟩
  unfold signalled at woken
  by_contra nowhere
  have missing : ∀ how, tally s.phase (.signalled how) = 0 := by
    intro how
    by_contra somebody
    exact nowhere (reached how (Nat.pos_of_ne_zero somebody))
  simp [missing] at woken

end Consistent

section Steps

variable {P : Type} [DecidableEq P] [Fintype P] {s : Processes P} {p : P} {how : How}

theorem Blocked.refused {n : Phase → Nat} (blocked : Blocked n how) : Refused n how := by
  cases how <;> simp only [Blocked, Refused] at blocked ⊢ <;> omega

theorem consistent_got (h : s.Consistent) {a : Phase} (here : s.phase p = a)
    (source : a = how.origin ∨ a = .signalled how) (unblocked : ¬ Blocked (tally s.phase) how) {l : Lock}
    (lock : l = lockOf (move a (.holding how.held) (tally s.phase))) : (s.asked p how (.got l)).Consistent := by
  subst here
  constructor
  · rw [asked, lock, tally_update]
  · rw [asked, tally_update]
    exact fair_take source (tally_self s.phase p) h.fair unblocked

theorem consistent_asleep (h : s.Consistent) {a : Phase} (here : s.phase p = a)
    (source : a = how.origin ∧ Refused (tally s.phase) how ∨ a = .signalled how ∧ Blocked (tally s.phase) how) {l : Lock}
    (lock : l = lockOf (move a (.asleep how) (tally s.phase))) : (s.asked p how (.asleep l)).Consistent := by
  subst here
  constructor
  · rw [asked, lock, tally_update]
  · rw [asked, tally_update]
    exact fair_sleep h.fair (tally_self s.phase p) source

theorem consistent_obtain (h : s.Consistent) (here : s.phase p = how.origin) :
    (s.asked p how (s.lock.obtain how)).Consistent := by
  have counted : 0 < tally s.phase how.origin := tally_pos.mpr ⟨p, here⟩
  have free := free_lockOf h.fair how
  rw [Lock.obtain, h.lock]
  split
  · rename_i open_
    have unblocked : ¬ Blocked (tally s.phase) how := fun blocked => free.mp open_ (Blocked.refused blocked)
    exact consistent_got h here (.inl rfl) unblocked (take_lockOf counted h.fair unblocked)
  rename_i shut
  have refused : Refused (tally s.phase) how := by
    by_contra allowed
    exact shut (free.mpr allowed)
  exact consistent_asleep h here (.inl ⟨rfl, refused⟩) (afsLockObtain_lockOf counted)

theorem consistent_obtainNoBlock (h : s.Consistent) (here : s.phase p = how.origin) :
    (s.tried p how (s.lock.obtainNoBlock how)).Consistent := by
  have obtained := consistent_obtain h here
  rw [Lock.obtain] at obtained
  rw [Lock.obtainNoBlock]
  split
  · rename_i open_
    rwa [if_pos open_] at obtained
  · exact h

theorem consistent_run (h : s.Consistent) (here : s.phase p = .signalled how) :
    (s.asked p how (s.lock.afsLockWoken how)).Consistent := by
  have counted : 0 < tally s.phase (.signalled how) := tally_pos.mpr ⟨p, here⟩
  have must := mustWait_lockOf h.fair how
  rw [Lock.afsLockWoken, h.lock]
  split
  · rename_i again
    exact consistent_asleep h here (.inr ⟨rfl, must.mp again⟩) (resleep_lockOf counted)
  · rename_i done
    have unblocked : ¬ Blocked (tally s.phase) how := fun blocked => done (must.mpr blocked)
    exact consistent_got h here (.inr rfl) unblocked (woken_lockOf counted h.fair unblocked)

theorem consistent_released {a now : Phase} {result : Lock × Option Event} (here : s.phase p = a)
    (settles : Settles (move a now (tally s.phase)) result) : (s.released p now result).Consistent := by
  subst here
  constructor
  · rw [released, tally_wake, tally_update]
    exact settles.lock
  · rw [released, tally_wake, tally_update]
    exact settles.fair

theorem consistent_step {s' : Processes P} {a : P × Operation} (h : s.Consistent) (taken : s.step a = some s') :
    s'.Consistent := by
  obtain ⟨p, operation⟩ := a
  have lock := h.lock
  have held : ∀ {phase : Phase}, s.phase p = phase → 0 < tally s.phase phase := by
    intro phase here
    exact tally_pos.mpr ⟨p, here⟩
  simp only [step] at taken
  split at taken
  case h_1 here => cases taken; exact consistent_obtain h here
  case h_2 here => cases taken; exact consistent_obtainNoBlock h here
  case h_3 here => cases taken; exact consistent_obtain h here
  case h_4 here => cases taken; exact consistent_obtainNoBlock h here
  case h_5 here => cases taken; exact consistent_obtain h here
  case h_6 here => cases taken; exact consistent_obtainNoBlock h here
  case h_7 here => cases taken; exact consistent_obtain h here
  case h_8 here =>
    cases taken
    apply consistent_released here
    rw [lock]
    exact unboost_settles h.fair (held here) (.inr rfl)
  case h_9 here =>
    cases taken
    apply consistent_released here
    rw [lock]
    exact unboost_settles h.fair (held here) (.inl rfl)
  case h_10 here =>
    cases taken
    apply consistent_released here
    rw [lock]
    exact releaseRead_settles h.fair (held here)
  case h_11 here =>
    cases taken
    apply consistent_released here
    rw [lock]
    exact releaseWrite_settles h.fair (held here)
  case h_12 here =>
    cases taken
    apply consistent_released here
    rw [lock]
    exact releaseShared_settles h.fair (held here) (.inl rfl)
  case h_13 here =>
    cases taken
    apply consistent_released here
    rw [lock]
    exact releaseShared_settles h.fair (held here) (.inr rfl)
  case h_14 here =>
    cases taken
    apply consistent_released here
    rw [lock]
    exact convert_settles h.fair (held here)
  case h_15 here => cases taken; exact consistent_run h here
  case h_16 => cases taken

omit [DecidableEq P] in
theorem consistent_start (few : Fintype.card P ≤ 255) : Consistent (⟨Lock.init, fun _ => .idle⟩ : Processes P) := by
  have numbers : ∀ phase : Phase, phase ≠ .idle → tally (fun _ : P => Phase.idle) phase = 0 := by
    intro phase other
    rw [tally_const, if_neg (Ne.symm other)]
  constructor
  · simp [lockOf, waitStatesOf, exclLockedOf, writers, sharers, readers, waiting, asleepExcl, signalled, numbers]
    rfl
  · refine ⟨⟨?_, ?_, ?_⟩, ?_⟩ <;>
      simp [writers, sharers, readers, waiting, asleepExcl, signalled, numbers, tally_const, few]

theorem consistent_reach (few : Fintype.card P ≤ 255) (reached : (processes P).Reach s) : s.Consistent := by
  apply reached.invariant
  · intro s start
    rw [show s = _ from start]
    exact consistent_start few
  · intro s a s' h _ taken
    exact consistent_step h taken

end Steps

end Processes

/-- Locks exclude as they should, and no sleeper is forgotten. -/
theorem locks_exclude_and_wake {P : Type} [DecidableEq P] [Fintype P] (few : Fintype.card P ≤ 255) {s : Processes P}
    (reached : (processes P).Reach s) :
    (∀ p q, p ≠ q → (s.phase p).writes → ¬ (s.phase q).holds) ∧
    (∀ p q, (s.phase p).writes ∨ (s.phase p).shares → (s.phase q).writes ∨ (s.phase q).shares → p = q) ∧
    s.lock.readersReading.toNat = (Finset.univ.filter fun p => s.phase p = .holding .read).card ∧
    s.lock.numWaiting.toNat = (Finset.univ.filter fun p => (s.phase p).waits).card ∧
    (∀ p how, s.phase p = .asleep how → s.lock.waitStates &&& Lock.waitBit how ≠ 0) ∧
    ((∀ p, ¬ (s.phase p).holds) → (∃ p, (s.phase p).isAsleep) → ∃ p, (s.phase p).isSignalled) := by
  have h := Processes.consistent_reach few reached
  refine ⟨?_, ?_, h.readers_card, h.waiting_card, ?_, ?_⟩
  · intro p q apart writes holds
    simp only [Phase.holds, Bool.or_eq_true, decide_eq_true_eq, or_assoc] at holds
    rcases holds with reads | exclusive
    · exact h.unread writes q reads
    · exact apart (h.exclusive (.inl writes) exclusive)
  · intro p q here there
    exact h.exclusive here there
  · intro p how sleeps
    rw [h.lock]
    exact waitStates_bit (tally_pos.mpr ⟨p, sleeps⟩)
  · rintro nobody ⟨p, sleeps⟩
    exact h.somebody_signalled nobody sleeps

theorem locks_exclude_and_wake_two : ∃ s, (processes (Fin 2)).run ⟨Lock.init, fun _ => .idle⟩
      [(0, .obtainWriteLock), (1, .obtainReadLock), (0, .releaseWriteLock)] = some s ∧
    (∀ p q, p ≠ q → (s.phase p).writes → ¬ (s.phase q).holds) ∧
    (∀ p q, (s.phase p).writes ∨ (s.phase p).shares → (s.phase q).writes ∨ (s.phase q).shares → p = q) ∧
    s.lock.readersReading.toNat = (Finset.univ.filter fun p => s.phase p = .holding .read).card ∧
    s.lock.numWaiting.toNat = (Finset.univ.filter fun p => (s.phase p).waits).card ∧
    (∀ p how, s.phase p = .asleep how → s.lock.waitStates &&& Lock.waitBit how ≠ 0) ∧
    ((∀ p, ¬ (s.phase p).holds) → (∃ p, (s.phase p).isAsleep) → ∃ p, (s.phase p).isSignalled) :=
  ⟨_, rfl, locks_exclude_and_wake (by decide) (Machine.Reach.run (.start rfl) (show (processes (Fin 2)).run
    ⟨Lock.init, fun _ => .idle⟩ [(0, .obtainWriteLock), (1, .obtainReadLock), (0, .releaseWriteLock)] = some _
    from rfl))⟩

end OpenAFS.Lwp
