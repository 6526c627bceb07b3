import Mathlib.Data.List.Induction
import OpenAFS.Ubik.LogFormat

namespace OpenAFS.Ubik

open Lib List

def writtenLog (o : ByteOrder) (rs : List LogRecord) (v : Label) : List UInt8 :=
  (appendLog o rs v { file := fun _ => [], label := ⟨0, 0⟩ }).log

/-- Both passes of `ReplayLog` read a host's own log as it was meant. -/
def RoundTrip (o : ByteOrder) (rs : List LogRecord) (v : Label) : Prop :=
  ∀ d : Disk, d.log = writtenLog o rs v → firstPass o d (d.log.length + 1) 0 = some true ∧
    ∃ after, secondPass o (d.log.length + 1) 0 d [] = some (after, rs.map LogRecord.decoded, .good v)

/-- Replaying this log leaves every file and the label of every database as they are. -/
def ChangesNothing (o : ByteOrder) (log : List UInt8) : Prop :=
  ∀ d : Disk, d.log = log → ∃ after ok, replayLog o d = some (after, ok) ∧ after.file = d.file ∧ after.label = d.label

def LogRecord.effective : LogRecord → Bool
  | .new | .abort => false
  | .truncate _ _ => true
  | .data _ _ bytes _ => !bytes.isEmpty

theorem writtenLog_eq (o : ByteOrder) (rs : List LogRecord) (v : Label) : writtenLog o rs v = logBytes rs v := by
  rw [writtenLog, appendLog_eq, nil_append]

theorem length_logBytes (rs : List LogRecord) (v : Label) :
    (logBytes rs v).length = (rs.flatMap LogRecord.bytes).length + 12 := by
  rw [logBytes, length_append, length_ints]
  rfl

theorem apply_of_not_effective {r : LogRecord} (idle : r.effective = false) (d : Disk) : r.apply d = d := by
  cases r with
  | new => rfl
  | abort => rfl
  | truncate file length => cases idle
  | data file pos bytes short =>
    have empty : bytes = [] := by simpa [LogRecord.effective] using idle
    rw [LogRecord.apply, empty, uphysWrite_nil]

theorem applyRecords_of_not_effective {rs : List LogRecord} (idle : ∀ r ∈ rs, r.effective = false) (d : Disk) :
    applyRecords rs d = d := by
  induction rs generalizing d with
  | nil => rfl
  | cons r rs ih =>
    rw [applyRecords, foldl_cons, apply_of_not_effective (idle r mem_cons_self)]
    exact ih (fun r inside => idle r (mem_cons_of_mem _ inside)) d

theorem exists_changed_last {r : LogRecord} (effective : r.effective = true) (before : List LogRecord)
    (log : List UInt8) : ∃ d : Disk, d.log = log ∧ (r.apply (applyRecords before d)).file ≠ d.file := by
  cases r with
  | new => cases effective
  | abort => cases effective
  | truncate file length =>
    refine ⟨{ log := log, file := fun _ => List.replicate (length.val + 1) 0, label := ⟨0, 0⟩ }, rfl, fun same => ?_⟩
    have here := congrArg List.length (congrFun same file.word)
    simp only [LogRecord.apply, uphysTruncate, if_true, length_ftruncate, length_replicate] at here
    omega
  | data file pos bytes short =>
    cases bytes with
    | nil => cases effective
    | cons b bytes =>
      refine ⟨{ log := log, file := fun _ => pwrite [] pos.val [b + 1], label := ⟨0, 0⟩ }, rfl, fun same => ?_⟩
      have here := congrArg (byteAt · pos.val) (congrFun same file.word)
      simp only [LogRecord.apply, uphysWrite, if_true, byteAt_pwrite, length_cons, length_nil,
        Nat.le_refl, true_and, Nat.sub_self] at here
      rw [if_pos (by omega), if_pos (by omega)] at here
      change b = b + 1 at here
      simp at here

theorem exists_changed {rs : List LogRecord} (some : ∃ r ∈ rs, r.effective = true) (log : List UInt8) :
    ∃ d : Disk, d.log = log ∧ (applyRecords rs d).file ≠ d.file := by
  induction rs using List.reverseRecOn with
  | nil => simp at some
  | append_singleton rs r ih =>
    have last : ∀ d, applyRecords (rs ++ [r]) d = r.apply (applyRecords rs d) := by
      intro d
      rw [applyRecords, foldl_append]
      rfl
    simp only [last]
    by_cases effective : r.effective = true
    · exact exists_changed_last effective rs log
    have idle : r.effective = false := by simpa using effective
    simp only [apply_of_not_effective idle]
    apply ih
    obtain ⟨r', inside, works⟩ := some
    rcases List.mem_append.mp inside with early | late
    · exact ⟨r', early, works⟩
    · cases List.mem_singleton.mp late
      exact absurd works effective

theorem roundTrip_iff (o : ByteOrder) (rs : List LogRecord) (v : Label) : RoundTrip o rs v ↔ o = .big ∧ LogRecord.abort ∉ rs := by
  have length := length_logBytes rs v
  have whole : (logBytes rs v).take (logBytes rs v).length = logBytes rs v := take_length
  constructor
  · intro reads
    obtain ⟨first, -⟩ := reads { log := writtenLog o rs v, file := fun _ => [], label := ⟨0, 0⟩ } rfl
    rw [writtenLog_eq] at first
    cases o with
    | big =>
      have cursor : (⟨logBytes rs v, fun _ => [], ⟨0, 0⟩⟩ : Disk).log.drop 0 =
        (logBytes rs v).take (logBytes rs v).length := whole.symm
      have found := firstPass_big cursor (Nat.lt_succ_self _)
      rw [found, Option.some.injEq, decide_eq_true_eq] at first
      exact ⟨rfl, first.1⟩
    | little =>
      have missed := firstPass_little (d := ⟨logBytes rs v, fun _ => [], ⟨0, 0⟩⟩) whole.symm (logBytes rs v).length
      rw [missed] at first
      cases first
  · rintro ⟨rfl, none⟩ d log
    rw [writtenLog_eq] at log
    have cursor : d.log.drop 0 = (logBytes rs v).take (logBytes rs v).length := by rw [drop_zero, whole, log]
    have opcode : (rs.flatMap LogRecord.bytes).length + 4 ≤ (logBytes rs v).length := by omega
    have first := firstPass_big cursor (Nat.lt_succ_self _)
    have second := secondPass_big [] cursor opcode (Nat.lt_succ_self _) none
    rw [log]
    constructor
    · simp only [first, none, opcode, not_false_eq_true, and_self, decide_true]
    · exact ⟨_, by rw [second, if_pos (Nat.le_refl _), nil_append]⟩

theorem changesNothing_iff (o : ByteOrder) (rs : List LogRecord) (v : Label) {n : Nat} (cut : n < (writtenLog o rs v).length) :
    ChangesNothing o ((writtenLog o rs v).take n) ↔
      o = .little ∨ LogRecord.abort ∈ rs ∨ n < (rs.flatMap LogRecord.bytes).length + 4 ∨ ∀ r ∈ rs, r.effective = false := by
  rw [writtenLog_eq] at cut ⊢
  have size : ∀ d : Disk, d.log = (logBytes rs v).take n → d.log.length = n := by
    intro d log
    rw [log, length_take]
    omega
  cases o with
  | little =>
    refine iff_of_true ?_ (.inl rfl)
    intro d log
    refine ⟨{ d with log := [] }, true, ?_, rfl, rfl⟩
    rw [replayLog, firstPass_little log]
    rfl
  | big =>
    have first : ∀ d : Disk, d.log = (logBytes rs v).take n → firstPass .big d (d.log.length + 1) 0 =
        some (decide (LogRecord.abort ∉ rs ∧ (rs.flatMap LogRecord.bytes).length + 4 ≤ n)) :=
      fun d log => firstPass_big (by rw [drop_zero, log]) (by rw [size d log]; omega)
    by_cases torn : LogRecord.abort ∉ rs ∧ (rs.flatMap LogRecord.bytes).length + 4 ≤ n
    · have replayed : ∀ d : Disk, d.log = (logBytes rs v).take n → replayLog .big d = some (applyRecords rs d, false) := by
        intro d log
        have second := secondPass_big [] (by rw [drop_zero, log]) torn.2
          (show n < d.log.length + 1 by rw [size d log]; omega) torn.1
        rw [if_neg (by omega)] at second
        rw [replayLog, first d log, decide_eq_true torn, Option.bind_some, if_pos rfl, second]
        rfl
      constructor
      · intro nothing
        right; right; right
        by_contra some
        simp only [not_forall, Bool.not_eq_false] at some
        obtain ⟨r, inside, effective⟩ := some
        obtain ⟨d, log, changed⟩ := exists_changed ⟨r, inside, effective⟩ ((logBytes rs v).take n)
        obtain ⟨after, ok, result, same, -⟩ := nothing d log
        rw [replayed d log] at result
        cases result
        exact changed same
      · rintro (other | aborted | short | idle) d log
        · cases other
        · exact absurd aborted torn.1
        · omega
        · refine ⟨_, _, replayed d log, ?_, ?_⟩ <;> rw [applyRecords_of_not_effective idle]
    · refine iff_of_true ?_ ?_
      · intro d log
        refine ⟨{ d with log := [] }, true, ?_, rfl, rfl⟩
        rw [replayLog, first d log, decide_eq_false torn]
        rfl
      · by_cases aborted : LogRecord.abort ∈ rs
        · exact .inr (.inl aborted)
        · exact .inr (.inr (.inl (by have := mt (And.intro aborted) torn; omega)))

/-- Exactly when a host's `ReplayLog` reads the log it wrote, and when it leaves a database alone whose log was cut
    before the end of its `LOGEND` record. -/
theorem replayLog_exact (o : ByteOrder) (rs : List LogRecord) (v : Label) : (RoundTrip o rs v ↔ o = .big ∧ LogRecord.abort ∉ rs) ∧
    ∀ n < (writtenLog o rs v).length, (ChangesNothing o ((writtenLog o rs v).take n) ↔
      o = .little ∨ LogRecord.abort ∈ rs ∨ n < (rs.flatMap LogRecord.bytes).length + 4 ∨ ∀ r ∈ rs, r.effective = false) :=
  ⟨roundTrip_iff o rs v, fun _ cut => changesNothing_iff o rs v cut⟩

def oneWrite : List LogRecord := [.new, .data 0 0 [1] (by decide)]

theorem replayLog_exact_oneWrite : ChangesNothing .big ((writtenLog .big oneWrite ⟨5, 2⟩).take 25) ↔
      ByteOrder.big = .little ∨ LogRecord.abort ∈ oneWrite ∨ 25 < (oneWrite.flatMap LogRecord.bytes).length + 4 ∨
        ∀ r ∈ oneWrite, r.effective = false :=
  (replayLog_exact .big oneWrite ⟨5, 2⟩).2 25 (by decide)

/-- A little-endian host does not find the commit of a transaction of one write, and a big-endian one
    replays that write where the version of the `LOGEND` record is missing. -/
theorem replayLog_oneWrite :
    ¬ RoundTrip .little oneWrite ⟨5, 2⟩ ∧ ¬ ChangesNothing .big ((writtenLog .big oneWrite ⟨5, 2⟩).take 25) := by
  constructor
  · rw [roundTrip_iff]
    simp
  · rw [changesNothing_iff _ _ _ (by decide)]
    decide

end OpenAFS.Ubik
