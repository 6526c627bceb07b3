import OpenAFS.Ubik.CommitImage

namespace OpenAFS.Ubik

open Lib List Option

def DiskOp.replays (w : Image) : DiskOp → Image
  | .write file pos bytes _ => w.write file pos.val bytes
  | .truncate file length => fun f p => if f = file ∧ length.val ≤ p then 0 else w f p

def replayed (ops : List DiskOp) (w : Image) : Image := ops.foldl DiskOp.replays w

/-- What the calls of a transaction have last done to a position of a file. -/
inductive Fate where
  /-- Nothing, or a write. -/
  | kept
  /-- A truncate in front of it, and since then nothing behind it. -/
  | cut
  /-- A truncate in front of it, and since then a write behind it. -/
  | bridged
  deriving DecidableEq, Repr

def DiskOp.fate (f : Nonneg) (p : Nat) (before : Fate) : DiskOp → Fate
  | .write file pos bytes _ =>
    if file = f ∧ pos.val ≤ p ∧ p < pos.val + bytes.length then .kept
    else if file = f ∧ p < pos.val ∧ before = .cut then .bridged
    else before
  | .truncate file length => if file = f ∧ length.val ≤ p then .cut else before

def fate (ops : List DiskOp) (f : Nonneg) (p : Nat) : Fate := ops.foldl (DiskOp.fate f p) .kept

structure Idle (s : Store) : Prop where
  log : s.disk.log = []
  pool : PoolHolds s.disk.image s.disk s.buffers

/-- A crash between `udisk_LogEnd` and the write-back of the pages, and then `ReplayLog` on the old files, gives
    the same logical contents as the commit. -/
def CommitAgrees (o : ByteOrder) (s ended : Store) (v : Label) : Prop :=
  ∃ after, replayLog .big { s.disk with log := (udiskLogEnd o v ended.disk).log } = some (after, true) ∧
    after.image = (udiskCommit o v ended).disk.image

theorem replayed_append (ops : List DiskOp) (op : DiskOp) (w : Image) :
    replayed (ops ++ [op]) w = op.replays (replayed ops w) := by
  rw [replayed, foldl_append]
  rfl

theorem fate_append (ops : List DiskOp) (op : DiskOp) (f : Nonneg) (p : Nat) :
    fate (ops ++ [op]) f p = op.fate f p (fate ops f p) := by
  rw [fate, foldl_append]
  rfl

def FateFacts (ops : List DiskOp) (w : Image) (f : Nonneg) (p : Nat) : Fate → Prop
  | .kept => replayed ops w f p = written ops w f p ∧ ∀ t ∈ mergedTrunc ops f, p < t
  | .cut => replayed ops w f p = 0 ∧ ∃ t ∈ mergedTrunc ops f, t ≤ p
  | .bridged => replayed ops w f p = 0 ∧ ∃ t ∈ mergedTrunc ops f, p < t

variable {ops : List DiskOp}

theorem FateFacts.write {w : Image} {f : Nonneg} {p : Nat} {before : Fate}
    (facts : FateFacts ops w f p before) (file pos : Nonneg) (bytes : List UInt8) (short : bytes.length < 2 ^ 31) :
    FateFacts (ops ++ [.write file pos bytes short]) w f p ((DiskOp.write file pos bytes short).fate f p before) := by
  have trunc := mergedTrunc_append ops (.write file pos bytes short) f
  have replay : replayed (ops ++ [.write file pos bytes short]) w f p =
      (replayed ops w).write file pos.val bytes f p := by rw [replayed_append]; rfl
  have commit : written (ops ++ [.write file pos bytes short]) w f p =
      (written ops w).write file pos.val bytes f p := by rw [written_append]; rfl
  simp only [DiskOp.truncs] at trunc
  simp only [Image.write] at replay commit
  by_cases here : file = f
  · subst here
    simp only [if_true, true_and] at trunc replay commit
    by_cases covered : pos.val ≤ p ∧ p < pos.val + bytes.length
    · simp only [DiskOp.fate, covered, and_self, if_true, FateFacts]
      rw [if_pos covered] at replay commit
      refine ⟨by rw [replay, commit], ?_⟩
      intro t kept
      rw [trunc] at kept
      obtain ⟨t', -, rfl⟩ := Option.map_eq_some_iff.mp kept
      omega
    rw [if_neg covered] at replay commit
    simp only [DiskOp.fate, true_and, if_neg covered]
    cases before with
    | kept =>
      simp only [reduceCtorEq, and_false, if_false]
      refine ⟨by rw [replay, commit, facts.1], ?_⟩
      intro t kept
      rw [trunc] at kept
      obtain ⟨t', known, rfl⟩ := Option.map_eq_some_iff.mp kept
      have := facts.2 t' known
      omega
    | cut =>
      obtain ⟨zero, t, known, low⟩ := facts
      simp only [and_true]
      split
      · exact ⟨by rw [replay, zero], max t (pos.val + bytes.length), by rw [trunc, known]; rfl, by omega⟩
      · exact ⟨by rw [replay, zero], max t (pos.val + bytes.length), by rw [trunc, known]; rfl, by omega⟩
    | bridged =>
      obtain ⟨zero, t, known, high⟩ := facts
      simp only [reduceCtorEq, and_false, if_false]
      exact ⟨by rw [replay, zero], max t (pos.val + bytes.length), by rw [trunc, known]; rfl, by omega⟩
  · have elsewhere : ¬ f = file := fun same => here same.symm
    simp only [elsewhere, false_and, if_false] at replay commit
    simp only [here, if_false] at trunc
    simp only [DiskOp.fate, here, false_and, if_false]
    cases before <;> simpa only [FateFacts, replay, commit, trunc] using facts

theorem FateFacts.truncate {w : Image} {f : Nonneg} {p : Nat} {before : Fate}
    (facts : FateFacts ops w f p before) (file length : Nonneg) :
    FateFacts (ops ++ [.truncate file length]) w f p ((DiskOp.truncate file length).fate f p before) := by
  have trunc := mergedTrunc_append ops (.truncate file length) f
  have replay : replayed (ops ++ [.truncate file length]) w f p =
      if f = file ∧ length.val ≤ p then 0 else replayed ops w f p := by rw [replayed_append]; rfl
  have commit : written (ops ++ [.truncate file length]) w f p = written ops w f p := by rw [written_append]; rfl
  simp only [DiskOp.truncs] at trunc
  by_cases here : file = f
  · subst here
    simp only [if_true, true_and] at trunc replay
    by_cases low : length.val ≤ p
    · simp only [DiskOp.fate, low, and_self, if_true, FateFacts]
      rw [if_pos low] at replay
      refine ⟨replay, _, trunc, ?_⟩
      cases mergedTrunc ops file <;> simp only [elim_none, elim_some] <;> omega
    rw [if_neg low] at replay
    simp only [DiskOp.fate, low, and_false, if_false]
    cases before with
    | kept =>
      refine ⟨by rw [replay, commit, facts.1], ?_⟩
      intro t kept
      rw [trunc] at kept
      cases Option.some.inj kept
      cases known : mergedTrunc ops file with
      | none => simp only [elim_none]; omega
      | some t' =>
        have := facts.2 t' known
        simp only [elim_some]
        omega
    | cut =>
      obtain ⟨zero, t, known, below⟩ := facts
      exact ⟨by rw [replay, zero], _, trunc, by rw [Option.mem_def.mp known, elim_some]; omega⟩
    | bridged =>
      obtain ⟨zero, t, known, above⟩ := facts
      exact ⟨by rw [replay, zero], _, trunc, by rw [Option.mem_def.mp known, elim_some]; omega⟩
  · have elsewhere : ¬ f = file := fun same => here same.symm
    simp only [elsewhere, false_and, if_false] at replay
    simp only [here, if_false] at trunc
    simp only [DiskOp.fate, here, false_and, if_false]
    cases before <;> simpa only [FateFacts, replay, commit, trunc] using facts

theorem fateFacts (ops : List DiskOp) (w : Image) (f : Nonneg) (p : Nat) : FateFacts ops w f p (fate ops f p) := by
  induction ops using List.reverseRecOn with
  | nil => exact ⟨rfl, by simp [mergedTrunc]⟩
  | append_singleton ops op ih =>
    rw [fate_append]
    cases op with
    | write file pos bytes short => exact ih.write file pos bytes short
    | truncate file length => exact ih.truncate file length

theorem committed_eq_replayed (ops : List DiskOp) (w : Image) (f : Nonneg) (p : Nat) :
    committed ops w f p = replayed ops w f p ↔ (fate ops f p = .bridged → written ops w f p = 0) := by
  have facts := fateFacts ops w f p
  unfold committed
  cases at_end : fate ops f p with
  | kept =>
    rw [at_end] at facts
    refine iff_of_true ?_ (fun impossible => by cases impossible)
    cases trunc : mergedTrunc ops f with
    | none => exact facts.1.symm
    | some t => simp only [if_pos (facts.2 t trunc), facts.1]
  | cut =>
    rw [at_end] at facts
    obtain ⟨zero, t, trunc, low⟩ := facts
    refine iff_of_true ?_ (fun impossible => by cases impossible)
    simp only [Option.mem_def.mp trunc, if_neg (Nat.not_lt.mpr low), zero]
  | bridged =>
    rw [at_end] at facts
    obtain ⟨zero, t, trunc, high⟩ := facts
    simp only [Option.mem_def.mp trunc, if_pos high, zero, forall_const]

theorem apply_image (op : DiskOp) (d : Disk) : (op.record.apply d).image = op.replays d.image := by
  cases op with
  | write file pos bytes short => exact image_uphysWrite ..
  | truncate file length =>
    funext f p
    exact image_uphysTruncate ..

theorem applyRecords_image (ops : List DiskOp) (d : Disk) :
    (applyRecords (ops.map DiskOp.record) d).image = replayed ops d.image := by
  induction ops generalizing d with
  | nil => rfl
  | cons op ops ih =>
    rw [map_cons, applyRecords, foldl_cons, ← applyRecords, ih, apply_image]
    rfl

theorem ranOps_begin {s : Store} (idle : Idle s) (o : ByteOrder) :
    RanOps (udiskLogOpcode o logNew s.disk) [] (udiskBegin o s) where
  pool := ⟨idle.pool.held, idle.pool.clean, idle.pool.once⟩
  files := rfl
  log := by simp [udiskBegin]
  truncs _ := rfl
  once := nodup_nil

theorem replayLog_transaction {o : ByteOrder} {s ended : Store} (idle : Idle s)
    (ran : RanOps (udiskLogOpcode o logNew s.disk) ops ended) (v : Label) :
    ∃ after, replayLog .big { s.disk with log := (udiskLogEnd o v ended.disk).log } = some (after, true) ∧
      after.image = replayed ops s.disk.image := by
  have begun : (udiskLogOpcode o logNew s.disk).log = LogRecord.new.bytes := by
    have eq := append_eq o .new s.disk
    rw [idle.log, nil_append] at eq
    exact congrArg Disk.log eq
  have written : (udiskLogEnd o v ended.disk).log = logBytes (.new :: ops.map DiskOp.record) v := by
    rw [logBytes, flatMap_cons, ← begun, ← ran.log]
    simp [udiskLogEnd, logWrite_eq, store_htonl, endInts]
  have none : LogRecord.abort ∉ LogRecord.new :: ops.map DiskOp.record := by
    simp only [mem_cons, reduceCtorEq, List.mem_map, false_or, not_exists, not_and]
    intro op _
    cases op <;> simp [DiskOp.record]
  have reads := (roundTrip_iff .big (.new :: ops.map DiskOp.record) v).mpr ⟨rfl, none⟩
  obtain ⟨first, -⟩ := reads { s.disk with log := (udiskLogEnd o v ended.disk).log } (by rw [written, writtenLog_eq])
  have length := length_logBytes (.new :: ops.map DiskOp.record) v
  have cursor : (udiskLogEnd o v ended.disk).log.drop 0 = (logBytes (.new :: ops.map DiskOp.record) v).take
      (logBytes (.new :: ops.map DiskOp.record) v).length := by
    rw [drop_zero, take_length]
    exact written
  have opcode : ((.new :: ops.map DiskOp.record : List LogRecord).flatMap LogRecord.bytes).length + 4 ≤
      (logBytes (.new :: ops.map DiskOp.record) v).length := by omega
  have second := secondPass_big (d := { s.disk with log := (udiskLogEnd o v ended.disk).log }) [] cursor opcode
    (Nat.lt_succ_self _) none
  rw [if_pos (Nat.le_refl _), ← written] at second
  refine ⟨_, by rw [replayLog, first, bind_some, if_pos rfl, second]; rfl, ?_⟩
  exact applyRecords_image ops _

theorem commitAgrees_iff {o : ByteOrder} {s ended : Store} (idle : Idle s)
    (run : runOps o ops (udiskBegin o s) = some ended) (v : Label) :
    CommitAgrees o s ended v ↔ committed ops s.disk.image = replayed ops s.disk.image := by
  have ran := (ranOps_begin idle o).runOps run
  rw [nil_append] at ran
  obtain ⟨after, replay, image⟩ := replayLog_transaction idle ran v
  have commit : (udiskCommit o v ended).disk.image = committed ops s.disk.image := udiskCommit_image ran o v
  constructor
  · rintro ⟨after', replay', same⟩
    rw [replay] at replay'
    cases replay'
    rw [← commit, ← same, image]
  · intro same
    exact ⟨after, replay, by rw [image, commit, same]⟩

/-- Exactly when a transaction's replay gives what its commit gives: a byte that the transaction has cut off and
    then written behind must have been zero. -/
theorem commit_replay_exact {o : ByteOrder} {ops : List DiskOp} {s ended : Store} (idle : Idle s)
    (run : runOps o ops (udiskBegin o s) = some ended) (v : Label) :
    CommitAgrees o s ended v ↔ ∀ f p, fate ops f p = .bridged → written ops s.disk.image f p = 0 := by
  simp only [commitAgrees_iff idle run, funext_iff, committed_eq_replayed]

def hundredOnes : Store :=
  { disk := { file := fun _ => List.replicate 100 1, label := ⟨2, 1⟩ }, buffers := dInit 20 }

theorem hundredOnes_idle : Idle hundredOnes := ⟨rfl, poolHolds_dInit hundredOnes.disk 20⟩

def cutAndWrite : List DiskOp := [.truncate 0 10, .write 0 50 [7] (by decide)]

def cutAndWritten : Store := (runOps .little cutAndWrite (udiskBegin .little hundredOnes)).get (by decide +kernel)

theorem cutAndWritten_run : runOps .little cutAndWrite (udiskBegin .little hundredOnes) = some cutAndWritten :=
  (some_get _).symm

/-- The commit brings back the bytes 10 to 49 that replay leaves zero. -/
theorem commit_resurrects : ¬ CommitAgrees .little hundredOnes cutAndWritten ⟨2, 2⟩ := by
  rw [commitAgrees_iff hundredOnes_idle cutAndWritten_run]
  intro same
  have zero := congrFun (congrFun same 0) 20
  revert zero
  decide

theorem commit_replay_exact_cutAndWrite : CommitAgrees .little hundredOnes cutAndWritten ⟨2, 2⟩ ↔
      ∀ f p, fate cutAndWrite f p = .bridged → written cutAndWrite hundredOnes.disk.image f p = 0 :=
  commit_replay_exact hundredOnes_idle cutAndWritten_run ⟨2, 2⟩

end OpenAFS.Ubik
