import Mathlib.Data.List.Dedup
import OpenAFS.Ubik.CommitReplay

namespace OpenAFS.Ubik

open Lib List

inductive PhysOp where
  | page (b : Buffer)
  | sync (file : Option Nonneg)
  | truncate (file : Nonneg) (length : Nat)
  | setlabel (v : Label)
  | discardLog

def PhysOp.apply (d : Disk) : PhysOp → Disk
  | .page b => flushBuffer d b
  | .sync _ => d
  | .truncate file length => uphysTruncate file.word length d
  | .setlabel v => { d with label := v }
  | .discardLog => { d with log := [] }

def dirtyFiles (buffers : List Buffer) : List (Option Nonneg) :=
  ((buffers.filter Buffer.dirty).map Buffer.file).dedup.filter Option.isSome

/-- What `udisk_commit` does to the disk behind `udisk_LogEnd`, but for the log. -/
def writeBack (v : Label) (s : Store) : List PhysOp :=
  (s.buffers.filter Buffer.dirty).map .page ++ (dirtyFiles s.buffers).map .sync ++
    s.activeTruncs.map (fun tt => .truncate tt.1 tt.2) ++ [.setlabel v]

def commitOps (v : Label) (s : Store) : List PhysOp := writeBack v s ++ [.discardLog]

def Label.bump (v : Label) : Label := { v with counter := v.counter + 1 }

/-- `urecovery_Initialize`: what it leaves, and the version it has found, if it returns 0. -/
def urecoveryInitialize (o : ByteOrder) (d : Disk) : Option (Disk × Option Label) :=
  (replayLog o d).map fun (after, ok) => (after, if ok then some after.label else none)

structure Settled (s : Store) : Prop extends Idle s where
  clean : ∀ b ∈ s.buffers, b.dirty = false

def crashed (o : ByteOrder) (v : Label) (ended : Store) (k : Nat) : Disk :=
  ((commitOps v ended).take k).foldl PhysOp.apply (udiskLogEnd o v ended.disk)

/-- Wherever a crash stops the commit behind `udisk_LogEnd`, the server comes up with what the commit would have left. -/
def AfterEnd (o : ByteOrder) (s ended : Store) : Prop :=
  ∀ k, ∃ after, urecoveryInitialize o (crashed o s.disk.label.bump ended k) = some (after, some s.disk.label.bump) ∧
    after.label = s.disk.label.bump ∧ after.image = (udiskCommit o s.disk.label.bump ended).disk.image

/-- Wherever a crash cuts the log off before its end, the server comes up with the old contents. -/
def BeforeEnd (o : ByteOrder) (s ended : Store) : Prop :=
  ∀ n < (udiskLogEnd o s.disk.label.bump ended.disk).log.length, ∃ after version,
    urecoveryInitialize o { ended.disk with log := (udiskLogEnd o s.disk.label.bump ended.disk).log.take n } =
      some (after, version) ∧ after.image = s.disk.image

theorem foldl_page (buffers : List Buffer) (d : Disk) :
    ((buffers.filter Buffer.dirty).map PhysOp.page).foldl PhysOp.apply d = buffers.foldl flushBuffer d := by
  induction buffers generalizing d with
  | nil => rfl
  | cons b buffers ih =>
    rw [foldl_cons, filter_cons]
    split
    · exact ih _
    rename_i clean
    have same : flushBuffer d b = d := by
      unfold flushBuffer
      split <;> rw [if_neg clean]
    rw [same]
    exact ih d

theorem foldl_sync (files : List (Option Nonneg)) (d : Disk) : (files.map PhysOp.sync).foldl PhysOp.apply d = d := by
  induction files with
  | nil => rfl
  | cons file files ih => exact ih

theorem commitOps_all (o : ByteOrder) (v : Label) (s : Store) :
    (commitOps v s).foldl PhysOp.apply (udiskLogEnd o v s.disk) = (udiskCommit o v s).disk := by
  unfold commitOps writeBack udiskCommit
  rw [foldl_append, foldl_append, foldl_append, foldl_append, foldl_page, foldl_sync, foldl_map]
  dsimp only
  rw [doTruncs_disk]
  rfl

def DiskOp.Covers (f : Nonneg) (p : Nat) : DiskOp → Prop
  | .write file pos bytes _ => f = file ∧ pos.val ≤ p ∧ p < pos.val + bytes.length
  | .truncate file length => f = file ∧ length.val ≤ p

def Touched (ops : List DiskOp) (f : Nonneg) (p : Nat) : Prop := ∃ op ∈ ops, op.Covers f p

variable {op : DiskOp} {f : Nonneg} {p : Nat} {d : Disk} {rs : List LogRecord} {v : Label}

theorem touched_append {ops : List DiskOp} : Touched (ops ++ [op]) f p ↔ Touched ops f p ∨ op.Covers f p := by
  unfold Touched
  simp only [mem_append, mem_singleton, or_and_right, exists_or, exists_eq_left]

theorem DiskOp.replays_covered (covers : op.Covers f p) (w w' : Image) : op.replays w f p = op.replays w' f p := by
  cases op with
  | write file pos bytes short => exact (if_pos covers).trans (if_pos covers).symm
  | truncate file length => exact (if_pos covers).trans (if_pos covers).symm

theorem DiskOp.replays_free (free : ¬ op.Covers f p) (w : Image) : op.replays w f p = w f p := by
  cases op <;> exact if_neg free

theorem DiskOp.writes_free (free : ¬ op.Covers f p) (w : Image) : op.writes w f p = w f p := by
  cases op with
  | write file pos bytes short => exact if_neg free
  | truncate file length => rfl

theorem replayed_touched {ops : List DiskOp} (touched : Touched ops f p) (w w' : Image) :
    replayed ops w f p = replayed ops w' f p := by
  induction ops using List.reverseRecOn with
  | nil =>
    obtain ⟨op, none, -⟩ := touched
    cases none
  | append_singleton ops op ih =>
    rw [replayed_append, replayed_append]
    by_cases covers : op.Covers f p
    · exact op.replays_covered covers _ _
    · rw [op.replays_free covers, op.replays_free covers]
      exact ih ((touched_append.mp touched).resolve_right covers)

theorem free_kept {ops : List DiskOp} (free : ¬ Touched ops f p) (w : Image) :
    replayed ops w f p = w f p ∧ written ops w f p = w f p ∧ ∀ t ∈ mergedTrunc ops f, p < t := by
  induction ops using List.reverseRecOn with
  | nil => exact ⟨rfl, rfl, fun t none => by cases none⟩
  | append_singleton ops op ih =>
    rw [touched_append, not_or] at free
    obtain ⟨replays, writes, truncs⟩ := ih free.1
    refine ⟨?_, ?_, ?_⟩
    · rw [replayed_append, op.replays_free free.2, replays]
    · rw [written_append, op.writes_free free.2, writes]
    intro t kept
    rw [mergedTrunc_append] at kept
    cases op with
    | write file pos bytes short =>
      simp only [DiskOp.truncs] at kept
      split at kept
      · obtain ⟨t', known, rfl⟩ := Option.map_eq_some_iff.mp kept
        exact Nat.lt_of_lt_of_le (truncs t' known) (Nat.le_max_left _ _)
      · exact truncs t kept
    | truncate file length =>
      simp only [DiskOp.truncs] at kept
      split at kept
      · rename_i here
        have low : p < length.val := Nat.lt_of_not_le fun low => free.2 ⟨here.symm, low⟩
        cases Option.some.inj kept
        cases known : mergedTrunc ops f with
        | none => exact low
        | some t' => exact Nat.lt_min.mpr ⟨truncs t' known, low⟩
      · exact truncs t kept

def DirtyFiled (buffers : List Buffer) : Prop := ∀ b ∈ buffers, b.dirty = true → b.file ≠ none

theorem DirtyFiled.dRead {disk : Disk} {fid : Nonneg} {page : Nat} {buffers rest : List Buffer} {b : Buffer}
    (filed : DirtyFiled buffers) (read : dRead disk fid page buffers = some (rest, b)) :
    DirtyFiled rest ∧ b.file = some fid := by
  unfold Ubik.dRead at read
  split at read
  · rename_i found
    cases read
    refine ⟨fun c inside => filed c (mem_of_mem_filter inside), ?_⟩
    exact (isPage_iff.mp (find?_some found)).1
  obtain ⟨left, slot, same⟩ := Option.map_eq_some_iff.mp read
  cases same
  unfold newslot at slot
  split at slot
  · cases slot
    exact ⟨fun c inside => filed c (mem_of_mem_eraseP inside), rfl⟩
  · cases slot

theorem DirtyFiled.writePages {disk : Disk} {afile : Nonneg} {fuel apos : Nat} {abuffer : List UInt8}
    {buffers after : List Buffer} (filed : DirtyFiled buffers)
    (ran : writePages disk afile fuel apos abuffer buffers = some after) : DirtyFiled after := by
  induction fuel generalizing apos abuffer buffers with
  | zero =>
    cases ran
    exact filed
  | succ fuel ih =>
    rw [Ubik.writePages] at ran
    split at ran
    · cases ran
      exact filed
    obtain ⟨⟨rest, b⟩, read, later⟩ := Option.bind_eq_some_iff.mp ran
    obtain ⟨kept, file⟩ := filed.dRead read
    refine ih (fun c inside dirty => ?_) later
    rcases List.mem_append.mp inside with old | new
    · exact kept c old dirty
    cases List.mem_singleton.mp new
    rw [file]
    exact Option.some_ne_none _

theorem DirtyFiled.runOps {o : ByteOrder} {ops : List DiskOp} {s s' : Store} (filed : DirtyFiled s.buffers)
    (run : runOps o ops s = some s') : DirtyFiled s'.buffers := by
  induction ops generalizing s with
  | nil =>
    cases run
    exact filed
  | cons op ops ih =>
    obtain ⟨middle, first, rest⟩ := Option.bind_eq_some_iff.mp run
    refine ih ?_ rest
    cases op with
    | write file pos bytes short =>
      obtain ⟨buffers, pages, rfl⟩ := Option.map_eq_some_iff.mp first
      exact filed.writePages pages
    | truncate file length =>
      cases first
      exact filed

theorem findTrunc_mem {truncs : List (Nonneg × Nat)} (once : (truncs.map Prod.fst).Nodup) {tt : Nonneg × Nat}
    (inside : tt ∈ truncs) : findTrunc truncs tt.1 = some tt.2 := by
  cases found : truncs.find? fun other => other.1 = tt.1 with
  | none => exact absurd (decide_eq_true rfl) (List.find?_eq_none.mp found tt inside)
  | some other =>
    have named : other.1 = tt.1 := by simpa using find?_some found
    have same := inj_on_of_nodup_map once (mem_of_find?_eq_some found) inside named
    rw [findTrunc, found, same]
    rfl

def PhysOp.Spares (ops : List DiskOp) (w : Image) (op : PhysOp) : Prop :=
  ∀ d, (op.apply d).log = d.log ∧ ∀ f p, ¬ Touched ops f p → d.image f p = w f p → (op.apply d).image f p = w f p

theorem writeBack_spares {ops : List DiskOp} {ended : Store} (ran : RanOps d ops ended)
    (filed : DirtyFiled ended.buffers) (v : Label) : ∀ op ∈ writeBack v ended, op.Spares ops (written ops d.image) := by
  intro op inside d'
  unfold writeBack at inside
  simp only [mem_append, mem_map, mem_filter, mem_singleton] at inside
  rcases inside with ((⟨b, ⟨inside, dirty⟩, rfl⟩ | ⟨file, -, rfl⟩) | ⟨tt, inside, rfl⟩) | rfl
  · refine ⟨?_, fun f p _ same => (flushBuffer_image (ran.pool.held b inside)).1 same⟩
    cases file : b.file with
    | none => exact absurd file (filed b inside dirty)
    | some fid =>
      simp only [PhysOp.apply, flushBuffer, file]
      split <;> rfl
  · exact ⟨rfl, fun _ _ _ same => same⟩
  · refine ⟨rfl, fun f p free same => ?_⟩
    simp only [PhysOp.apply]
    rw [image_uphysTruncate, if_neg]
    · exact same
    rintro ⟨rfl, low⟩
    have kept := ran.truncs tt.1
    have high := (free_kept free d.image).2.2 tt.2 (kept.symm.trans (findTrunc_mem ran.once inside))
    omega
  · exact ⟨rfl, fun _ _ _ same => same⟩

theorem spares_foldl {ops : List DiskOp} {w : Image} {phys : List PhysOp} (spare : ∀ op ∈ phys, op.Spares ops w)
    (start : ∀ f p, ¬ Touched ops f p → d.image f p = w f p) :
    (phys.foldl PhysOp.apply d).log = d.log ∧ ∀ f p, ¬ Touched ops f p → (phys.foldl PhysOp.apply d).image f p = w f p := by
  induction phys generalizing d with
  | nil => exact ⟨rfl, start⟩
  | cons op phys ih =>
    obtain ⟨log, image⟩ := spare op mem_cons_self d
    obtain ⟨log', image'⟩ := ih (fun op inside => spare op (mem_cons_of_mem _ inside))
      (fun f p free => image f p free (start f p free))
    exact ⟨log'.trans log, image'⟩

theorem replayLog_whole (log : d.log = logBytes rs v) (none : LogRecord.abort ∉ rs) :
    replayLog .big d = some ({ applyRecords rs d with label := v, log := [] }, true) := by
  have length := length_logBytes rs v
  have cursor : d.log.drop 0 = (logBytes rs v).take (logBytes rs v).length := by rw [drop_zero, take_length, log]
  have opcode : (rs.flatMap LogRecord.bytes).length + 4 ≤ (logBytes rs v).length := by omega
  have first := firstPass_big cursor (Nat.lt_succ_self _)
  have second := secondPass_big [] cursor opcode (Nat.lt_succ_self _) none
  rw [if_pos (Nat.le_refl _), ← log] at second
  rw [decide_eq_true ⟨none, opcode⟩, ← log] at first
  rw [replayLog, first, Option.bind_some, if_pos rfl, second]
  rfl

theorem replayLog_torn {n : Nat} (log : d.log = (logBytes rs v).take n)
    (opcode : (rs.flatMap LogRecord.bytes).length + 4 ≤ n) (cut : n < (logBytes rs v).length)
    (none : LogRecord.abort ∉ rs) : replayLog .big d = some (applyRecords rs d, false) := by
  have size : d.log.length = n := by
    rw [log, length_take]
    omega
  have cursor : d.log.drop 0 = (logBytes rs v).take n := by rw [drop_zero, log]
  have first := firstPass_big cursor (Nat.lt_succ_self _)
  have second := secondPass_big [] cursor opcode (Nat.lt_succ_self _) none
  rw [if_neg (by omega), ← size] at second
  rw [decide_eq_true ⟨none, opcode⟩, ← size] at first
  rw [replayLog, first, Option.bind_some, if_pos rfl, second]
  rfl

theorem replayLog_short {d : Disk} {rs : List LogRecord} {v : Label} {n : Nat} (log : d.log = (logBytes rs v).take n)
    (short : n < (rs.flatMap LogRecord.bytes).length + 4) : replayLog .big d = some ({ d with log := [] }, true) := by
  have length := length_logBytes rs v
  have size : d.log.length = n := by
    rw [log, length_take]
    omega
  have cursor : d.log.drop 0 = (logBytes rs v).take n := by rw [drop_zero, log]
  have first := firstPass_big cursor (Nat.lt_succ_self _)
  rw [decide_eq_false fun both => absurd both.2 (by omega), ← size] at first
  rw [replayLog, first]
  rfl

theorem replayLog_little {n : Nat} (log : d.log = (logBytes rs v).take n) :
    replayLog .little d = some ({ d with log := [] }, true) := by
  rw [replayLog, firstPass_little log]
  rfl

theorem transaction_log {o : ByteOrder} {ops : List DiskOp} {s ended : Store} (idle : Idle s)
    (ran : RanOps (udiskLogOpcode o logNew s.disk) ops ended) (v : Label) :
    (udiskLogEnd o v ended.disk).log = logBytes (.new :: ops.map DiskOp.record) v := by
  have begun : (udiskLogOpcode o logNew s.disk).log = LogRecord.new.bytes := by
    have eq := append_eq o .new s.disk
    rw [idle.log, nil_append] at eq
    exact congrArg Disk.log eq
  rw [logBytes, flatMap_cons, ← begun, ← ran.log]
  simp [udiskLogEnd, logWrite_eq, store_htonl, endInts]

theorem transaction_unaborted (ops : List DiskOp) : LogRecord.abort ∉ LogRecord.new :: ops.map DiskOp.record := by
  simp only [mem_cons, reduceCtorEq, mem_map, false_or, not_exists, not_and]
  intro op _
  cases op <;> simp [DiskOp.record]

theorem applyRecords_transaction (ops : List DiskOp) (d : Disk) :
    (applyRecords (.new :: ops.map DiskOp.record) d).image = replayed ops d.image := applyRecords_image ops d

theorem Label.bump_ne (v : Label) : v.bump ≠ v := by
  intro same
  have counter : v.counter + 1 = v.counter := congrArg Label.counter same
  have apart : v.counter + 1 ≠ v.counter := by
    intro same
    have nat := congrArg UInt32.toNat same
    simp at nat
    omega
  exact apart counter

theorem runOps_label {o : ByteOrder} {ops : List DiskOp} {s ended : Store} (run : runOps o ops s = some ended) :
    ended.disk.label = s.disk.label := by
  induction ops generalizing s with
  | nil =>
    cases run
    rfl
  | cons op ops ih =>
    obtain ⟨middle, first, rest⟩ := Option.bind_eq_some_iff.mp run
    rw [ih rest]
    cases op with
    | write file pos bytes short =>
      obtain ⟨buffers, pages, rfl⟩ := Option.map_eq_some_iff.mp first
      exact (congrArg Disk.label (record_bytes_write o file pos bytes short s.disk)).trans rfl
    | truncate file length =>
      cases first
      exact (congrArg Disk.label (record_bytes_truncate o file length s.disk)).trans rfl

section Transaction

variable {o : ByteOrder} {ops : List DiskOp} {s ended : Store}

theorem crashed_cases (settled : Settled s) (run : runOps o ops (udiskBegin o s) = some ended) (k : Nat) :
    (crashed o s.disk.label.bump ended k).log = logBytes (.new :: ops.map DiskOp.record) s.disk.label.bump ∧
        (∀ f p, ¬ Touched ops f p → (crashed o s.disk.label.bump ended k).image f p = s.disk.image f p) ∨
      crashed o s.disk.label.bump ended k = (udiskCommit o s.disk.label.bump ended).disk := by
  have ran := (ranOps_begin settled.toIdle o).runOps run
  rw [nil_append] at ran
  have filed : DirtyFiled ended.buffers := by
    refine DirtyFiled.runOps (fun b inside dirty => ?_) run
    rw [settled.clean b inside] at dirty
    cases dirty
  have old : (udiskLogOpcode o logNew s.disk).image = s.disk.image := rfl
  unfold crashed
  by_cases all : (commitOps s.disk.label.bump ended).length ≤ k
  · right
    rw [take_of_length_le all]
    exact commitOps_all o _ ended
  left
  have short : k ≤ (writeBack s.disk.label.bump ended).length := by
    unfold commitOps at all
    rw [length_append, length_singleton] at all
    omega
  have spare := writeBack_spares ran filed s.disk.label.bump
  rw [commitOps, take_append_of_le_length short]
  have start : ∀ f p, ¬ Touched ops f p → (udiskLogEnd o s.disk.label.bump ended.disk).image f p =
      written ops s.disk.image f p := by
    intro f p free
    rw [(free_kept free s.disk.image).2.1]
    exact congrArg (fun files => byteAt (files f.word) p) ran.files
  rw [old] at spare
  obtain ⟨log, image⟩ := spares_foldl (fun op inside => spare op (mem_of_mem_take inside)) start
  refine ⟨log.trans (transaction_log settled.toIdle ran _), fun f p free => ?_⟩
  rw [image f p free, (free_kept free s.disk.image).2.1]

theorem replayed_crashed {d : Disk} (same : ∀ f p, ¬ Touched ops f p → d.image f p = s.disk.image f p) :
    replayed ops d.image = replayed ops s.disk.image := by
  funext f p
  by_cases touched : Touched ops f p
  · exact replayed_touched touched _ _
  · rw [(free_kept touched _).1, (free_kept touched _).1, same f p touched]

theorem afterEnd_iff (settled : Settled s) (run : runOps o ops (udiskBegin o s) = some ended) :
    AfterEnd o s ended ↔ o = .big ∧ ∀ f p, fate ops f p = .bridged → written ops s.disk.image f p = 0 := by
  have ran := (ranOps_begin settled.toIdle o).runOps run
  rw [nil_append] at ran
  have old : (udiskLogOpcode o logNew s.disk).image = s.disk.image := rfl
  have commit := udiskCommit_image ran o s.disk.label.bump
  rw [old] at commit
  have exact_ : (∀ f p, fate ops f p = .bridged → written ops s.disk.image f p = 0) ↔
      committed ops s.disk.image = replayed ops s.disk.image := by
    simp only [funext_iff, committed_eq_replayed]
  have start : crashed o s.disk.label.bump ended 0 = udiskLogEnd o s.disk.label.bump ended.disk := rfl
  have log := transaction_log settled.toIdle ran s.disk.label.bump
  rw [exact_]
  unfold AfterEnd
  rw [commit]
  cases o with
  | little =>
    refine iff_of_false (fun atomic => ?_) fun both => by cases both.1
    obtain ⟨after, recovers, label, -⟩ := atomic 0
    have dropped := replayLog_little (d := crashed .little s.disk.label.bump ended 0) (log.trans List.take_length.symm)
    rw [urecoveryInitialize, dropped] at recovers
    have same := congrArg (fun r => r.1.label) (Option.some.inj recovers)
    have kept : ended.disk.label = s.disk.label := (runOps_label run).trans rfl
    exact s.disk.label.bump_ne (label.symm.trans (same.symm.trans kept))
  | big =>
    rw [and_iff_right rfl]
    constructor
    · intro atomic
      obtain ⟨after, recovers, -, image⟩ := atomic 0
      rw [start, urecoveryInitialize, replayLog_whole log (transaction_unaborted ops)] at recovers
      have same := congrArg (fun r => r.1.image) (Option.some.inj recovers)
      rw [← image, ← same]
      refine (applyRecords_transaction ops _).trans (replayed_crashed fun f p _ => ?_)
      exact congrArg (fun files => byteAt (files f.word) p) ran.files
    intro agrees k
    rcases crashed_cases settled run k with ⟨log, same⟩ | done
    · refine ⟨_, by rw [urecoveryInitialize, replayLog_whole log (transaction_unaborted ops)]; rfl, rfl, ?_⟩
      rw [agrees]
      exact (applyRecords_transaction ops _).trans (replayed_crashed same)
    rw [← commit, ← done]
    have label : (crashed .big s.disk.label.bump ended k).label = s.disk.label.bump := by rw [done]; rfl
    have empty : (crashed .big s.disk.label.bump ended k).log = [] := by rw [done]; rfl
    generalize crashed .big s.disk.label.bump ended k = d at label empty
    have short := @replayLog_short d [] d.label 0 (by rw [empty]; rfl) (by decide)
    refine ⟨{ d with log := [] }, ?_, label, rfl⟩
    rw [urecoveryInitialize, short, ← label]
    rfl

theorem beforeEnd_iff (settled : Settled s) (run : runOps o ops (udiskBegin o s) = some ended) :
    BeforeEnd o s ended ↔ o = .little ∨ replayed ops s.disk.image = s.disk.image := by
  have ran := (ranOps_begin settled.toIdle o).runOps run
  rw [nil_append] at ran
  have log := transaction_log settled.toIdle ran s.disk.label.bump
  have length := length_logBytes (.new :: ops.map DiskOp.record) s.disk.label.bump
  have files : ended.disk.image = s.disk.image := by
    funext f p
    exact congrArg (fun files => byteAt (files f.word) p) ran.files
  unfold BeforeEnd
  rw [log]
  cases o with
  | little =>
    refine iff_of_true (fun n _ => ?_) (.inl rfl)
    rw [urecoveryInitialize, replayLog_little rfl]
    exact ⟨_, _, rfl, files⟩
  | big =>
    rw [or_iff_right (by decide)]
    constructor
    · intro kept
      obtain ⟨after, version, recovers, image⟩ := kept
        (((.new :: ops.map DiskOp.record : List LogRecord).flatMap LogRecord.bytes).length + 4) (by omega)
      rw [urecoveryInitialize, replayLog_torn rfl (Nat.le_refl _) (by omega) (transaction_unaborted ops)] at recovers
      cases recovers
      rw [applyRecords_transaction] at image
      exact (congrArg (replayed ops) files.symm).trans image
    intro still n cut
    by_cases opcode : ((.new :: ops.map DiskOp.record : List LogRecord).flatMap LogRecord.bytes).length + 4 ≤ n
    · rw [urecoveryInitialize, replayLog_torn rfl opcode cut (transaction_unaborted ops)]
      refine ⟨_, _, rfl, (applyRecords_transaction ops _).trans ?_⟩
      refine Eq.trans ?_ still
      exact congrArg (replayed ops) files
    · rw [urecoveryInitialize, replayLog_short rfl (Nat.lt_of_not_le opcode)]
      exact ⟨_, _, rfl, files⟩

/-- When a commit survives a crash at any point. Behind the end of the log: on a big-endian host, if a byte that the
transaction cuts off and then writes behind is zero. Before: on a little-endian host, or if replaying the transaction
changes nothing. -/
theorem commit_crash_exact (settled : Settled s) (run : runOps o ops (udiskBegin o s) = some ended) :
    (AfterEnd o s ended ↔ o = .big ∧ ∀ f p, fate ops f p = .bridged → written ops s.disk.image f p = 0) ∧
      (BeforeEnd o s ended ↔ o = .little ∨ replayed ops s.disk.image = s.disk.image) :=
  ⟨afterEnd_iff settled run, beforeEnd_iff settled run⟩

end Transaction

theorem hundredOnes_settled : Settled hundredOnes where
  toIdle := hundredOnes_idle
  clean := fun b inside => by rw [eq_of_mem_replicate inside]

theorem commit_crash_exact_cutAndWrite : (AfterEnd .little hundredOnes cutAndWritten ↔ ByteOrder.little = .big ∧
      ∀ f p, fate cutAndWrite f p = .bridged → written cutAndWrite hundredOnes.disk.image f p = 0) ∧
    (BeforeEnd .little hundredOnes cutAndWritten ↔ ByteOrder.little = .little ∨
      replayed cutAndWrite hundredOnes.disk.image = hundredOnes.disk.image) :=
  commit_crash_exact hundredOnes_settled cutAndWritten_run

/-- On a little-endian host a commit is lost when the host goes down behind the end of the log. -/
theorem commit_lost : ¬ ∀ o ops s ended, Settled s → runOps o ops (udiskBegin o s) = some ended →
    AfterEnd o s ended ∧ BeforeEnd o s ended := by
  intro atomic
  have here := (atomic .little cutAndWrite hundredOnes cutAndWritten hundredOnes_settled cutAndWritten_run).1
  cases ((afterEnd_iff hundredOnes_settled cutAndWritten_run).mp here).1

end OpenAFS.Ubik
