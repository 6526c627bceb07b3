import Mathlib.Data.FinEnum
import Mathlib.Data.List.Pairwise
import OpenAFS.Lib.Machine
import OpenAFS.Ubik.CommitReplay

namespace OpenAFS.Ubik

open Lib List

def bytesOf (file : List UInt8) (apos alen : Nat) : List UInt8 := (List.range alen).map fun i => byteAt file (apos + i)

inductive CachePhase where
  /-- No write transaction, and the last one did not end in an abort. -/
  | idle
  | writing
  /-- The last thing that could change the files was a transaction that was aborted. -/
  | aborted
  deriving DecidableEq, Repr

structure PageCache where
  store : Store
  phase : CachePhase := .idle
  began : UInt32 → List UInt8

inductive CacheCall where
  | begin
  | read (afile apos alen : Nonneg)
  | write (afile apos : Nonneg) (abuffer : List UInt8) (short : abuffer.length < 2 ^ 31)
  | truncate (afile alength : Nonneg)
  | commit (version : Label)
  | abort
  | invalidate (afile : Nonneg)
  /-- A file is replaced, as in `SDISK_SendFile`, and its pages are invalidated. -/
  | install (afile : Nonneg) (contents : List UInt8)

variable (o : ByteOrder)

def PageCache.step (s : PageCache) : CacheCall → Option PageCache
  | .begin =>
    if s.phase = .writing then none
    else some { store := udiskBegin o s.store, phase := .writing, began := s.store.disk.file }
  | .read afile apos alen => some { s with store := (udiskRead afile apos alen s.store).2 }
  | .write afile apos abuffer _ =>
    if s.phase = .writing then some { s with store := udiskTryWrite o afile apos abuffer s.store } else none
  | .truncate afile alength =>
    if s.phase = .writing then some { s with store := udiskTruncate o afile alength s.store } else none
  | .commit version =>
    if s.phase = .writing then some { s with store := udiskCommit o version s.store, phase := .idle } else none
  | .abort =>
    if s.phase = .writing then some { s with store := udiskAbort o s.store, phase := .aborted } else none
  | .invalidate afile => some { s with store := udiskInvalidate afile s.store }
  | .install afile contents =>
    if s.phase = .writing then none
    else
      let disk := { s.store.disk with
        file := fun f => if f = afile.word then contents else s.store.disk.file f }
      some { s with store := udiskInvalidate afile { s.store with disk }, phase := .idle }

def pageCache : Machine PageCache CacheCall where
  start s := s.phase = .idle ∧ ∃ n, 0 < n ∧ s.store.buffers = dInit n
  step := PageCache.step o

/-- The page in which a file is cut holds zeros past the cut, if it is in the pool. -/
def CutClean (s : Store) : Prop :=
  ∀ tt ∈ s.activeTruncs, tt.2 % pageSize ≠ 0 → ∀ b ∈ s.buffers, b.file = some tt.1 → b.page = tt.2 / pageSize →
    ∀ c ∈ b.data.drop (tt.2 % pageSize), c = 0

instance (s : Store) : Decidable (CutClean s) := by unfold CutClean; infer_instance

/-- Some buffer is not one whose page was invalidated while it was dirty. -/
def PoolLeft (s : Store) : Prop := ∃ b ∈ s.buffers, b.dirty = true → b.file ≠ none

instance (s : Store) : Decidable (PoolLeft s) := by unfold PoolLeft; infer_instance

def CommitsClean (s : PageCache) : CacheCall → Prop
  | .commit _ => CutClean s.store ∧ PoolLeft s.store
  | _ => True

instance (s : PageCache) (call : CacheCall) : Decidable (CommitsClean s call) := by
  cases call <;> simp only [CommitsClean] <;> infer_instance

/-- Between transactions reads give the bytes of the files, and after an abort those the files held before. -/
def PageCache.Coherent (s : PageCache) : Prop :=
  s.phase ≠ .writing → ∀ afile apos alen,
    (udiskRead afile apos alen s.store).1 = some (bytesOf (s.store.disk.file afile.word) apos.val alen.val) ∧
    (s.phase = .aborted → (udiskRead afile apos alen s.store).1 = some (bytesOf (s.began afile.word) apos.val alen.val))

variable {gone : Buffer → Bool} {change : Buffer → Buffer} {buffers : List Buffer} {b : Buffer} {f : Nonneg} {w : Image}
  {disk : Disk} {s : Store}

theorem mem_dlru :
    b ∈ dlru gone change buffers ↔ (∃ c ∈ buffers, gone c = true ∧ change c = b) ∨ b ∈ buffers ∧ gone b = false := by
  simp only [dlru, mem_append, mem_map, mem_filter, Bool.not_eq_true', and_assoc]

theorem mem_dlru_of_file (free : ∀ c, (change c).file = none) (inside : b ∈ dlru gone change buffers)
    (file : b.file = some f) : b ∈ buffers ∧ gone b = false := by
  rcases mem_dlru.mp inside with ⟨c, -, -, rfl⟩ | kept
  · rw [free c] at file
    cases file
  · exact kept

theorem once_dlru {gone : Buffer → Bool} {change : Buffer → Buffer} {buffers : List Buffer} (free : ∀ c, (change c).file = none)
    (once : buffers.Pairwise fun b c => ∀ f, b.file = some f → c.file = some f → b.page ≠ c.page) :
    (dlru gone change buffers).Pairwise fun b c => ∀ f, b.file = some f → c.file = some f → b.page ≠ c.page := by
  rw [dlru, pairwise_append]
  have freed : ∀ b ∈ (buffers.filter gone).map change, b.file = none := by
    intro b inside
    obtain ⟨c, -, rfl⟩ := List.mem_map.mp inside
    exact free c
  refine ⟨pairwise_of_forall_mem_list ?_, once.sublist filter_sublist, ?_⟩
  · intro b inside c _ f file
    rw [freed b inside] at file
    cases file
  · intro b inside c _ f file
    rw [freed b inside] at file
    cases file

theorem dlru_ne_nil (some : buffers ≠ []) : dlru gone change buffers ≠ [] := by
  obtain ⟨b, inside⟩ := exists_mem_of_ne_nil _ some
  cases chosen : gone b with
  | true => exact ne_nil_of_mem (mem_dlru.mpr (.inl ⟨b, inside, chosen, rfl⟩))
  | false => exact ne_nil_of_mem (mem_dlru.mpr (.inr ⟨inside, chosen⟩))

theorem dRead_isSome {disk : Disk} {fid : Nonneg} {page : Nat} {buffers : List Buffer}
    (usable : ∃ b ∈ buffers, b.dirty = false) : ∃ rest b, dRead disk fid page buffers = some (rest, b) := by
  unfold dRead
  split
  · exact ⟨_, _, rfl⟩
  obtain ⟨b, inside, clean⟩ := usable
  have any : (buffers.any fun b => !b.dirty) = true := List.any_eq_true.mpr ⟨b, inside, by simp [clean]⟩
  simp only [newslot, any, if_true, Option.map_some]
  exact ⟨_, _, rfl⟩

theorem PoolHolds.unique (pool : PoolHolds w disk buffers)
    {c : Buffer} (inside : b ∈ buffers) (inside' : c ∈ buffers) (file : b.file = some f)
    (file' : c.file = some f) (page : b.page = c.page) : b = c := by
  by_contra other
  have symm : Std.Symm fun b c : Buffer => ∀ f, b.file = some f → c.file = some f → b.page ≠ c.page :=
    ⟨fun _ _ apart f file file' => (apart f file' file).symm⟩
  exact pool.once.forall inside inside' other f file file' page

theorem PoolHolds.read {fid : Nonneg} {page : Nat} {rest : List Buffer}
    (pool : PoolHolds w disk buffers) (read : dRead disk fid page buffers = some (rest, b)) :
    PoolHolds w disk (rest ++ [b]) := by
  have facts := dRead_facts pool read
  -- a page has one buffer at most, and `DRead` gives that one
  have found : ∀ c ∈ buffers, c.isPage fid page = true → c = b := by
    intro c inside onPage
    obtain ⟨file, number⟩ := isPage_iff.mp onPage
    unfold dRead at read
    split at read
    · rename_i d hit
      cases read
      obtain ⟨file', number'⟩ := isPage_iff.mp (find?_some hit)
      exact pool.unique inside (mem_of_find?_eq_some hit) file file' (number.trans number'.symm)
    · rename_i absent
      exact absurd onPage (List.find?_eq_none.mp absent c inside)
  constructor
  · intro c inside f file
    rcases List.mem_append.mp inside with old | new
    · exact pool.held c (facts.sub.subset old) f file
    cases List.mem_singleton.mp new
    rw [facts.file] at file
    cases file
    rw [facts.at_page]
    exact ⟨facts.length, facts.held⟩
  · intro f n clean
    apply pool.clean f n
    intro c inside file number
    cases onPage : c.isPage fid page with
    | true =>
      have same := found c inside onPage
      exact clean c (mem_append_right _ (List.mem_singleton.mpr same)) file number
    | false =>
      by_contra dirty
      have kept := facts.dirty c inside (by simpa using dirty) onPage
      exact dirty (clean c (mem_append_left _ kept) file number)
  · rw [pairwise_append]
    refine ⟨pool.once.sublist facts.sub, pairwise_singleton .., ?_⟩
    intro c old d new f file file' number
    cases List.mem_singleton.mp new
    rw [facts.file] at file'
    cases file'
    have apart := facts.apart c old
    rw [isPage_iff.mpr ⟨file, number.trans facts.at_page⟩] at apart
    cases apart

structure Quiet (s : Store) : Prop where
  pool : PoolHolds s.disk.image s.disk s.buffers
  /-- What is still dirty has lost its page. -/
  saved : ∀ b ∈ s.buffers, b.dirty = true → b.file = none
  usable : ∃ b ∈ s.buffers, b.dirty = false

theorem Quiet.read {fid : Nonneg} {page : Nat} {rest : List Buffer} (quiet : Quiet s)
    (read : dRead s.disk fid page s.buffers = some (rest, b)) : Quiet { s with buffers := rest ++ [b] } := by
  have facts := dRead_facts quiet.pool read
  have clean : b.dirty = false := by
    unfold dRead at read
    split at read
    · rename_i c hit
      cases read
      by_contra dirty
      have lost := quiet.saved b (mem_of_find?_eq_some hit) (by simpa using dirty)
      rw [facts.file] at lost
      cases lost
    · obtain ⟨left, -, same⟩ := Option.map_eq_some_iff.mp read
      cases same
      rfl
  refine ⟨quiet.pool.read read, ?_, b, by simp, clean⟩
  intro c inside dirty
  rcases List.mem_append.mp inside with old | new
  · exact quiet.saved c (facts.sub.subset old) dirty
  · cases List.mem_singleton.mp new
    rw [clean] at dirty
    cases dirty

theorem length_bytesOf (file : List UInt8) (apos alen : Nat) : (bytesOf file apos alen).length = alen := by
  rw [bytesOf, length_map, length_range]

theorem bytesOf_append (file : List UInt8) (apos m n : Nat) :
    bytesOf file apos m ++ bytesOf file (apos + m) n = bytesOf file apos (m + n) := by
  simp only [bytesOf, range_add, map_append, map_map, Function.comp_def, Nat.add_assoc]

theorem pread_page {data file : List UInt8} {apos len : Nat} (length : data.length = pageSize)
    (held : ∀ i < pageSize, byteAt data i = byteAt file (apos / pageSize * pageSize + i))
    (fits : len ≤ pageSize - apos % pageSize) : pread data (apos % pageSize) len = bytesOf file apos len := by
  have split : apos / pageSize * pageSize + apos % pageSize = apos := Nat.div_add_mod' ..
  apply ext_getElem
  · rw [length_pread, length_bytesOf, length]
    omega
  intro i inside inside'
  rw [length_bytesOf] at inside'
  have same := held (apos % pageSize + i) (by omega)
  rw [byteAt, getD_eq_getElem _ _ (by omega), ← Nat.add_assoc, split] at same
  simp only [pread, getElem_take, getElem_drop, bytesOf, getElem_map, getElem_range, same]

theorem Quiet.readPages {s : Store} {afile : Nonneg} {fuel apos alen : Nat} (quiet : Quiet s) (enough : alen ≤ fuel) :
    (readPages s.disk afile fuel apos alen s.buffers).1 = some (bytesOf (s.disk.file afile.word) apos alen) ∧
      Quiet { s with buffers := (readPages s.disk afile fuel apos alen s.buffers).2 } := by
  induction fuel generalizing apos alen s with
  | zero =>
    cases Nat.le_zero.mp enough
    exact ⟨rfl, quiet⟩
  | succ fuel ih =>
    rw [Ubik.readPages]
    split
    · rename_i done
      rw [done]
      exact ⟨rfl, quiet⟩
    rename_i more
    obtain ⟨rest, b, read⟩ := @dRead_isSome s.disk afile (apos / pageSize) _ quiet.usable
    have small : apos % pageSize < pageSize := Nat.mod_lt _ (by decide)
    have facts := dRead_facts quiet.pool read
    have shorter : alen - min (pageSize - apos % pageSize) alen ≤ fuel := by omega
    obtain ⟨later, after⟩ := @ih _ (apos + min (pageSize - apos % pageSize) alen)
      (alen - min (pageSize - apos % pageSize) alen) (quiet.read read) shorter
    simp only [read]
    refine ⟨?_, after⟩
    rw [later, Option.map_some, pread_page facts.length facts.held (Nat.min_le_left ..), bytesOf_append]
    congr 2
    omega

theorem PoolHolds.readPages {w : Image} {disk : Disk} {afile : Nonneg} {fuel apos alen : Nat} {buffers : List Buffer}
    (pool : PoolHolds w disk buffers) (some : buffers ≠ []) :
    PoolHolds w disk (readPages disk afile fuel apos alen buffers).2 ∧ (readPages disk afile fuel apos alen buffers).2 ≠ [] := by
  induction fuel generalizing apos alen buffers with
  | zero => exact ⟨pool, some⟩
  | succ fuel ih =>
    rw [Ubik.readPages]
    split
    · exact ⟨pool, some⟩
    split
    · exact ⟨pool, some⟩
    · rename_i rest b read
      exact ih (pool.read read) (by simp)

theorem PoolHolds.fillPages {disk : Disk} {afile : Nonneg} {fuel apos : Nat} {abuffer : List UInt8} {w : Image}
    {buffers : List Buffer} (pool : PoolHolds w disk buffers) (some : buffers ≠ []) :
    (∃ w, PoolHolds w disk (fillPages disk afile fuel apos abuffer buffers).1) ∧
      (fillPages disk afile fuel apos abuffer buffers).1 ≠ [] := by
  induction fuel generalizing apos abuffer w buffers with
  | zero => exact ⟨⟨w, pool⟩, some⟩
  | succ fuel ih =>
    rw [Ubik.fillPages]
    split
    · exact ⟨⟨w, pool⟩, some⟩
    rename_i left
    simp only [List.isEmpty_iff] at left
    split
    · exact ⟨⟨w, pool⟩, some⟩
    rename_i rest b read
    have small : apos % pageSize < pageSize := Nat.mod_lt _ (by decide)
    have positive : 0 < abuffer.length := List.length_pos_iff.mpr left
    have size : (abuffer.take (min (pageSize - apos % pageSize) abuffer.length)).length =
        min (pageSize - apos % pageSize) abuffer.length := length_take_of_le (Nat.min_le_right ..)
    exact ih (pool.write (ne_nil_of_length_pos (by omega)) (by omega) read) (by simp)

theorem PoolHolds.clean_held (pool : PoolHolds w disk buffers)
    (inside : b ∈ buffers) (clean : b.dirty = false) (file : b.file = some f) :
    b.data.length = pageSize ∧ ∀ i < pageSize, byteAt b.data i = disk.image f (b.page * pageSize + i) := by
  obtain ⟨length, held⟩ := pool.held b inside f file
  refine ⟨length, fun i small => ?_⟩
  rw [held i small]
  apply pool.clean f b.page _ i small
  intro c inside' file' page
  rw [pool.unique inside' inside file' file page]
  exact clean

theorem PoolHolds.abort (pool : PoolHolds w s.disk s.buffers) (some : s.buffers ≠ []) : Quiet (udiskAbort o s) := by
  have washed : ∀ b ∈ dAbort s.buffers, b.dirty = false := by
    intro b inside
    rcases mem_dlru.mp inside with ⟨c, -, -, rfl⟩ | ⟨-, clean⟩
    · rfl
    · exact clean
  refine ⟨⟨?_, fun _ _ _ _ _ => rfl, once_dlru (fun _ => rfl) pool.once⟩, ?_, ?_⟩
  · intro b inside f file
    obtain ⟨old, clean⟩ := mem_dlru_of_file (fun _ => rfl) inside file
    exact pool.clean_held old clean file
  · intro b inside dirty
    rw [washed b inside] at dirty
    cases dirty
  · obtain ⟨b, inside⟩ := exists_mem_of_ne_nil _ (dlru_ne_nil some)
    exact ⟨b, inside, washed b inside⟩

theorem PoolHolds.invalidate {w : Image} {disk disk' : Disk} {buffers : List Buffer} {afile : Nonneg}
    {activeTruncs : List (Nonneg × Nat)} (pool : PoolHolds w disk buffers)
    (others : ∀ f, f ≠ afile → disk'.file f.word = disk.file f.word) :
    PoolHolds (fun f p => if f = afile then disk'.image f p else w f p) disk'
      (udiskInvalidate afile ⟨disk', buffers, activeTruncs⟩).buffers := by
  refine ⟨?_, ?_, once_dlru (fun _ => rfl) pool.once⟩
  · intro b inside f file
    obtain ⟨old, kept⟩ := mem_dlru_of_file (fun _ => rfl) inside file
    have other : f ≠ afile := by
      rintro rfl
      simp [file] at kept
    simpa only [if_neg other] using pool.held b old f file
  intro f n clean i small
  split
  · rfl
  rename_i other
  have same := pool.clean f n
  rw [Disk.image, others f other]
  apply same _ i small
  intro b inside file page
  exact clean b (mem_dlru.mpr (.inr ⟨inside, by simp [file, other]⟩)) file page

theorem Quiet.invalidate {s : Store} {disk' : Disk} {afile : Nonneg} (quiet : Quiet s)
    (others : ∀ f, f ≠ afile → disk'.file f.word = s.disk.file f.word) :
    Quiet (udiskInvalidate afile { s with disk := disk' }) := by
  have contents : (fun f p => if f = afile then disk'.image f p else s.disk.image f p) = disk'.image := by
    funext f p
    split
    · rfl
    · rename_i other
      rw [Disk.image, Disk.image, others f other]
  have pool := @PoolHolds.invalidate _ _ disk' _ _ s.activeTruncs quiet.pool others
  rw [contents] at pool
  refine ⟨pool, ?_, ?_⟩
  · intro b inside dirty
    rcases mem_dlru.mp inside with ⟨c, -, -, rfl⟩ | ⟨old, -⟩
    · rfl
    · exact quiet.saved b old dirty
  obtain ⟨b, inside, clean⟩ := quiet.usable
  cases chosen : decide (b.file = some afile) with
  | true => exact ⟨_, mem_dlru.mpr (.inl ⟨b, inside, chosen, rfl⟩), clean⟩
  | false => exact ⟨b, mem_dlru.mpr (.inr ⟨inside, chosen⟩), clean⟩

structure TruncPool (truncs : List (Nonneg × Nat)) (buffers after : List Buffer) : Prop where
  kept : ∀ b ∈ after, ∀ f, b.file = some f → b ∈ buffers ∧ ∀ t, (f, t) ∈ truncs → b.page < (t + pageSize - 1) / pageSize
  once : after.Pairwise fun b c => ∀ f, b.file = some f → c.file = some f → b.page ≠ c.page
  usable : (∃ b ∈ buffers, b.dirty = false) → ∃ b ∈ after, b.dirty = false

theorem doTruncs_buffers (s : Store) :
    (doTruncs s).buffers = s.activeTruncs.foldl (fun buffers tt => dTrunc tt.1 tt.2 buffers) s.buffers := by
  have general : ∀ (truncs : List (Nonneg × Nat)) (s : Store),
      (truncs.foldl (fun s tt => { s with buffers := dTrunc tt.1 tt.2 s.buffers
                                          disk := uphysTruncate tt.1.word tt.2 s.disk }) s).buffers =
        truncs.foldl (fun buffers tt => dTrunc tt.1 tt.2 buffers) s.buffers := by
    intro truncs
    induction truncs with
    | nil => exact fun _ => rfl
    | cons tt truncs ih => exact fun s => ih _
  exact general ..

theorem truncPool (truncs : List (Nonneg × Nat))
    (once : buffers.Pairwise fun b c => ∀ f, b.file = some f → c.file = some f → b.page ≠ c.page) :
    TruncPool truncs buffers (truncs.foldl (fun buffers tt => dTrunc tt.1 tt.2 buffers) buffers) := by
  induction truncs generalizing buffers with
  | nil =>
    exact ⟨fun b inside f _ => ⟨inside, fun _ listed => by cases listed⟩, once, id⟩
  | cons tt truncs ih =>
    have first := @once_dlru (fun b => decide (b.file = some tt.1 ∧ (tt.2 + pageSize - 1) / pageSize ≤ b.page))
      (fun b => { b with file := none }) _ (fun _ => rfl) once
    obtain ⟨kept, after, usable⟩ := ih first
    refine ⟨?_, after, ?_⟩
    · intro b inside f file
      obtain ⟨middle, below⟩ := kept b inside f file
      obtain ⟨old, stays⟩ := mem_dlru_of_file (fun _ => rfl) middle file
      refine ⟨old, fun t listed => ?_⟩
      rcases List.mem_cons.mp listed with rfl | later
      · simpa [file] using stays
      · exact below t later
    · intro available
      apply usable
      obtain ⟨b, inside, clean⟩ := available
      cases chosen : decide (b.file = some tt.1 ∧ (tt.2 + pageSize - 1) / pageSize ≤ b.page) with
      | true => exact ⟨_, mem_dlru.mpr (.inl ⟨b, inside, chosen, rfl⟩), clean⟩
      | false => exact ⟨b, mem_dlru.mpr (.inr ⟨inside, chosen⟩), clean⟩

theorem mem_dSync (inside : b ∈ (dSync s).buffers) :
    ∃ c ∈ s.buffers, b.file = c.file ∧ b.page = c.page ∧ b.data = c.data ∧ (b.dirty = true → b.file = none) := by
  obtain ⟨c, old, rfl⟩ := List.mem_map.mp inside
  refine ⟨c, old, rfl, rfl, rfl, ?_⟩
  simp

theorem dSync_usable (left : PoolLeft s) : ∃ b ∈ (dSync s).buffers, b.dirty = false := by
  obtain ⟨b, inside, some⟩ := left
  refine ⟨_, List.mem_map.mpr ⟨b, inside, rfl⟩, ?_⟩
  cases on : b.dirty with
  | false => rfl
  | true => simpa using some on

theorem PoolHolds.commit (pool : PoolHolds w s.disk s.buffers)
    (once : (s.activeTruncs.map Prod.fst).Nodup) (clean : CutClean s) (left : PoolLeft s) (v : Label) :
    Quiet (udiskCommit o v s) := by
  have logged : PoolHolds w (udiskLogEnd o v s.disk) s.buffers := ⟨pool.held, pool.clean, pool.once⟩
  have flushed := dFlush_image (s := { s with disk := udiskLogEnd o v s.disk }) logged
  have contents : ∀ f p, (udiskCommit o v s).disk.image f p =
      (findTrunc s.activeTruncs f).elim (w f p) fun t => if p < t then w f p else 0 := by
    intro f p
    have truncated := truncs_image once (dFlush { s with disk := udiskLogEnd o v s.disk }).disk f p
    rw [flushed] at truncated
    change (doTruncs (dSync (dFlush { s with disk := udiskLogEnd o v s.disk }))).disk.image f p = _
    rw [doTruncs_disk]
    refine truncated.trans ?_
    cases findTrunc s.activeTruncs f <;> rfl
  have synced : (dSync s).buffers.Pairwise fun b c => ∀ f, b.file = some f → c.file = some f → b.page ≠ c.page :=
    List.pairwise_map.mpr pool.once
  have buffers : (udiskCommit o v s).buffers =
      s.activeTruncs.foldl (fun buffers tt => dTrunc tt.1 tt.2 buffers) (dSync s).buffers :=
    doTruncs_buffers (dSync (dFlush { s with disk := udiskLogEnd o v s.disk }))
  have after := truncPool s.activeTruncs synced
  rw [← buffers] at after
  refine ⟨⟨?_, fun _ _ _ _ _ => rfl, after.once⟩, ?_, after.usable (dSync_usable left)⟩
  · intro b inside f file
    obtain ⟨middle, below⟩ := after.kept b inside f file
    obtain ⟨c, old, file', page, data, -⟩ := mem_dSync middle
    obtain ⟨length, held⟩ := pool.held c old f (file' ▸ file)
    rw [data, page]
    refine ⟨length, fun i small => ?_⟩
    rw [contents, held i small]
    cases found : findTrunc s.activeTruncs f with
    | none => rfl
    | some t =>
      obtain ⟨tt, listed, same⟩ := Option.map_eq_some_iff.mp found
      have named : tt.1 = f := by simpa using find?_some listed
      have member : (f, t) ∈ s.activeTruncs := by
        rw [← named, ← same]
        exact mem_of_find?_eq_some listed
      have early := below t member
      by_cases kept : c.page * pageSize + i < t
      · simp only [Option.elim, if_pos kept]
      -- past the cut the page holds zeros
      have onPage : c.page = t / pageSize ∧ t % pageSize ≠ 0 := by
        unfold pageSize at *
        omega
      simp only [Option.elim, if_neg kept]
      rw [← held i small]
      by_contra nonzero
      have split : t / pageSize * pageSize + t % pageSize = t := Nat.div_add_mod' ..
      have zeros : ∀ byte ∈ c.data.drop (t % pageSize), byte = 0 :=
        clean (f, t) member onPage.2 c old (file' ▸ file) onPage.1
      have late : t % pageSize ≤ i := by
        rw [onPage.1] at kept
        omega
      apply nonzero
      rw [byteAt, getD_eq_getElem _ _ (by omega)]
      apply zeros
      rw [mem_drop_iff_getElem]
      exact ⟨i - t % pageSize, by omega, by congr 1; omega⟩
  · intro b inside dirty
    cases file : b.file with
    | none => rfl
    | some f =>
      obtain ⟨middle, -⟩ := after.kept b inside f file
      obtain ⟨-, -, -, -, -, saved⟩ := mem_dSync middle
      exact absurd (saved dirty) (by simp [file])

structure PageCache.Inv (s : PageCache) : Prop where
  pool : ∃ w, PoolHolds w s.store.disk s.store.buffers
  nonempty : s.store.buffers ≠ []
  once : s.phase = .writing → (s.store.activeTruncs.map Prod.fst).Nodup
  quiet : s.phase ≠ .writing → Quiet s.store
  files : s.phase ≠ .idle → s.store.disk.file = s.began

theorem Quiet.nonempty (quiet : Quiet s) : s.buffers ≠ [] := by
  obtain ⟨b, inside, -⟩ := quiet.usable
  exact ne_nil_of_mem inside

theorem Quiet.inv {s : PageCache} (quiet : Quiet s.store) (between : s.phase ≠ .writing)
    (files : s.phase ≠ .idle → s.store.disk.file = s.began) : s.Inv :=
  ⟨⟨_, quiet.pool⟩, quiet.nonempty, fun writing => absurd writing between, fun _ => quiet, files⟩

theorem PageCache.Inv.coherent {s : PageCache} (inv : s.Inv) : s.Coherent := by
  intro between afile apos alen
  have read : (udiskRead afile apos alen s.store).1 = some (bytesOf (s.store.disk.file afile.word) apos.val alen.val) :=
    ((inv.quiet between).readPages (Nat.le_refl alen.val)).1
  refine ⟨read, fun aborted => ?_⟩
  rw [read, inv.files (by rw [aborted]; decide)]

theorem PageCache.Inv.read {s : PageCache} (inv : s.Inv) (afile apos alen : Nonneg) :
    PageCache.Inv { s with store := (udiskRead afile apos alen s.store).2 } := by
  obtain ⟨w, pool⟩ := inv.pool
  obtain ⟨after, some⟩ := @PoolHolds.readPages w s.store.disk afile alen.val apos.val alen.val _ pool inv.nonempty
  exact ⟨⟨w, after⟩, some, inv.once, fun between => ((inv.quiet between).readPages (Nat.le_refl _)).2, inv.files⟩

theorem PageCache.Inv.write {s : PageCache} (inv : s.Inv) (writing : s.phase = .writing) (afile apos : Nonneg)
    (abuffer : List UInt8) : PageCache.Inv { s with store := udiskTryWrite o afile apos abuffer s.store } := by
  obtain ⟨w, pool⟩ := inv.pool
  have logged : PoolHolds w (udiskLogWriteData o afile apos abuffer s.store.disk) s.store.buffers :=
    ⟨pool.held, pool.clean, pool.once⟩
  obtain ⟨after, some⟩ := @PoolHolds.fillPages _ afile abuffer.length apos.val abuffer _ _ logged inv.nonempty
  exact ⟨after, some, fun _ => nodup_expandTruncs (inv.once writing), fun between => absurd writing between, inv.files⟩

theorem PageCache.Inv.invalidate {s : PageCache} (inv : s.Inv) (afile : Nonneg) :
    PageCache.Inv { s with store := udiskInvalidate afile s.store } := by
  obtain ⟨w, pool⟩ := inv.pool
  have after := @PoolHolds.invalidate _ _ s.store.disk _ afile s.store.activeTruncs pool fun _ _ => rfl
  exact ⟨⟨_, after⟩, dlru_ne_nil inv.nonempty, inv.once, fun between => (inv.quiet between).invalidate fun _ _ => rfl, inv.files⟩

theorem PageCache.Inv.install {s : PageCache} (inv : s.Inv) (between : s.phase ≠ .writing) {afile : Nonneg}
    {disk' : Disk} (others : ∀ f, f ≠ afile → disk'.file f.word = s.store.disk.file f.word) :
    PageCache.Inv { s with store := udiskInvalidate afile { s.store with disk := disk' }, phase := .idle } := by
  have quiet := (inv.quiet between).invalidate others
  exact @Quiet.inv ⟨_, .idle, s.began⟩ quiet (by simp) fun busy => absurd rfl busy

theorem PageCache.Inv.step {s s' : PageCache} {call : CacheCall} (inv : s.Inv) (met : CommitsClean s call)
    (taken : s.step o call = some s') : s'.Inv := by
  cases call with
  | begin =>
    obtain ⟨-, same⟩ := Option.ite_none_left_eq_some.mp taken
    cases same
    obtain ⟨w, pool⟩ := inv.pool
    exact ⟨⟨w, pool.held, pool.clean, pool.once⟩, inv.nonempty, fun _ => nodup_nil, fun between => absurd rfl between,
      fun _ => rfl⟩
  | read afile apos alen =>
    cases taken
    exact inv.read afile apos alen
  | write afile apos abuffer short =>
    obtain ⟨writing, same⟩ := Option.ite_none_right_eq_some.mp taken
    cases same
    exact inv.write o writing afile apos abuffer
  | truncate afile alength =>
    obtain ⟨writing, same⟩ := Option.ite_none_right_eq_some.mp taken
    cases same
    obtain ⟨w, pool⟩ := inv.pool
    exact ⟨⟨w, pool.held, pool.clean, pool.once⟩, inv.nonempty, fun _ => nodup_shrinkTruncs (inv.once writing),
      fun between => absurd writing between, inv.files⟩
  | commit version =>
    obtain ⟨writing, same⟩ := Option.ite_none_right_eq_some.mp taken
    cases same
    obtain ⟨w, pool⟩ := inv.pool
    have quiet := pool.commit o (inv.once writing) met.1 met.2 version
    exact @Quiet.inv ⟨_, .idle, s.began⟩ quiet (by simp) fun busy => absurd rfl busy
  | abort =>
    obtain ⟨writing, same⟩ := Option.ite_none_right_eq_some.mp taken
    cases same
    obtain ⟨w, pool⟩ := inv.pool
    have quiet := pool.abort o inv.nonempty
    have files := inv.files (by rw [writing]; decide)
    exact @Quiet.inv ⟨_, .aborted, s.began⟩ quiet (by simp) fun _ => files
  | invalidate afile =>
    cases taken
    exact inv.invalidate afile
  | install afile contents =>
    obtain ⟨between, same⟩ := Option.ite_none_left_eq_some.mp taken
    cases same
    apply inv.install between
    intro f other
    exact if_neg fun words => other (Nonneg.word_inj words)

theorem pageCache_start {s : PageCache} (start : (pageCache o).start s) : s.Inv := by
  obtain ⟨idle, n, positive, pool⟩ := start
  have quiet : Quiet s.store := by
    constructor
    · rw [pool]
      exact poolHolds_dInit ..
    · intro b inside dirty
      rw [pool] at inside
      rw [eq_of_mem_replicate inside]
    · refine ⟨{}, ?_, rfl⟩
      rw [pool, dInit, mem_replicate]
      exact ⟨by omega, rfl⟩
  exact quiet.inv (by rw [idle]; decide) fun busy => absurd idle busy

/-- In every run whose commits leave no page with bytes past a cut, reads between transactions give the bytes of the
    files, and after an abort those from before the transaction. -/
theorem page_cache_coherent {s : PageCache} (reached : (pageCache o).ReachWhere CommitsClean s) : s.Coherent := by
  have inv : s.Inv := reached.invariant (fun _ start => pageCache_start o start)
    fun _ _ _ inv met taken => inv.step o met taken
  exact inv.coherent

def hundredOnesCache : PageCache := { store := hundredOnes, began := hundredOnes.disk.file }

theorem hundredOnesCache_start : (pageCache .little).start hundredOnesCache := ⟨rfl, 20, by decide, rfl⟩

def readThenCut : List CacheCall := [.begin, .read 0 0 1, .truncate 0 10, .commit ⟨2, 2⟩]

def readThenCutEnd : PageCache := ((pageCache .little).run hundredOnesCache readThenCut).get (by decide +kernel)

/-- The commit cuts the file to ten bytes and a read past them still finds a one. -/
theorem stale_past_cut : ¬ ∀ s, (pageCache .little).Reach s → s.Coherent := by
  intro coherent
  have ran : (pageCache .little).run hundredOnesCache readThenCut = some readThenCutEnd := (Option.some_get _).symm
  have reached := Machine.Reach.run (.start hundredOnesCache_start) ran
  obtain ⟨read, -⟩ := coherent _ reached (by decide +kernel) 0 50 1
  revert read
  decide +kernel

/-- Write over the cut, in a file whose pages are not in the pool, cut at a page and abort a write. -/
def writeThenAbort : List CacheCall :=
  [.begin, .write 0 2000 [8] (by decide), .truncate 1 0, .commit ⟨2, 2⟩, .begin, .write 0 0 [9] (by decide), .abort]

def writeThenAbortEnd : PageCache :=
  ((pageCache .little).runWhere CommitsClean hundredOnesCache writeThenAbort).get (by decide +kernel)

theorem page_cache_coherent_writeThenAbort : writeThenAbortEnd.Coherent := by
  have ran : (pageCache .little).runWhere CommitsClean hundredOnesCache writeThenAbort = some writeThenAbortEnd :=
    (Option.some_get _).symm
  exact page_cache_coherent .little (Machine.ReachWhere.runWhere (.start hundredOnesCache_start) ran)

end OpenAFS.Ubik
