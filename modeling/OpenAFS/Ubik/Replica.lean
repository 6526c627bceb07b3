import OpenAFS.Ubik.Batch
import OpenAFS.Ubik.Transaction

namespace OpenAFS.Ubik

open Lib List

/-- The other end of a call: `ubik_currentTrans` with its `TRDONE` flag, the calls that have changed the database
    in it, and those of the transaction last committed. -/
structure Replica where
  trans : Option Bool := none
  ops : List DiskOp := []
  committed : Option (List DiskOp) := none
  deriving Repr

/-- What becomes of a call: whether it arrives, after how many writes the log there fails, and the error code that
    takes the place of the reply, if it is not 0. -/
structure CallFate where
  arrives : Bool := true
  writes : Option Nat := none
  answer : Int := 0
  deriving DecidableEq, Repr

def Replica.change (writes : Option Nat) (op : DiskOp) (r : Replica) : Int × Replica :=
  if r.trans ≠ some false then (uDone, r)
  else if writes = some 0 then (uIOError, r)
  else (0, { r with ops := r.ops ++ [op] })

def sdiskWriteV (iobuf : List UInt8) : List UbikIovec → Nat → Option Nat → Replica → Int × Replica
  | [], _, _, r => (0, r)
  | v :: iovec, offset, writes, r =>
    if iobuf.length < offset + v.length.val then (uInternal, r)
    else
      let (code, r) := r.change writes (.write v.file v.position (v.bytes iobuf offset) (v.short iobuf offset))
      if code ≠ 0 then (code, r)
      else sdiskWriteV iobuf iovec (offset + v.length.val) (writes.map Nat.pred) r

/-- The procedures of `remote.c`. A transaction of another sync site that begins ends this one, so every call that
    finds a transaction finds its own. -/
def sdisk (writes : Option Nat) (aproc : DiskCall) (r : Replica) : Int × Replica :=
  match aproc, r.trans with
  | .begin, _ => if writes = some 0 then (uIOError, { r with trans := none }) else (0, { r with trans := some false, ops := [] })
  | _, none => (uSync, r)
  | .lock, some done => (if done then uDone else 0, r)
  | .writeV iovec iobuf, some _ => sdiskWriteV iobuf iovec 0 writes r
  | .write file position bytes short, some _ => r.change writes (.write file position bytes short)
  | .truncate file length, some _ => r.change writes (.truncate file length)
  | .setVersion _ _, some _ => (0, r)
  | .commit, some done =>
    if done then (uTwoEnds, r)
    else if writes = some 0 then (uIOError, r)
    else (0, { r with trans := some true, committed := some r.ops })
  | .releaseLocks, some _ => (0, { r with trans := none })
  | .abort, some _ => (0, { r with trans := none })

/-- A replica, and what will become of the next calls to it; a call past those arrives and is answered. -/
structure Peer where
  replica : Replica := {}
  fates : List CallFate := []
  deriving Repr

def Peer.rpc (aproc : DiskCall) (p : Peer) : Int × Peer :=
  let fate := p.fates.headD {}
  if fate.arrives = false then (if fate.answer = 0 then -1 else fate.answer, { p with fates := p.fates.tail })
  else
    let (code, r) := sdisk fate.writes aproc p.replica
    (if fate.answer = 0 then code else fate.answer, { replica := r, fates := p.fates.tail })

/-- What has happened to the transaction at a replica since the last call: nothing, a restart (or a beacon, or
    another `DISK_Begin`) has ended it, or `urecovery_AbortAll` has aborted it. -/
inductive Happened where
  | nothing
  | gone
  | aborted
  deriving DecidableEq, Repr

def Happened.apply (r : Replica) : Happened → Replica
  | .nothing => r
  | .gone => { r with trans := none, ops := [] }
  | .aborted => { r with trans := r.trans.map fun _ => true }

/-- What a round meets at a server: the entry as other processes have left it, what happened at the replica, and
    what becomes of the calls of this round. -/
structure Meeting where
  ts : UbikServer
  version : UbikVersion
  happened : Happened := .nothing
  fates : List CallFate := []
  deriving DecidableEq, Repr

def replicaNet : Net Meeting Peer where
  rpc := Peer.rpc
  found w s := ⟨{ w.ts with addr := s.1.addr }, w.version, { replica := w.happened.apply s.2.replica, fates := w.fates }⟩

/-- In every round of the transaction the server was up and current, and stayed so. -/
def StillCurrent {σ : Type*} (t : WriteTrans σ) (addr : Nat) : Prop :=
  ∀ round ∈ t.rounds, ∀ ts ∈ round, ts.addr = addr → ts.up = true ∧ ts.currentDB = true

theorem stillCurrent_of_all {σ : Type*} {t : WriteTrans σ}
    (all : t.rounds.flatten.all (fun ts => ts.up && ts.currentDB) = true) (addr : Nat) : StillCurrent t addr := by
  intro round listed ts known _
  have fine := List.all_eq_true.mp all ts (List.mem_flatten.mpr ⟨round, listed, known⟩)
  simpa using fine

def iovecOps (iobuf : List UInt8) : List UbikIovec → Nat → List DiskOp
  | [], _ => []
  | v :: iovec, offset =>
    .write v.file v.position (v.bytes iobuf offset) (v.short iobuf offset) :: iovecOps iobuf iovec (offset + v.length.val)

theorem iovecOps_writes (iobuf : List UInt8) (iovec : List UbikIovec) (offset : Nat) :
    AllWrites (iovecOps iobuf iovec offset) := by
  induction iovec generalizing offset with
  | nil => exact fun op inside => nomatch inside
  | cons v iovec ih =>
    intro op inside
    rcases List.mem_cons.mp inside with rfl | later
    · exact ⟨_, _, _, _, rfl⟩
    · exact ih _ op later

def Fills (iobuf : List UInt8) (iovec : List UbikIovec) : Prop := (iovec.map fun v => v.length.val).sum = iobuf.length

variable {iobuf buffer : List UInt8} {iovec : List UbikIovec} {offset : Nat} {writes : Option Nat} {r r' : Replica}
  {code : Int} {aproc : DiskCall} {p p' : Peer} {ops : List DiskOp} {t t' : WriteTrans Peer} {w : Weather Meeting}

theorem iovecOps_append {v : UbikIovec}
    (fills : offset + (iovec.map fun v => v.length.val).sum = iobuf.length) (size : v.length.val = buffer.length) :
    iovecOps (iobuf ++ buffer) (iovec ++ [v]) offset =
      iovecOps iobuf iovec offset ++ [.write v.file v.position buffer (size ▸ v.length.isLt)] := by
  induction iovec generalizing offset with
  | nil =>
    have at_end : offset = iobuf.length := by simpa using fills
    have bytes : v.bytes (iobuf ++ buffer) offset = buffer := by
      rw [UbikIovec.bytes, at_end, drop_left, take_of_length_le (Nat.le_of_eq size.symm)]
    simp only [nil_append, iovecOps, bytes]
  | cons u iovec ih =>
    rw [map_cons, sum_cons] at fills
    have bytes : u.bytes (iobuf ++ buffer) offset = u.bytes iobuf offset := by
      rw [UbikIovec.bytes, UbikIovec.bytes, drop_append_of_le_length (by omega),
        take_append_of_le_length (by rw [length_drop]; omega)]
    rw [cons_append, iovecOps, iovecOps, ih (by omega), cons_append]
    simp only [bytes]

theorem change_ok {op : DiskOp} (done : r.change writes op = (0, r')) :
    r.trans = some false ∧ r' = { r with ops := r.ops ++ [op] } := by
  unfold Replica.change at done
  split at done
  · cases done
  rename_i opened
  split at done
  · cases done
  · cases done
    exact ⟨not_not.mp opened, rfl⟩

theorem change_failed {op : DiskOp} (done : r.change writes op = (code, r')) (failed : code ≠ 0) : r' = r := by
  unfold Replica.change at done
  split at done
  · exact (Prod.ext_iff.mp done).2.symm
  · split at done
    · exact (Prod.ext_iff.mp done).2.symm
    · exact absurd (Prod.ext_iff.mp done).1.symm failed

theorem sdiskWriteV_ops (done : sdiskWriteV iobuf iovec offset writes r = (code, r')) :
    r'.trans = r.trans ∧ ∃ pre, pre <+: iovecOps iobuf iovec offset ∧ r'.ops = r.ops ++ pre ∧
      (code = 0 → pre = iovecOps iobuf iovec offset) := by
  induction iovec generalizing offset writes r with
  | nil =>
    cases done
    exact ⟨rfl, [], nil_prefix, by simp, fun _ => rfl⟩
  | cons v iovec ih =>
    rw [sdiskWriteV] at done
    split at done
    · cases done
      exact ⟨rfl, [], nil_prefix, by simp, fun impossible => by cases impossible⟩
    rcases first : r.change writes (.write v.file v.position (v.bytes iobuf offset) (v.short iobuf offset))
      with ⟨code₁, middle⟩
    rw [first] at done
    dsimp only at done
    split at done
    · rename_i failed
      cases done
      have same : r' = r := change_failed first failed
      rw [same]
      exact ⟨rfl, [], nil_prefix, (append_nil _).symm, fun zero => absurd zero failed⟩
    rename_i fine
    cases not_not.mp fine
    obtain ⟨-, rfl⟩ := change_ok first
    obtain ⟨trans, pre, start, ops, all⟩ := ih done
    refine ⟨trans, _ :: pre, prefix_cons_inj _ |>.mpr start, ?_, fun zero => by rw [all zero, iovecOps]⟩
    rw [ops, append_assoc, singleton_append]

theorem rpc_ok (done : p.rpc aproc = (0, p')) : ∃ writes, sdisk writes aproc p.replica = (0, p'.replica) := by
  unfold Peer.rpc at done
  dsimp only at done
  split at done
  · split at done
    · cases done
    · rename_i answered
      exact absurd (Prod.ext_iff.mp done).1 answered
  split at done
  · obtain ⟨code, rest⟩ := Prod.ext_iff.mp done
    exact ⟨_, Prod.ext code (congrArg Peer.replica rest)⟩
  · rename_i answered
    exact absurd (Prod.ext_iff.mp done).1 answered

theorem rpc_writeV (done : p.rpc (.writeV iovec iobuf) = (code, p')) :
    p'.replica.trans = p.replica.trans ∧ ∃ pre, pre <+: iovecOps iobuf iovec 0 ∧
      p'.replica.ops = p.replica.ops ++ pre ∧ (code = 0 → pre = iovecOps iobuf iovec 0) := by
  unfold Peer.rpc at done
  dsimp only at done
  split at done
  · obtain ⟨answer, rest⟩ := Prod.ext_iff.mp done
    have same : p'.replica = p.replica := (congrArg Peer.replica rest).symm
    refine ⟨by rw [same], [], nil_prefix, by rw [same, append_nil], fun zero => ?_⟩
    split at answer
    · omega
    · rename_i answered
      exact absurd (answer.trans zero) answered
  obtain ⟨answer, rest⟩ := Prod.ext_iff.mp done
  have replica := congrArg Peer.replica rest
  unfold sdisk at answer replica
  cases trans : p.replica.trans with
  | none =>
    simp only [trans] at answer replica
    refine ⟨by rw [← replica, trans], [], nil_prefix, by rw [← replica, append_nil], fun zero => ?_⟩
    split at answer
    · exact absurd (answer.trans zero) (by decide)
    · rename_i answered
      exact absurd (answer.trans zero) answered
  | some flag =>
    simp only [trans] at answer replica
    have made : sdiskWriteV iobuf iovec 0 (p.fates.headD {}).writes p.replica = (_, p'.replica) := Prod.ext rfl replica
    obtain ⟨kept, pre, start, ops, all⟩ := sdiskWriteV_ops made
    refine ⟨kept.trans trans, pre, start, ops, fun zero => all ?_⟩
    split at answer
    · exact answer.trans zero
    · rename_i answered
      exact absurd (answer.trans zero) answered

theorem unbulk_ok (done : unbulk Peer.rpc iobuf iovec offset code p = (0, p')) :
    p'.replica.trans = p.replica.trans ∧ p'.replica.ops = p.replica.ops ++ iovecOps iobuf iovec offset := by
  induction iovec generalizing offset code p with
  | nil =>
    cases (Prod.ext_iff.mp done).2
    exact ⟨rfl, (append_nil _).symm⟩
  | cons v iovec ih =>
    rw [unbulk] at done
    split at done
    · cases done
    rcases first : p.rpc (.write v.file v.position (v.bytes iobuf offset) (v.short iobuf offset)) with ⟨code₁, middle⟩
    rw [first] at done
    dsimp only at done
    split at done
    · rename_i failed
      exact absurd (Prod.ext_iff.mp done).1 failed
    rename_i fine
    cases not_not.mp fine
    obtain ⟨writes, made⟩ := rpc_ok first
    obtain ⟨trans, ops⟩ := ih done
    have wrote : p.replica.trans = some false ∧ middle.replica =
        { p.replica with ops := p.replica.ops ++ [.write v.file v.position (v.bytes iobuf offset) (v.short iobuf offset)] } := by
      unfold sdisk at made
      cases open' : p.replica.trans with
      | none =>
        simp only [open'] at made
        cases (Prod.ext_iff.mp made).1
      | some flag =>
        simp only [open'] at made
        exact ⟨open' ▸ (change_ok made).1, (change_ok made).2⟩
    rw [wrote.2] at trans ops
    exact ⟨trans, by rw [ops, iovecOps, append_assoc, singleton_append]⟩

def Holds (rest ops : List DiskOp) (r : Replica) : Prop := r.trans = some false → SameEffect (r.ops ++ rest) ops

theorem Holds.happened {rest : List DiskOp} (held : Holds rest ops r) (h : Happened) : Holds rest ops (h.apply r) := by
  cases h with
  | nothing => exact held
  | gone => exact fun impossible => nomatch impossible
  | aborted =>
    intro impossible
    cases trans : r.trans with
    | none => simp [Happened.apply, trans] at impossible
    | some flag => simp [Happened.apply, trans] at impossible

theorem Holds.writeV (held : Holds (iovecOps iobuf iovec 0) ops p.replica)
    (called : callServer Peer.rpc (.writeV iovec iobuf) p = (0, p')) : Holds [] ops p'.replica := by
  unfold callServer at called
  rcases bulk : p.rpc (.writeV iovec iobuf) with ⟨code, middle⟩
  obtain ⟨trans, pre, start, made, all⟩ := rpc_writeV bulk
  simp only [bulk] at called
  intro open'
  rw [append_nil]
  split at called
  · obtain ⟨trans', made'⟩ := unbulk_ok called
    have same := held ((trans'.trans trans).symm.trans open')
    rw [made', made]
    exact (sameEffect_again start (iovecOps_writes iobuf iovec 0) _).trans same
  obtain ⟨zero, rfl⟩ := Prod.ext_iff.mp called
  have same := held (trans.symm.trans open')
  rw [made, all zero]
  exact same

theorem Holds.truncate {file length : Nonneg} (held : Holds [] ops p.replica)
    (called : callServer Peer.rpc (.truncate file length) p = (0, p')) :
    Holds [] (ops ++ [.truncate file length]) p'.replica := by
  obtain ⟨writes, made⟩ := rpc_ok called
  unfold sdisk at made
  cases trans : p.replica.trans with
  | none =>
    simp only [trans] at made
    cases (Prod.ext_iff.mp made).1
  | some flag =>
    simp only [trans] at made
    obtain ⟨open', same⟩ := change_ok made
    intro _
    rw [same, append_nil]
    have before := held open'
    rw [append_nil] at before
    exact before.append _

theorem Holds.unchanged (idle : aproc = .lock ∨ ∃ old new, aproc = .setVersion old new) (held : Holds [] ops p.replica)
    (called : callServer Peer.rpc aproc p = (0, p')) : Holds [] ops p'.replica := by
  have kept : p'.replica = p.replica := by
    have made : ∃ writes, sdisk writes aproc p.replica = (0, p'.replica) := by
      rcases idle with rfl | ⟨old, new, rfl⟩
      · exact rpc_ok called
      · exact rpc_ok called
    unfold sdisk at made
    cases trans : p.replica.trans with
    | none => rcases idle with rfl | ⟨old, new, rfl⟩ <;> simp [trans] at made <;> cases made.1
    | some flag => rcases idle with rfl | ⟨old, new, rfl⟩ <;> simp [trans] at made <;> simp [made]
  rw [kept]
  exact held

theorem holds_begin (called : callServer Peer.rpc .begin p = (0, p')) : Holds [] [] p'.replica := by
  have answered : p.rpc .begin = (0, p') := called
  obtain ⟨writes, made⟩ := rpc_ok answered
  unfold sdisk at made
  split at made
  · split at made
    · cases (Prod.ext_iff.mp made).1
    have begun := (Prod.ext_iff.mp made).2
    dsimp only at begun
    rw [← begun]
    exact fun _ => .refl []
  all_goals contradiction

theorem Holds.commit (held : Holds [] ops p.replica) (called : callServer Peer.rpc .commit p = (0, p')) :
    ∃ made, p'.replica.committed = some made ∧ SameEffect made ops := by
  obtain ⟨writes, made⟩ := rpc_ok called
  unfold sdisk at made
  cases trans : p.replica.trans with
  | none =>
    simp only [trans] at made
    cases (Prod.ext_iff.mp made).1
  | some flag =>
    simp only [trans] at made
    split at made
    · cases (Prod.ext_iff.mp made).1
    rename_i running
    split at made
    · cases (Prod.ext_iff.mp made).1
    have same := held (by rw [trans, Bool.not_eq_true _ |>.mp running])
    rw [append_nil] at same
    have committed := congrArg Replica.committed (Prod.ext_iff.mp made).2
    exact ⟨p.replica.ops, committed.symm, same⟩

variable {quorum : Nat}

theorem contacted_holds {stamp : Bool} {weather : Nat → Meeting}
    {P Q : Replica → Prop} (before : ∀ e ∈ t.servers, StillCurrent t e.1.addr → P e.2.replica)
    (happens : ∀ r h, P r → P (Happened.apply r h))
    (call : ∀ p p', P p.replica → callServer Peer.rpc aproc p = (0, p') → Q p'.replica) :
    let c := contactQuorum Peer.rpc aproc stamp (t.turns replicaNet weather)
    ∀ e ∈ (t.contacted c).servers, StillCurrent (t.contacted c) e.1.addr → Q e.2.replica := by
  intro c e inside still
  obtain ⟨turn, met, addr, called⟩ := mem_servers inside
  obtain ⟨e₀, listed, rfl⟩ := List.mem_map.mp met
  have last : c.servers.map Prod.fst ∈ (t.contacted c).rounds := mem_append_right _ (List.mem_singleton.mpr rfl)
  obtain ⟨up, current⟩ := still _ last e.1 (mem_map_of_mem inside) rfl
  have earlier : StillCurrent t e₀.1.addr := by
    intro round listed ts known same
    exact still round (mem_append_left _ listed) ts known (same.trans addr.symm)
  exact call _ _ (happens _ _ (before e₀ listed earlier)) (called up current)

structure Batched (t : WriteTrans Peer) : Prop where
  fills : Fills t.iobuf t.iovec
  holds : ∀ e ∈ t.servers, StillCurrent t e.1.addr → Holds (iovecOps t.iobuf t.iovec 0) t.ops e.2.replica

structure Flushed (t : WriteTrans Peer) : Prop where
  empty : t.iovec = [] ∧ t.iobuf = []
  holds : ∀ e ∈ t.servers, StillCurrent t e.1.addr → Holds [] t.ops e.2.replica

theorem Flushed.batched (flushed : Flushed t) : Batched t := by
  obtain ⟨⟨iovec, iobuf⟩, holds⟩ := flushed
  exact ⟨by rw [iovec, iobuf]; rfl, by rw [iovec]; exact holds⟩

theorem ubikFlush_flushed (batched : Batched t) (done : ubikFlush replicaNet quorum w t = .ok t') : Flushed t' := by
  unfold ubikFlush at done
  split at done
  · rename_i none
    cases done
    have iovec := List.isEmpty_iff.mp none
    have holds := batched.holds
    have fills := batched.fills
    rw [iovec] at holds
    rw [Fills, iovec] at fills
    exact ⟨⟨iovec, eq_nil_of_length_eq_zero fills.symm⟩, holds⟩
  split at done
  · cases done
  rcases round : t.contact replicaNet quorum (.writeV t.iovec t.iobuf) false w.flush with code | t₁
  · rw [round] at done
    cases done
  rw [round] at done
  cases done
  obtain ⟨-, rfl⟩ := contact_eq_ok.mp round
  exact ⟨⟨rfl, rfl⟩, contacted_holds batched.holds (fun r h held => held.happened h) fun p p' => Holds.writeV⟩

theorem Flushed.contact {stamp : Bool} {weather : Nat → Meeting} (flushed : Flushed t)
    (call : ∀ p p', Holds [] t.ops p.replica → callServer Peer.rpc aproc p = (0, p') → Holds [] ops p'.replica)
    (done : ({ t with ops := ops } : WriteTrans Peer).contact replicaNet quorum aproc stamp weather = .ok t') :
    Flushed t' := by
  obtain ⟨-, rfl⟩ := contact_eq_ok.mp done
  exact ⟨flushed.empty, contacted_holds (t := { t with ops := ops }) flushed.holds
    (fun r h held => held.happened h) call⟩

theorem collect_batched (batched : Batched t) (done : collect buffer t = .ok t') : Batched t' := by
  unfold collect at done
  split at done
  · rename_i valid
    cases done
    have fills : 0 + (t.iovec.map fun v => v.length.val).sum = t.iobuf.length := (Nat.zero_add _).trans batched.fills
    constructor
    · simp only [Fills, map_append, map_cons, map_nil, sum_append, sum_cons, sum_nil, length_append]
      omega
    intro e inside still open'
    have before := batched.holds e inside still open'
    rw [iovecOps_append fills rfl, ← append_assoc]
    exact before.append _
  · cases done

theorem ubikWriteOnce_batched
    (batched : Batched t) (done : ubikWriteOnce replicaNet quorum w buffer t = .ok t') : Batched t' := by
  obtain ⟨t₁, room, rest⟩ := except_bind_eq_ok.mp done
  have batched₁ : Batched t₁ := by
    split at room
    · exact (ubikFlush_flushed batched room).batched
    · cases room
      exact batched
  split at rest
  · cases rest
  · split at rest
    · cases rest
    · exact collect_batched batched₁ rest

theorem foldlM_batched {α : Type*} {f : WriteTrans Peer → α → Except Int (WriteTrans Peer)}
    (keeps : ∀ t a t', Batched t → f t a = .ok t' → Batched t') {acts : List α}
    (batched : Batched t) (done : acts.foldlM f t = .ok t') : Batched t' := by
  induction acts generalizing t with
  | nil =>
    cases done
    exact batched
  | cons a acts ih =>
    obtain ⟨middle, first, rest⟩ := except_bind_eq_ok.mp done
    exact ih (keeps _ _ _ batched first) rest

theorem runCall_batched {call : TransCall Meeting} (batched : Batched t)
    (done : runCall replicaNet quorum t call = .ok t') : Batched t' := by
  cases call with
  | seek m fileid position =>
    simp only [runCall, ubikSeek] at done
    split at done
    · cases done
    · cases done
      exact ⟨batched.fills, batched.holds⟩
  | write w buffer => exact foldlM_batched (fun _ _ _ => ubikWriteOnce_batched) batched done
  | truncate w length =>
    obtain ⟨t₁, flush, rest⟩ := except_bind_eq_ok.mp done
    have flushed := ubikFlush_flushed batched flush
    split at rest
    · cases rest
    · split at rest
      · cases rest
      · exact (Flushed.contact flushed (fun _ _ held called => held.truncate called) rest).batched
  | setLock w write =>
    simp only [runCall, ubikSetLock] at done
    split at done
    · split at done
      · cases done
      · cases done
        exact batched
    obtain ⟨t₁, flush, rest⟩ := except_bind_eq_ok.mp done
    have flushed := ubikFlush_flushed batched flush
    split at rest
    · cases rest
    · split at rest
      · cases rest
      · exact (Flushed.contact flushed (fun _ _ held called => held.unchanged (.inl rfl) called) rest).batched

theorem beginTrans_flushed {servers : List (UbikServer × Peer)}
    (done : beginTrans replicaNet quorum w servers = .ok t) : Flushed t := by
  unfold beginTrans at done
  split at done
  · cases done
  split at done
  · cases done
  · obtain ⟨-, rfl⟩ := contact_eq_ok.mp done
    exact ⟨⟨rfl, rfl⟩, contacted_holds (P := fun _ => True) (fun _ _ _ => trivial) (fun _ _ _ => trivial)
      fun _ _ _ => holds_begin⟩

theorem beforeCommit_flushed {w : EndWeather Meeting} (batched : Batched t)
    (done : beforeCommit replicaNet quorum w t = .ok t') : Flushed t' := by
  obtain ⟨t₁, flush, rest⟩ := except_bind_eq_ok.mp done
  have flushed := ubikFlush_flushed batched flush
  split at rest
  · cases rest
  obtain ⟨t₂, label, wrote⟩ := except_bind_eq_ok.mp rest
  have flushed₂ : Flushed t₂ := by
    split at label
    · split at label
      · cases label
      · cases label
        exact ⟨flushed.empty, contacted_holds flushed.holds (fun r h held => held.happened h)
          fun _ _ held called => held.unchanged (.inr ⟨_, _, rfl⟩) called⟩
    · cases label
      exact flushed
  split at wrote
  · cases wrote
  · cases wrote
    exact flushed₂

/-- On every server that is still up and current after the commit, whether it took `DISK_WriteV` or single
    `DISK_Write` calls, the calls it committed leave the contents that the local ones do. -/
theorem replicas_agree {first : Weather Meeting} {calls : List (TransCall Meeting)} {last : EndWeather Meeting}
    {servers : List (UbikServer × Peer)} {t : WriteTrans Peer}
    (done : transaction replicaNet quorum first calls last servers = .ok t) :
    ∀ e ∈ t.servers, StillCurrent t e.1.addr →
      ∃ made, e.2.replica.committed = some made ∧ ∀ w, committed made w = committed t.ops w := by
  obtain ⟨t₁, begun, rest⟩ := except_bind_eq_ok.mp done
  obtain ⟨t₂, ran, ended⟩ := except_bind_eq_ok.mp rest
  have batched := foldlM_batched (fun _ _ _ => runCall_batched) (beginTrans_flushed begun).batched ran
  obtain ⟨t₃, before, round⟩ := endTrans_eq_ok.mp ended
  obtain ⟨-, rfl⟩ := contact_eq_ok.mp round
  intro e inside still
  obtain ⟨made, kept, same⟩ := contacted_holds (Q := fun r => ∃ made, r.committed = some made ∧ SameEffect made t₃.ops)
    (beforeCommit_flushed batched before).holds (fun r h held => held.happened h) (fun _ _ => Holds.commit) e inside still
  exact ⟨made, kept, same.committed⟩

def calm : Nat → Meeting := fun _ => { ts := { addr := 0, up := true, currentDB := true }, version := ⟨100, 2⟩ }

def fated (fates : Nat → List CallFate) : Nat → Meeting := fun addr => { calm addr with fates := fates addr }

def calmWeather : Weather Meeting := ⟨syncMoment, calm, syncMoment, 0, calm⟩

/-- Server 2 does not know `DISK_WriteV`; server 3 makes the writes, but its reply is not understood. -/
def mixedWeather : Weather Meeting :=
  { calmWeather with flush := fated fun addr => if addr = 2 then [⟨false, none, -455⟩] else [⟨true, none, -453⟩] }

def mixedRun : Except Int (WriteTrans Peer) :=
  transaction replicaNet 2 calmWeather
    [.seek syncMoment 0 5, .write (fun _ => calmWeather) [1, 2], .seek syncMoment 0 6,
      .write (fun _ => calmWeather) [3], .truncate mixedWeather 7]
    { calmWeather with setlabel := 0, relabelled := ⟨0, 0⟩, setVersion := calm }
    [({ addr := 2 }, {}), ({ addr := 3 }, {})]

theorem replicas_agree_mixed : ∃ t, mixedRun = .ok t ∧ t.servers.length = 2 ∧
    ∀ e ∈ t.servers, ∃ made, e.2.replica.committed = some made ∧ ∀ w, committed made w = committed t.ops w := by
  refine ⟨_, rfl, rfl, fun e inside => ?_⟩
  exact replicas_agree (rfl : mixedRun = .ok _) e inside (stillCurrent_of_all rfl _)

end OpenAFS.Ubik
