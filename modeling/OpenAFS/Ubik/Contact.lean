import OpenAFS.Ubik.DiskBuffer
import OpenAFS.Ubik.Types

namespace OpenAFS.Ubik

open List

def uNoQuorum : Int := 5376
def uNotSync : Int := 5377
def uInternal : Int := 5380
def uSync : Int := 5381
def uIOError : Int := 5379
def uDone : Int := 5388
def uTwoEnds : Int := 5387

/-- `struct ubik_iovec`: one of the writes collected in a transaction. -/
structure UbikIovec where
  file : Nonneg
  position : Nonneg
  length : Nonneg
  deriving DecidableEq, Repr

/-- The bytes that belong to an entry, from `offset` on in the shared buffer. -/
def UbikIovec.bytes (iobuf : List UInt8) (offset : Nat) (v : UbikIovec) : List UInt8 :=
  (iobuf.drop offset).take v.length.val

theorem UbikIovec.short (iobuf : List UInt8) (offset : Nat) (v : UbikIovec) : (v.bytes iobuf offset).length < 2 ^ 31 :=
  Nat.lt_of_le_of_lt (length_take_le ..) v.length.isLt

/-- The procedures `ContactQuorum` is called with, and their arguments besides the tid; `DISK_Write` takes the
    place of `DISK_WriteV` where that one is not known. -/
inductive DiskCall where
  | begin
  | lock
  | writeV (iovec : List UbikIovec) (iobuf : List UInt8)
  | write (file position : Nonneg) (bytes : List UInt8) (short : bytes.length < 2 ^ 31)
  | truncate (file length : Nonneg)
  | setVersion (old new : UbikVersion)
  | commit
  | releaseLocks
  | abort
  deriving Repr

variable {σ : Type*}

/-- What the loop of `ContactQuorum` finds when it comes to a server: its entry, the version of the local
    database, and what stands at the other end of its connection. -/
structure Turn (σ : Type*) where
  ts : UbikServer
  version : UbikVersion
  remote : σ

/-- `DISK_Write` calls instead of one `DISK_WriteV`. -/
def unbulk (rpc : DiskCall → σ → Int × σ) (iobuf : List UInt8) : List UbikIovec → Nat → Int → σ → Int × σ
  | [], _, code, s => (code, s)
  | v :: iovec, offset, _, s =>
    if iobuf.length < offset + v.length.val then (uInternal, s)
    else
      let (code, s) := rpc (.write v.file v.position (v.bytes iobuf offset) (v.short iobuf offset)) s
      if code ≠ 0 then (code, s) else unbulk rpc iobuf iovec (offset + v.length.val) 0 s

def callServer (rpc : DiskCall → σ → Int × σ) (aproc : DiskCall) (s : σ) : Int × σ :=
  match aproc, rpc aproc s with
  | .writeV iovec iobuf, (code, s) =>
    -- an RPC interface mismatch
    if code ≤ -450 ∧ -500 < code then unbulk rpc iobuf iovec 0 code s else (code, s)
  | _, result => result

def Turn.called (t : Turn σ) : Bool := t.ts.up && t.ts.currentDB

structure Contact (σ : Type*) where
  rcode : Int := 0
  okcalls : Nat := 0
  servers : List (UbikServer × σ) := []

def contactServer (rpc : DiskCall → σ → Int × σ) (aproc : DiskCall) (stamp : Bool) (c : Contact σ) (t : Turn σ) : Contact σ :=
  if t.called = false then { c with servers := c.servers ++ [({ t.ts with currentDB := false }, t.remote)] }
  else
    let (code, remote) := callServer rpc aproc t.remote
    if code ≠ 0 then
      { c with
        rcode := code
        servers := c.servers ++ [({ t.ts with up := false, currentDB := false, beaconSinceDown := false }, remote)] }
    else
      { c with
        okcalls := c.okcalls + if t.ts.isClone then 0 else 1
        servers := c.servers ++ [(if stamp then { t.ts with version := t.version } else t.ts, remote)] }

/-- `ContactQuorum` up to its return. -/
def contactQuorum (rpc : DiskCall → σ → Int × σ) (aproc : DiskCall) (stamp : Bool) (turns : List (Turn σ)) : Contact σ :=
  turns.foldl (contactServer rpc aproc stamp) {}

def Contact.code (quorum : Nat) (c : Contact σ) : Int := if quorum ≤ c.okcalls + 1 then 0 else c.rcode

variable {rpc : DiskCall → σ → Int × σ} {aproc : DiskCall} {stamp : Bool}

def Turn.Failed (rpc : DiskCall → σ → Int × σ) (aproc : DiskCall) (t : Turn σ) : Prop :=
  t.called = true ∧ (callServer rpc aproc t.remote).1 ≠ 0

instance (rpc : DiskCall → σ → Int × σ) (aproc : DiskCall) (t : Turn σ) : Decidable (t.Failed rpc aproc) :=
  inferInstanceAs (Decidable (_ ∧ _))

def Turn.counts (t : Turn σ) : Bool := t.called && !t.ts.isClone

def Turn.ok (rpc : DiskCall → σ → Int × σ) (aproc : DiskCall) (t : Turn σ) : Bool :=
  t.counts && decide ((callServer rpc aproc t.remote).1 = 0)

variable (turns : List (Turn σ))

theorem contactQuorum_append (t : Turn σ) : contactQuorum rpc aproc stamp (turns ++ [t]) =
      contactServer rpc aproc stamp (contactQuorum rpc aproc stamp turns) t := by
  rw [contactQuorum, foldl_append]
  rfl

theorem okcalls_contactServer (c : Contact σ) (t : Turn σ) :
    (contactServer rpc aproc stamp c t).okcalls = c.okcalls + if t.ok rpc aproc then 1 else 0 := by
  unfold contactServer
  by_cases called : t.called = true
  · by_cases fine : (callServer rpc aproc t.remote).1 = 0
    · cases clone : t.ts.isClone <;> simp [Turn.ok, Turn.counts, called, fine, clone]
    · simp [Turn.ok, Turn.counts, called, fine]
  · simp [Turn.ok, Turn.counts, called]

theorem rcode_contactServer (c : Contact σ) (t : Turn σ) : (contactServer rpc aproc stamp c t).rcode =
      if t.Failed rpc aproc then (callServer rpc aproc t.remote).1 else c.rcode := by
  unfold contactServer
  by_cases called : t.called = true
  · by_cases fine : (callServer rpc aproc t.remote).1 = 0
    · simp [Turn.Failed, called, fine]
    · simp [Turn.Failed, called, fine]
  · simp [Turn.Failed, called]

theorem okcalls_contactQuorum :
    (contactQuorum rpc aproc stamp turns).okcalls = turns.countP (Turn.ok rpc aproc) := by
  induction turns using List.reverseRecOn with
  | nil => rfl
  | append_singleton turns t ih =>
    rw [contactQuorum_append, okcalls_contactServer, ih, countP_append, countP_singleton]

theorem rcode_contactQuorum :
    (contactQuorum rpc aproc stamp turns).rcode = 0 ↔ ∀ t ∈ turns, ¬ t.Failed rpc aproc := by
  induction turns using List.reverseRecOn with
  | nil => simp [contactQuorum]
  | append_singleton turns t ih =>
    rw [contactQuorum_append, rcode_contactServer]
    by_cases failed : t.Failed rpc aproc
    · rw [if_pos failed]
      constructor
      · intro zero
        exact absurd zero failed.2
      · intro none
        exact absurd failed (none t (by simp))
    rw [if_neg failed, ih]
    simp only [mem_append, mem_singleton]
    constructor
    · rintro earlier u (old | rfl)
      · exact earlier u old
      · exact failed
    · intro all u old
      exact all u (.inl old)

theorem countP_ok {turns : List (Turn σ)} (fine : ∀ t ∈ turns, ¬ t.Failed rpc aproc) :
    turns.countP (Turn.ok rpc aproc) = turns.countP Turn.counts := by
  apply countP_congr
  intro t inside
  have succeeded : t.called = true → (callServer rpc aproc t.remote).1 = 0 := by
    intro called
    by_contra failed
    exact fine t inside ⟨called, failed⟩
  simp only [Turn.ok, Turn.counts, Bool.and_eq_true, decide_eq_true_eq, and_iff_left_iff_imp]
  exact fun counts => succeeded counts.1

def QuorumReached (quorum : Nat) (rpc : DiskCall → σ → Int × σ) (aproc : DiskCall) (turns : List (Turn σ)) : Prop :=
  quorum ≤ turns.countP (Turn.ok rpc aproc) + 1

def FailsOrEnough (quorum : Nat) (rpc : DiskCall → σ → Int × σ) (aproc : DiskCall) (turns : List (Turn σ)) : Prop :=
  (∃ t ∈ turns, t.Failed rpc aproc) ∨ quorum ≤ turns.countP Turn.counts + 1

theorem contactQuorum_sound (quorum : Nat) (turns : List (Turn σ)) :
    ((contactQuorum rpc aproc stamp turns).code quorum = 0 → QuorumReached quorum rpc aproc turns) ↔
      FailsOrEnough quorum rpc aproc turns := by
  have code := @rcode_contactQuorum σ rpc aproc stamp turns
  unfold Contact.code QuorumReached FailsOrEnough
  rw [okcalls_contactQuorum]
  by_cases fine : ∀ t ∈ turns, ¬ t.Failed rpc aproc
  · rw [code.mpr fine, countP_ok fine]
    have none : ¬ ∃ t ∈ turns, t.Failed rpc aproc := fun ⟨t, inside, failed⟩ => fine t inside failed
    simp [none]
  have nonzero := mt code.mp fine
  have some : ∃ t ∈ turns, t.Failed rpc aproc := by simpa using fine
  simp only [some, true_or, iff_true]
  intro zero
  split at zero
  · assumption
  · exact absurd zero nonzero

theorem mem_servers {turns : List (Turn σ)} {e : UbikServer × σ}
    (inside : e ∈ (contactQuorum rpc aproc stamp turns).servers) : ∃ t ∈ turns, e.1.addr = t.ts.addr ∧
      (e.1.up = true → e.1.currentDB = true → callServer rpc aproc t.remote = (0, e.2)) := by
  induction turns using List.reverseRecOn with
  | nil => simp [contactQuorum] at inside
  | append_singleton turns t ih =>
    have last : e ∈ (contactQuorum rpc aproc stamp turns).servers ∨ e.1.addr = t.ts.addr ∧
        (e.1.up = true → e.1.currentDB = true → callServer rpc aproc t.remote = (0, e.2)) := by
      rw [contactQuorum_append, contactServer] at inside
      dsimp only at inside
      split at inside
      · rcases List.mem_append.mp inside with old | new
        · exact .inl old
        · cases List.mem_singleton.mp new
          exact .inr ⟨rfl, fun _ current => absurd current (by simp)⟩
      split at inside
      · rcases List.mem_append.mp inside with old | new
        · exact .inl old
        · cases List.mem_singleton.mp new
          exact .inr ⟨rfl, fun up => absurd up (by simp)⟩
      rename_i fine
      rcases List.mem_append.mp inside with old | new
      · exact .inl old
      · cases List.mem_singleton.mp new
        exact .inr ⟨by dsimp only; split <;> rfl, fun _ _ => Prod.ext (not_not.mp fine) rfl⟩
    rcases last with old | new
    · obtain ⟨u, earlier, facts⟩ := ih old
      exact ⟨u, mem_append_left _ earlier, facts⟩
    · exact ⟨t, by simp, new⟩

end OpenAFS.Ubik
