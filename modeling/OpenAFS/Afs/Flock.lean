import Mathlib.Data.List.Basic
import OpenAFS.Lib.Machine

namespace OpenAFS.Afs.Flock

open Lib

inductive LockType
  | LockRead
  | LockWrite
  deriving DecidableEq

/-- A process and its parent. -/
structure Proc where
  (pid ppid : Nat)
  other : pid ≠ ppid

structure SimpleLocks where
  type : LockType
  pid : Nat
  deriving DecidableEq

structure VCache where
  slocks : List SimpleLocks
  flockCount : Int
  /-- The lock at the server, by the last `SetLock` or `ReleaseLock` that succeeded. -/
  server : Option LockType
  /-- A `ReleaseLock` has failed since then. -/
  unreleased : Bool
  deriving DecidableEq

/-- The codes with which the calls to the server end, when `afs_Analyze` wants no other try, and whether the early store left a network error. -/
structure Answers where
  (release set : Int)
  networkError : Bool

def EWOULDBLOCK : Int := 11
def EAGAIN : Int := 11
def ETIMEDOUT : Int := 110
def UAEAGAIN : Int := 49733386
def UAEWOULDBLOCK : Int := 49733416

/-- What a `short` keeps of a number. -/
def short (n : Int) : Int := n.bmod (2 ^ 16)

/-- The entry is not the caller's. -/
def lockIdcmp2 (p : Proc) (alp : SimpleLocks) (onlymine : Bool) : Bool :=
  !(p.pid = alp.pid || !onlymine && p.pid = p.ppid)

/-- `lockIdcmp2` without an entry: none is the caller's. -/
def lockIdcmp2All (p : Proc) (slocks : List SimpleLocks) : Bool := slocks.all (p.pid != ·.pid)

/-- The loops that free the caller's entries and count them off, with the code for an entry that is another's. -/
def freeOwn (p : Proc) (onlymine : Bool) (lower : Int → Int) : List SimpleLocks → Int → List SimpleLocks × Int × Int
  | [], count => ([], count, 0)
  | slp :: rest, count =>
    if lockIdcmp2 p slp onlymine then
      let (kept, count, _) := freeOwn p onlymine lower rest count
      (slp :: kept, count, EWOULDBLOCK)
    else freeOwn p onlymine lower rest (lower count)

namespace VCache

def releaseLock (v : VCache) (code : Int) : VCache × Int :=
  (if code = 0 then { v with server := none, unreleased := false } else { v with unreleased := true }, code)

def setLock (v : VCache) (type : LockType) (code : Int) : VCache × Int :=
  (if code = 0 then { v with server := some type, unreleased := false } else v, code)

/-- The caller's readers are freed, or the writer. -/
def unlockOwn (v : VCache) (p : Proc) (onlymine : Bool) : VCache :=
  if 0 < v.flockCount then
    let (kept, count, _) := freeOwn p onlymine (fun n => short (n - 1)) v.slocks v.flockCount
    { v with slocks := kept, flockCount := count }
  else if v.flockCount = -1 then { v with slocks := [], flockCount := 0 }
  else v

/-- `HandleFlock` with `LOCK_UN`. The file is stored early for a writer only. -/
def unlock (v : VCache) (p : Proc) (onlymine : Bool) (a : Answers) : VCache × Int :=
  if lockIdcmp2All p v.slocks || v.flockCount = 0 then (v, 0)
  else
    let w := v.unlockOwn p onlymine
    let (w, code) := if w.flockCount = 0 then w.releaseLock a.release else (w, 0)
    (w, if v.flockCount = -1 && a.networkError then ETIMEDOUT else code)

/-- The first part of a turn of the loop: from shared locks to an exclusive one, or back. -/
def regrade (v : VCache) (p : Proc) (type : LockType) (a : Answers) : VCache × Int :=
  if 0 < v.flockCount ∧ type = .LockWrite ∨ v.flockCount = -1 ∧ type = .LockRead then
    let lower := match type with
      | .LockWrite => fun n => short (n - 1)
      | .LockRead => fun _ => 0
    let (kept, count, code) := freeOwn p true lower v.slocks v.flockCount
    let v := { v with slocks := kept, flockCount := count }
    if code = 0 ∧ count = 0 then v.releaseLock a.release else (v, code)
  else if v.flockCount = -1 ∧ type = .LockWrite then (v, if lockIdcmp2All p v.slocks then EWOULDBLOCK else 0)
  else (v, 0)

/-- The second part: the server is asked for the first lock. -/
def ask (r : VCache × Int) (type : LockType) (a : Answers) : VCache × Int :=
  if r.2 = 0 ∧ r.1.flockCount = 0 then r.1.setLock type a.set else r

def grant (v : VCache) (p : Proc) : LockType → VCache
  | .LockWrite => { v with slocks := [⟨.LockWrite, p.pid⟩], flockCount := -1 }
  | .LockRead => { v with slocks := ⟨.LockRead, p.pid⟩ :: v.slocks, flockCount := short (v.flockCount + 1) }

inductive Outcome
  | returns (code : Int)
  | waits
  deriving DecidableEq

/-- A turn of the loop that sets a lock, for `LOCK_SH` or `LOCK_EX`. One that waits is followed by another, which starts afresh, or by `EINTR`. -/
def lock (v : VCache) (p : Proc) (type : LockType) (nb : Bool) (a : Answers) : VCache × Outcome :=
  let (v, code) := ask (v.regrade p type a) type a
  if code = 0 then (v.grant p type, .returns 0)
  else if (code = EWOULDBLOCK ∨ code = EAGAIN ∨ code = UAEWOULDBLOCK ∨ code = UAEAGAIN) ∧ !nb then (v, .waits)
  else (v, .returns code)

end VCache

/-- What a process does while it holds `avc->lock`. -/
inductive Turn
  | unlock (p : Proc) (onlymine : Bool) (a : Answers)
  | lock (p : Proc) (type : LockType) (nb : Bool) (a : Answers)

def Turn.next (v : VCache) : Turn → VCache
  | .unlock p onlymine a => (v.unlock p onlymine a).1
  | .lock p type nb a => (v.lock p type nb a).1

def flocks : Machine VCache Turn where
  start v := v = ⟨[], 0, none, false⟩
  step v t := some (t.next v)

/-- A `short` counts one entry more. -/
def Roomy (v : VCache) (_ : Turn) : Prop := v.slocks.length + 1 < 2 ^ 15

/-- The locks of a process are the same. -/
def Keeps (v v' : VCache) (pid : Nat) : Prop := v'.slocks.filter (·.pid = pid) = v.slocks.filter (·.pid = pid)

/-- No turn touches the locks of others. One that returns 0 has set its lock, and one that does not has kept the caller's
own locks, unless they are of the other kind. -/
def Turn.Settles (v : VCache) : Turn → Prop
  | .unlock p onlymine a => ∀ pid ≠ p.pid, Keeps v (v.unlock p onlymine a).1 pid
  | .lock p type nb a =>
    (∀ pid ≠ p.pid, Keeps v (v.lock p type nb a).1 pid) ∧
      ((v.lock p type nb a).2 = .returns 0 → ⟨type, p.pid⟩ ∈ (v.lock p type nb a).1.slocks) ∧
      ((v.lock p type nb a).2 ≠ .returns 0 → (∀ l ∈ v.slocks, l.pid = p.pid → l.type = type) →
        (v.lock p type nb a).1.slocks = v.slocks)

/-- The count is that of the entries, and while it is not 0 the server has the lock that they need. -/
structure Counted (v : VCache) : Prop where
  count : v.flockCount = v.slocks.length ∧ (∀ l ∈ v.slocks, l.type = .LockRead) ∨
    v.flockCount = -1 ∧ ∃ pid, v.slocks = [⟨.LockWrite, pid⟩]
  held : v.flockCount ≠ 0 → v.server = some (if v.flockCount = -1 then .LockWrite else .LockRead)

structure Consistent (v : VCache) : Prop extends Counted v where
  free : v.flockCount = 0 → v.server = none ∨ v.unreleased

theorem lockIdcmp2_eq (p : Proc) (l : SimpleLocks) (onlymine : Bool) : lockIdcmp2 p l onlymine = (l.pid != p.pid) := by
  have other := p.other
  by_cases same : p.pid = l.pid
  · simp [lockIdcmp2, same]
  · simp [lockIdcmp2, same, other, Ne.symm same]

theorem lockIdcmp2All_eq (p : Proc) (l : List SimpleLocks) : lockIdcmp2All p l ↔ ∀ slp ∈ l, slp.pid ≠ p.pid := by
  simp only [lockIdcmp2All, List.all_eq_true, bne_iff_ne, ne_comm]

theorem short_of_range {n : Int} (low : 0 ≤ n) (high : n < 2 ^ 15) : short n = n :=
  Int.bmod_eq_of_le (by omega) (by omega)

theorem freeOwn_kept (p : Proc) (onlymine : Bool) (lower : Int → Int) (slocks : List SimpleLocks) (count : Int) :
    (freeOwn p onlymine lower slocks count).1 = slocks.filter (·.pid != p.pid) ∧
      ((freeOwn p onlymine lower slocks count).2.2 = 0 ↔ slocks.filter (·.pid != p.pid) = []) := by
  induction slocks generalizing count with
  | nil => simp [freeOwn]
  | cons l rest ih =>
    unfold freeOwn
    rw [lockIdcmp2_eq, List.filter_cons]
    by_cases own : l.pid != p.pid
    · rw [if_pos own, if_pos own]
      exact ⟨congrArg _ (ih count).1, by simp [EWOULDBLOCK]⟩
    · rw [if_neg own, if_neg own]
      exact ih _

theorem freeOwn_count (p : Proc) (onlymine : Bool) {slocks : List SimpleLocks} {count : Int}
    (low : slocks.length ≤ count) (high : count < 2 ^ 15) :
    (freeOwn p onlymine (fun n => short (n - 1)) slocks count).2.1 =
      count - slocks.length + (slocks.filter (·.pid != p.pid)).length := by
  induction slocks generalizing count with
  | nil => simp [freeOwn]
  | cons l rest ih =>
    rw [List.length_cons] at low
    unfold freeOwn
    rw [lockIdcmp2_eq, List.filter_cons]
    by_cases own : l.pid != p.pid
    · rw [if_pos own, if_pos own]
      dsimp only
      rw [ih (by omega) high, List.length_cons, List.length_cons]
      omega
    · rw [if_neg own, if_neg own, short_of_range (by omega) (by omega), ih (by omega) (by omega), List.length_cons]
      omega

theorem keeps_filter {v v' : VCache} {own pid : Nat} (kept : v'.slocks = v.slocks.filter (·.pid != own))
    (other : pid ≠ own) : Keeps v v' pid := by
  unfold Keeps
  rw [kept, List.filter_filter]
  refine List.filter_congr fun l _ => ?_
  by_cases same : l.pid = pid
  · simp [same, other]
  · simp [same]

namespace Counted

variable {v : VCache} (sound : Counted v)
include sound

theorem exclusive {l l' : SimpleLocks} (inside : l ∈ v.slocks) (write : l.type = .LockWrite) (inside' : l' ∈ v.slocks) :
    l' = l := by
  obtain ⟨-, reads⟩ | ⟨-, pid, only⟩ := sound.count
  · rw [reads l inside] at write
    nomatch write
  · rw [only, List.mem_singleton] at inside inside'
    rw [inside, inside']

theorem readers (some : 0 ≤ v.flockCount) : v.flockCount = v.slocks.length ∧ ∀ l ∈ v.slocks, l.type = .LockRead := by
  obtain reads | ⟨writer, -⟩ := sound.count
  · exact reads
  · omega

theorem writer (neg : v.flockCount < 0) : v.flockCount = -1 ∧ ∃ pid, v.slocks = [⟨.LockWrite, pid⟩] := by
  obtain ⟨count, -⟩ | writer := sound.count
  · omega
  · exact writer

theorem settled (a code : Int) {go : Prop} [Decidable go] (when : go ↔ v.flockCount = 0) :
    let r := if go then v.releaseLock a else (v, code)
    Consistent r.1 ∧ r.1.slocks = v.slocks ∧ r.1.flockCount = v.flockCount := by
  dsimp only
  split
  · next none =>
    have none := when.mp none
    unfold VCache.releaseLock
    split
    · exact ⟨⟨⟨sound.count, fun held => absurd none held⟩, fun _ => .inl rfl⟩, rfl, rfl⟩
    · exact ⟨⟨⟨sound.count, fun held => absurd none held⟩, fun _ => .inr rfl⟩, rfl, rfl⟩
  · next some => exact ⟨⟨sound, fun none => absurd (when.mpr none) some⟩, rfl, rfl⟩

theorem freeReaders (some : 0 < v.flockCount) (fits : v.slocks.length < 2 ^ 15) (p : Proc) (onlymine : Bool) :
    let freed := freeOwn p onlymine (fun n => short (n - 1)) v.slocks v.flockCount
    Counted { v with slocks := freed.1, flockCount := freed.2.1 } ∧ (freed.2.2 = 0 ↔ freed.2.1 = 0) := by
  obtain ⟨count, reads⟩ := sound.readers (by omega)
  obtain ⟨kept, mine⟩ := freeOwn_kept p onlymine (fun n => short (n - 1)) v.slocks v.flockCount
  have left := @freeOwn_count p onlymine v.slocks v.flockCount (by omega) (by omega)
  dsimp only
  rw [kept, left, mine, ← List.length_eq_zero_iff]
  refine ⟨⟨.inl ⟨?_, fun l inside => reads l (List.mem_of_mem_filter inside)⟩, fun _ => ?_⟩, by omega⟩
  · dsimp only
    omega
  · dsimp only
    rw [sound.held (by omega), if_neg (by omega), if_neg (by omega)]

end Counted

variable {v : VCache}

theorem Counted.freeWriter : Counted { v with slocks := [], flockCount := 0 } :=
  ⟨.inl ⟨rfl, by simp⟩, fun held => absurd rfl held⟩

theorem Counted.unlockOwn (sound : Counted v) (fits : v.slocks.length < 2 ^ 15) (p : Proc) (onlymine : Bool)
    (mine : ∃ l ∈ v.slocks, l.pid = p.pid) :
    Counted (v.unlockOwn p onlymine) ∧ (v.unlockOwn p onlymine).slocks = v.slocks.filter (·.pid != p.pid) := by
  obtain ⟨own, inside, same⟩ := mine
  unfold VCache.unlockOwn
  split
  · next some => exact ⟨(sound.freeReaders some fits p onlymine).1, (freeOwn_kept ..).1⟩
  next none =>
  by_cases neg : v.flockCount < 0
  · obtain ⟨writer, pid, only⟩ := sound.writer neg
    rw [only, List.mem_singleton] at inside
    rw [if_pos writer, only]
    refine ⟨Counted.freeWriter, ?_⟩
    simp [← same, inside]
  · obtain ⟨count, -⟩ := sound.readers (by omega)
    have empty : v.slocks = [] := List.length_eq_zero_iff.mp (by omega)
    rw [empty] at inside
    nomatch inside

theorem Consistent.unlock (sound : Consistent v) (fits : v.slocks.length < 2 ^ 15) (p : Proc) (onlymine : Bool) (a : Answers) :
    Consistent (v.unlock p onlymine a).1 ∧ ∀ pid ≠ p.pid, Keeps v (v.unlock p onlymine a).1 pid := by
  unfold VCache.unlock
  split
  · exact ⟨sound, fun _ _ => rfl⟩
  next mine =>
  simp only [Bool.or_eq_true, lockIdcmp2All_eq, decide_eq_true_eq, not_or, not_forall, not_not] at mine
  obtain ⟨⟨l, inside, own⟩, -⟩ := mine
  obtain ⟨counted, kept⟩ := sound.toCounted.unlockOwn fits p onlymine ⟨l, inside, own⟩
  obtain ⟨consistent, same, -⟩ := counted.settled a.release 0 Iff.rfl
  exact ⟨consistent, fun pid other => keeps_filter (same.trans kept) other⟩

/-- What `regrade` leaves: the lock can be set if its code is 0. -/
structure Regraded (v : VCache) (p : Proc) (type : LockType) (r : VCache × Int) : Prop where
  consistent : Consistent r.1
  slocks : r.1.slocks = v.slocks ∨ r.1.slocks = v.slocks.filter (·.pid != p.pid) ∧ ∀ l ∈ v.slocks, l.type ≠ type
  write : r.2 = 0 → type = .LockWrite → r.1.flockCount ≤ 0 ∧ ∀ l ∈ r.1.slocks, l.pid = p.pid
  read : r.2 = 0 → type = .LockRead → 0 ≤ r.1.flockCount

theorem Counted.empty (sound : Counted v) (none : v.flockCount = 0) : v.slocks = [] :=
  List.length_eq_zero_iff.mp (by have := sound.readers (Int.le_of_eq none.symm); omega)

theorem Consistent.regrade (sound : Consistent v) (fits : v.slocks.length < 2 ^ 15) (p : Proc) (type : LockType) (a : Answers) :
    Regraded v p type (v.regrade p type a) := by
  unfold VCache.regrade
  split
  · next other =>
    obtain ⟨some, rfl⟩ | ⟨neg, rfl⟩ := other
    · obtain ⟨counted, last⟩ := sound.freeReaders some fits p true
      obtain ⟨kept, empty⟩ := freeOwn_kept p true (fun n => short (n - 1)) v.slocks v.flockCount
      obtain ⟨consistent, slocks, count⟩ := counted.settled a.release _ (and_iff_right_of_imp last.mpr)
      refine ⟨consistent, .inr ⟨slocks.trans kept, ?_⟩, ?_, nofun⟩
      · intro l inside
        rw [(sound.readers (by omega)).2 l inside]
        nofun
      · intro ok _
        dsimp only at ok ⊢
        rw [count, slocks]
        dsimp only
        split at ok
        · next none =>
          rw [kept, empty.mp none.1]
          exact ⟨Int.le_of_eq none.2, by simp⟩
        · next none => exact absurd ⟨ok, last.mp ok⟩ none
    · obtain ⟨-, pid, only⟩ := sound.writer (by omega)
      have kind : ∀ l ∈ v.slocks, l.type ≠ .LockRead := by simp [only]
      rw [only]
      by_cases own : pid = p.pid
      · simp only [freeOwn, lockIdcmp2_eq, own, bne_self_eq_false, Bool.false_eq_true, if_false, and_self, if_true]
        obtain ⟨consistent, slocks, count⟩ :=
          (Counted.freeWriter (v := v)).settled a.release 0 (iff_of_true trivial rfl)
        rw [if_pos trivial] at consistent slocks count
        exact ⟨consistent, .inr ⟨slocks.trans (by simp [only, own]), kind⟩, nofun, fun _ _ => Int.le_of_eq count.symm⟩
      · simp only [freeOwn, lockIdcmp2_eq, bne_iff_ne.mpr own, if_true, EWOULDBLOCK]
        exact ⟨by rw [← only]; exact sound, .inl only.symm, nofun, nofun⟩
  next same =>
  have small : type = .LockWrite → v.flockCount ≤ 0 := fun write => by by_contra big; exact same (.inl ⟨by omega, write⟩)
  split
  · next again =>
    refine ⟨sound, .inl rfl, fun ok write => ⟨small write, ?_⟩, fun _ read => nomatch again.2.symm.trans read⟩
    obtain ⟨-, pid, only⟩ := sound.writer (by omega)
    have mine : ¬ lockIdcmp2All p v.slocks = true := fun none => by rw [if_pos none] at ok; nomatch ok
    simpa [lockIdcmp2All_eq, only] using mine
  · next first =>
    refine ⟨sound, .inl rfl, fun _ write => ⟨small write, ?_⟩, fun _ read => ?_⟩
    · have none : v.flockCount = 0 := by
        have := small write
        have := sound.writer
        by_contra some
        exact first ⟨(this (by omega)).1, write⟩
      simp [sound.empty none]
    · by_contra neg
      exact same (.inr ⟨(sound.writer (Int.not_le.mp neg)).1, read⟩)

theorem ask_cases (r : VCache × Int) (type : LockType) (a : Answers) :
    (VCache.ask r type a).2 ≠ 0 ∧ (VCache.ask r type a).1 = r.1 ∨
      (VCache.ask r type a).2 = 0 ∧ r.2 = 0 ∧ ((VCache.ask r type a).1 = r.1 ∧ r.1.flockCount ≠ 0 ∨
        (VCache.ask r type a).1 = { r.1 with server := some type, unreleased := false } ∧ r.1.flockCount = 0) := by
  unfold VCache.ask VCache.setLock
  by_cases ok : r.2 = 0 <;> by_cases none : r.1.flockCount = 0 <;> by_cases set : a.set = 0 <;> simp [ok, none, set]

theorem grantWrite (p : Proc) (server : v.server = some .LockWrite) :
    Consistent (v.grant p .LockWrite) :=
  ⟨⟨.inr ⟨rfl, p.pid, rfl⟩, fun _ => server⟩, nofun⟩

theorem grantRead (p : Proc) (reads : v.flockCount = v.slocks.length ∧ ∀ l ∈ v.slocks, l.type = .LockRead)
    (fits : v.slocks.length + 1 < 2 ^ 15) (server : v.server = some .LockRead) : Consistent (v.grant p .LockRead) := by
  have next := short_of_range (n := v.flockCount + 1) (by omega) (by omega)
  unfold VCache.grant
  dsimp only
  rw [next]
  refine ⟨⟨.inl ⟨?_, ?_⟩, fun _ => ?_⟩, fun none => ?_⟩
  · dsimp only [List.length_cons]
    omega
  · simpa using reads.2
  · dsimp only
    rw [server, if_neg (by omega)]
  · dsimp only at none
    omega

namespace Regraded

variable {p : Proc} {type : LockType} {r : VCache × Int} (reg : Regraded v p type r)
include reg

theorem keeps {pid : Nat} (other : pid ≠ p.pid) : Keeps v r.1 pid := by
  obtain same | ⟨gone, -⟩ := reg.slocks
  · exact congrArg _ same
  · exact keeps_filter gone other

theorem length_le : r.1.slocks.length ≤ v.slocks.length := by
  obtain same | ⟨gone, -⟩ := reg.slocks
  · exact Nat.le_of_eq (congrArg _ same)
  · rw [gone]
    exact List.length_filter_le ..

theorem unchanged (own : ∀ l ∈ v.slocks, l.pid = p.pid → l.type = type) : r.1.slocks = v.slocks := by
  obtain same | ⟨gone, kinds⟩ := reg.slocks
  · exact same
  · rw [gone, List.filter_eq_self]
    exact fun l inside => bne_iff_ne.mpr fun mine => kinds l inside (own l inside mine)

theorem granted (fits : v.slocks.length + 1 < 2 ^ 15) (ok : r.2 = 0) {w : VCache}
    (asked : w = r.1 ∧ r.1.flockCount ≠ 0 ∨ w = { r.1 with server := some type, unreleased := false } ∧ r.1.flockCount = 0) :
    Consistent (w.grant p type) ∧ ∀ pid ≠ p.pid, Keeps v (w.grant p type) pid := by
  have counted := reg.consistent.toCounted
  have same : w.slocks = r.1.slocks ∧ w.flockCount = r.1.flockCount := by
    obtain ⟨rfl, -⟩ | ⟨rfl, -⟩ := asked <;> exact ⟨rfl, rfl⟩
  have length := reg.length_le
  cases type with
  | LockWrite =>
    obtain ⟨few, own⟩ := reg.write ok rfl
    refine ⟨grantWrite p ?_, fun pid other => ?_⟩
    · obtain ⟨rfl, some⟩ | ⟨rfl, -⟩ := asked
      · rw [counted.held some, if_pos (counted.writer (by omega)).1]
      · rfl
    · have before : v.slocks.filter (·.pid = pid) = [] := by
        rw [← reg.keeps other, List.filter_eq_nil_iff]
        exact fun l inside mine => other (by rw [← own l inside]; exact (of_decide_eq_true mine).symm)
      unfold Keeps
      rw [before]
      simp [VCache.grant, other.symm]
  | LockRead =>
    have reads := counted.readers (reg.read ok rfl)
    refine ⟨grantRead p (by rw [same.1, same.2]; exact reads) (by rw [same.1]; omega) ?_, fun pid other => ?_⟩
    · obtain ⟨rfl, some⟩ | ⟨rfl, -⟩ := asked
      · rw [counted.held some, if_neg (by omega)]
      · rfl
    · have kept := reg.keeps other
      unfold Keeps at kept ⊢
      rw [← kept]
      simp [VCache.grant, other.symm, same.1]

end Regraded

theorem Consistent.lock (sound : Consistent v) (fits : v.slocks.length + 1 < 2 ^ 15) (p : Proc) (type : LockType) (nb : Bool)
    (a : Answers) : Consistent (v.lock p type nb a).1 ∧ Turn.Settles v (.lock p type nb a) := by
  have reg := sound.regrade (Nat.lt_of_succ_lt fits) p type a
  unfold Turn.Settles VCache.lock
  obtain ⟨fails, same⟩ | ⟨ok, first, asked⟩ := ask_cases (v.regrade p type a) type a
  · -- Neither waiting nor returning an error touches the cache.
    have kept (o : VCache.Outcome) (o' : VCache.Outcome) (c : Prop) [Decidable c] :
        (if c then ((VCache.ask (v.regrade p type a) type a).1, o) else ((VCache.ask (v.regrade p type a) type a).1, o')).1 =
          (v.regrade p type a).1 := by
      split <;> exact same
    dsimp only
    rw [if_neg fails, kept]
    refine ⟨reg.consistent, fun pid other => reg.keeps other, fun zero => ?_, fun _ own => reg.unchanged own⟩
    split at zero
    · nomatch zero
    · exact absurd (VCache.Outcome.returns.inj zero) fails
  · dsimp only
    rw [if_pos ok]
    obtain ⟨consistent, keeps⟩ := reg.granted fits first asked
    refine ⟨consistent, keeps, fun _ => ?_, fun fails => absurd rfl fails⟩
    cases type <;> simp [VCache.grant]

theorem Consistent.next (sound : Consistent v) (t : Turn) (fits : Roomy v t) : Consistent (t.next v) ∧ t.Settles v := by
  cases t with
  | unlock p onlymine a => exact sound.unlock (Nat.lt_of_succ_lt fits) p onlymine a
  | lock p type nb a => exact sound.lock fits p type nb a

/-- Whatever the processes and the server do, the list, the count and the server's lock agree, and turns settle. -/
theorem flocks_consistent {v : VCache} (reached : flocks.ReachWhere Roomy v) :
    Consistent v ∧ (∀ l ∈ v.slocks, ∀ l' ∈ v.slocks, l.type = .LockWrite → l.pid = l'.pid) ∧ ∀ t, Roomy v t → t.Settles v := by
  have sound : Consistent v := by
    apply reached.invariant
    · rintro _ rfl
      exact ⟨⟨.inl ⟨rfl, nofun⟩, fun held => absurd rfl held⟩, fun _ => .inl rfl⟩
    · intro v t v' sound fits taken
      cases taken
      exact (sound.next t fits).1
  refine ⟨sound, fun l inside l' inside' write => ?_, fun t fits => (sound.next t fits).2⟩
  rw [sound.exclusive inside write inside']

def reader : Proc := ⟨7, 1, by decide⟩

theorem flocks_consistent_one : Consistent (⟨[⟨.LockRead, 7⟩], 1, some .LockRead, false⟩ : VCache) :=
  (flocks_consistent (.step (a := .lock reader .LockRead true ⟨0, 0, false⟩) (.start rfl) (by unfold Roomy; decide) rfl)).1

/-- An unlock whose `ReleaseLock` fails: the call fails, the process has lost its lock, and the server still has it. -/
theorem failed_release_unlocks :
    ∃ v, flocks.Reach v ∧ v.slocks = [⟨.LockRead, 7⟩] ∧
      v.unlock reader true ⟨-1, 0, false⟩ = (⟨[], 0, some .LockRead, true⟩, -1) :=
  ⟨_, .step (a := .lock reader .LockRead true ⟨0, 0, false⟩) (.start rfl) trivial rfl, rfl, rfl⟩

end OpenAFS.Afs.Flock
