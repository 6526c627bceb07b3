import OpenAFS.Lib.Machine
import OpenAFS.Ubik.Types

namespace OpenAFS.Ubik

open Lib

/-- `urecovery_CheckTid`: what it leaves of a remote write transaction. -/
def urecoveryCheckTid (atid : UbikTid) (ubikCurrentTrans : Option UbikTid) : Option UbikTid :=
  ubikCurrentTrans.bind fun tid => if atid.epoch ≠ tid.epoch ∨ tid.counter < atid.counter then none else some tid

structure TidSite where
  epochTime : Int := 0
  tidCounter : Int := 0
  writeTidCounter : Int := 0
  labelled : Bool := false
  current : Option UbikTid := none
  /-- `DBWRITING` is set for another site's transaction (`ubik_currentTrans`). -/
  remote : Bool := false
  ended : List UbikTid := []
  deriving DecidableEq, Repr

namespace TidSite

def dbWriting (s : TidSite) : Bool := s.current.isSome || s.remote

def beaconTid (s : TidSite) : UbikTid :=
  ⟨s.epochTime, if s.dbWriting then s.writeTidCounter else s.tidCounter + 1⟩

inductive Action where
  /-- `BeginTrans` of a read transaction. -/
  | beginRead
  | beginWrite
  /-- `udisk_commit` of the write transaction gets past the relabelling, at time `now`. -/
  | commit (now : Int)
  | endWrite
  | resetState
  | firstLabel
  /-- `SDISK_Begin` for another site, and the end of that transaction. -/
  | remoteBegin
  | remoteEnd
  deriving DecidableEq, Repr

def step (s : TidSite) : Action → Option TidSite
  | .beginRead => some { s with tidCounter := s.tidCounter + 2 }
  | .beginWrite =>
    if s.dbWriting = false then
      some { s with
        tidCounter := s.tidCounter + 2
        writeTidCounter := s.writeTidCounter + 2
        current := some ⟨s.epochTime, s.tidCounter + 2⟩ }
    else none
  | .commit now =>
    if s.current.isSome then
      some (if s.labelled then s else { s with epochTime := now, labelled := true })
    else none
  | .endWrite => s.current.map fun t => { s with current := none, ended := t :: s.ended }
  | .resetState => some { s with labelled := false }
  | .firstLabel => some { s with epochTime := 2 }
  | .remoteBegin => if s.current.isNone then some { s with remote := true } else none
  | .remoteEnd => some { s with remote := false }

def machine : Machine TidSite Action := ⟨fun s => s = {}, step⟩

structure Inv (s : TidSite) : Prop where
  behind : s.writeTidCounter ≤ s.tidCounter
  current : ∀ t ∈ s.current, s.writeTidCounter ≤ t.counter ∧ t.counter ≤ s.tidCounter
  ended : ∀ t ∈ s.ended, t.counter ≤ s.tidCounter
  alone : s.current.isSome → s.remote = false

variable {s : TidSite}

theorem Inv.step {s' : TidSite} {a : Action} (inv : Inv s) (taken : step s a = some s') : Inv s' := by
  obtain ⟨behind, current, ended, alone⟩ := inv
  cases a with
  | beginRead =>
    cases taken
    refine ⟨by simp only; omega, fun t mem => ?_, fun t mem => ?_, alone⟩
    · have bounds := current t mem
      simp only
      omega
    · have bound := ended t mem
      simp only
      omega
  | beginWrite =>
    obtain ⟨idle, taken⟩ := Option.ite_none_right_eq_some.mp taken
    cases taken
    refine ⟨by simp only; omega, fun t mem => ?_, fun t mem => ?_, fun _ => ?_⟩
    · cases mem
      simp only
      omega
    · have bound := ended t mem
      simp only
      omega
    · exact (Bool.or_eq_false_iff.mp idle).2
  | commit now =>
    obtain ⟨-, taken⟩ := Option.ite_none_right_eq_some.mp taken
    cases taken
    split
    · exact ⟨behind, current, ended, alone⟩
    · exact ⟨behind, current, ended, alone⟩
  | endWrite =>
    obtain ⟨t, known, rfl⟩ := Option.map_eq_some_iff.mp taken
    refine ⟨behind, fun t mem => (by cases mem), fun t' mem => ?_, fun impossible => (by cases impossible)⟩
    rcases List.mem_cons.mp mem with rfl | old
    · exact (current t' known).2
    · exact ended t' old
  | resetState =>
    cases taken
    exact ⟨behind, current, ended, alone⟩
  | firstLabel =>
    cases taken
    exact ⟨behind, current, ended, alone⟩
  | remoteBegin =>
    obtain ⟨none, taken⟩ := Option.ite_none_right_eq_some.mp taken
    cases taken
    refine ⟨behind, current, ended, fun some => ?_⟩
    rw [Option.isNone_iff_eq_none.mp none] at some
    cases some
  | remoteEnd =>
    cases taken
    exact ⟨behind, current, ended, fun _ => rfl⟩

theorem inv_reach (reached : machine.Reach s) : Inv s := by
  have base : ∀ s, machine.start s → Inv s := by
    rintro s rfl
    exact ⟨Int.le_refl _, fun t mem => (by cases mem), fun t mem => (by cases mem), fun impossible => (by cases impossible)⟩
  have keep : ∀ s a s', Inv s → True → machine.step s a = some s' → Inv s' := fun _ _ _ inv _ taken => inv.step taken
  exact Machine.ReachWhere.invariant base keep reached

/-- A beacon composed now is right about the local write transactions: a replica that has the one in progress
    keeps it, and a replica that still has one that has ended drops it. -/
def BeaconRight (s : TidSite) : Prop :=
  (∀ t ∈ s.current, urecoveryCheckTid s.beaconTid (some t) = some t) ∧
  ∀ t ∈ s.ended, urecoveryCheckTid s.beaconTid (some t) = none

instance (s : TidSite) : Decidable (BeaconRight s) := inferInstanceAs (Decidable (_ ∧ _))

/-- The database has not been relabelled under the transaction in progress, and what a later write counts for
    is past every transaction that ended under the same label. -/
def TidsTell (s : TidSite) : Prop :=
  (∀ t ∈ s.current, s.epochTime = t.epoch) ∧
  ∀ t ∈ s.ended, s.epochTime ≠ t.epoch ∨ s.dbWriting = false ∨ t.counter < s.writeTidCounter

instance (s : TidSite) : Decidable (TidsTell s) := inferInstanceAs (Decidable (_ ∧ _))

theorem checkTid_keeps (inv : Inv s) {t : UbikTid} (mem : t ∈ s.current) :
    urecoveryCheckTid s.beaconTid (some t) = some t ↔ s.epochTime = t.epoch := by
  have writing : s.dbWriting = true := by simp [dbWriting, Option.mem_def.mp mem]
  have bound := (inv.current t mem).1
  simp only [urecoveryCheckTid, Option.bind_some, beaconTid, writing, if_true]
  by_cases same : s.epochTime = t.epoch
  · simp only [same, ne_eq, not_true_eq_false, false_or, if_neg (Int.not_lt.mpr bound)]
  · simp [same]

theorem checkTid_drops (inv : Inv s) {t : UbikTid} (mem : t ∈ s.ended) :
    urecoveryCheckTid s.beaconTid (some t) = none ↔
      s.epochTime ≠ t.epoch ∨ s.dbWriting = false ∨ t.counter < s.writeTidCounter := by
  have bound := inv.ended t mem
  have later : t.counter < s.tidCounter + 1 := by omega
  simp only [urecoveryCheckTid, Option.bind_some, beaconTid]
  by_cases writing : s.dbWriting = true
  · by_cases same : s.epochTime = t.epoch <;> simp [writing, same]
  · simp [writing, later]

def afterRead : TidSite := (machine.run {} [.beginRead, .beginWrite, .endWrite, .beginWrite]).get (by decide)

theorem afterRead_reach : machine.Reach afterRead := Machine.Reach.run (.start rfl) (Option.some_get _).symm

def relabelling : TidSite := (machine.run {} [.beginWrite, .commit 100]).get (by decide)

theorem relabelling_reach : machine.Reach relabelling := Machine.Reach.run (.start rfl) (Option.some_get _).symm

end TidSite

end OpenAFS.Ubik
