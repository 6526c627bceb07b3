import OpenAFS.Vlserver.External

namespace OpenAFS.Vlserver

open Function (update update_self update_of_ne)
open Lib List

structure RawSite where
  number : UInt8
  partition : UInt8
  flags : UInt8
  deriving DecidableEq, Repr

def NvlEntry.rawSite (e : NvlEntry) (i : Nat) : RawSite := ⟨e.serverNumber i, e.serverPartition i, e.serverFlags i⟩

def NvlEntry.sites (e : NvlEntry) : List RawSite := (Globals.usedSlots nMaxNServers e).map e.rawSite

/-- The site has the number and the partition that `repsite_exists` looks for. -/
def RawSite.Named (server : Nat) (partition : Int) (x : RawSite) : Prop :=
  x.number.toNat = server ∧ (x.partition.toNat : Int) = partition

/-- The changes of `VLUPDATE_REPSITES` for one index, in their order. -/
inductive RepsChange where
  | check
  | delete
  | add
  | modServ
  | modPart
  | modFlag
  deriving DecidableEq, Repr

namespace Repsite

section

variable {σ : Type} (relAddr : UInt32 → σ → σ × Option Nat) (r : Repsite)

def asks : RepsChange → Bool
  | .check => true
  | .delete => r.mask &&& deleteBit ≠ 0
  | .add => r.mask &&& addBit ≠ 0
  | .modServ => r.mask &&& modServBit ≠ 0
  | .modPart => r.mask &&& modPartBit ≠ 0
  | .modFlag => r.mask &&& modFlagBit ≠ 0

def changes : List RepsChange := [.check, .delete, .add, .modServ, .modPart, .modFlag].filter r.asks

/-- The place of the target server, where servers are looked up in any table. -/
def targetIn (st : σ) (e : NvlEntry) : Except VlError (σ × Nat) :=
  match repsiteExists e (relAddr r.targetServer st).2 r.targetPart with
  | some j => .ok ((relAddr r.targetServer st).1, j)
  | none => .error .noRepServer

def apply (st : σ) (e : NvlEntry) : RepsChange → Except VlError (σ × NvlEntry)
  | .check => do
    ensure (0 ≤ r.targetPart ∧ r.targetPart ≤ maxPartitionId) .badPartition
    .ok (st, e)
  | .delete => do
    let (st, j) ← r.targetIn relAddr st e
    .ok (st, repsiteCompress (oMaxNServers - 1 - j) j e)
  | .add => do
    ensure (0 ≤ r.newPart ∧ r.newPart ≤ maxPartitionId) .badPartition
    let (st, server) := relAddr r.newServer st
    ensure (repsiteExists e server r.newPart = none) .dupRepServer
    match (List.range oMaxNServers).find? fun j => e.serverNumber j = badServerId with
    | none => .error .repsFull
    | some j =>
      match server with
      | none => .error .badServer
      | some serverindex => do
        ensure (0 ≤ r.newFlags ∧ r.newFlags ≤ maxServerFlag) .badServerFlag
        .ok (st, { e with
          serverNumber := update e.serverNumber j (.ofNat serverindex)
          serverPartition := update e.serverPartition j (.ofInt r.newPart)
          serverFlags := update e.serverFlags j (.ofInt r.newFlags) })
  | .modServ => do
    let (st, j) ← r.targetIn relAddr st e
    let (st, server) := relAddr r.newServer st
    -- -1 is stored as the number that no server has
    .ok (st, { e with
      serverNumber := update e.serverNumber j ((server.map UInt8.ofNat).getD badServerId) })
  | .modPart => do
    ensure (0 ≤ r.newPart ∧ r.newPart ≤ maxPartitionId) .badPartition
    let (st, j) ← r.targetIn relAddr st e
    .ok (st, { e with serverPartition := update e.serverPartition j (.ofInt r.newPart) })
  | .modFlag => do
    let (st, j) ← r.targetIn relAddr st e
    ensure (0 ≤ r.newFlags ∧ r.newFlags ≤ maxServerFlag) .badServerFlag
    .ok (st, { e with serverFlags := update e.serverFlags j (.ofInt r.newFlags) })

end

def run {σ : Type} (relAddr : UInt32 → σ → σ × Option Nat) : List (Repsite × RepsChange) → σ → NvlEntry →
    Except VlError (σ × NvlEntry)
  | [], st, e => .ok (st, e)
  | (r, c) :: rest, st, e => do
    let (st, e) ← r.apply relAddr st e c
    run relAddr rest st e

end Repsite

def VldbUpdateEntry.changes (u : VldbUpdateEntry) (places : List Nat) : List (Repsite × RepsChange) :=
  places.flatMap fun i => (u.repsites i).changes.map fun c => (u.repsites i, c)

def VldbUpdateEntry.updateSites {σ : Type} (relAddr : UInt32 → σ → σ × Option Nat) (u : VldbUpdateEntry) (st : σ)
    (e : NvlEntry) : Except VlError (σ × NvlEntry) := do
  ensure (0 < u.nModifiedRepsites ∧ u.nModifiedRepsites ≤ oMaxNServers) .badServer
  Repsite.run relAddr (u.changes (List.range u.nModifiedRepsites.toNat)) st e

/-- `IpAddrToRelAddr` where -1 is no error yet. -/
def Globals.relAddr (ipaddr : UInt32) (g : Globals) : Globals × Option Nat :=
  match g.ipAddrToRelAddr ipaddr with
  | some (g, i) => (g, some i)
  | none => (g, none)

theorem Repsite.run_append {σ : Type} {relAddr : UInt32 → σ → σ × Option Nat} (l l' : List (Repsite × RepsChange)) (st : σ)
    (e : NvlEntry) :
    run relAddr (l ++ l') st e = (run relAddr l st e).bind fun (st, e) => run relAddr l' st e := by
  induction l generalizing st e with
  | nil => rfl
  | cons c l ih =>
    rw [cons_append, run, run]
    cases h : c.1.apply relAddr st e c.2 with
    | error _ => rfl
    | ok s => exact ih ..

theorem Repsite.run_asked {r : Repsite} {c : RepsChange} {bit : UInt32}
    (change : Vldb → NvlEntry → Except VlError (Vldb × NvlEntry)) (asked : r.asks c = decide (r.mask &&& bit ≠ 0))
    (same : ∀ db e, r.apply relAddr db e c = change db e) (rest : List RepsChange) (db : Vldb) (e : NvlEntry) :
    run relAddr (((c :: rest).filter r.asks).map fun c => (r, c)) db e =
      (r.onBit bit change db e).bind fun (db, e) => run relAddr ((rest.filter r.asks).map fun c => (r, c)) db e := by
  unfold onBit
  rw [filter_cons, asked]
  by_cases set : r.mask &&& bit ≠ 0
  · rw [if_pos (decide_eq_true set), if_pos set, map_cons, run, same]
    rfl
  · rw [if_neg (by simpa using set), if_neg set]
    rfl

theorem Repsite.change_eq (r : Repsite) (db : Vldb) (e : NvlEntry) :
    r.change db e = run relAddr (r.changes.map fun c => (r, c)) db e := by
  have first (rest : List RepsChange) : run relAddr (((RepsChange.check :: rest).filter r.asks).map fun c => (r, c)) db e =
      (ensure (0 ≤ r.targetPart ∧ r.targetPart ≤ maxPartitionId) .badPartition).bind fun _ =>
        run relAddr ((rest.filter r.asks).map fun c => (r, c)) db e := by
    rw [filter_cons_of_pos rfl, map_cons, run, apply]
    unfold ensure
    split <;> rfl
  have last (db : Vldb) (e : NvlEntry) : run relAddr (([RepsChange.modFlag].filter r.asks).map fun c => (r, c)) db e =
      r.onBit modFlagBit r.modFlag db e := by
    rw [run_asked r.modFlag rfl fun _ _ => rfl]
    cases r.onBit modFlagBit r.modFlag db e <;> rfl
  unfold change changes
  rw [first]
  refine congrArg (Except.bind _) (funext fun _ => ?_)
  rw [run_asked r.delete rfl fun _ _ => rfl]
  refine congrArg (Except.bind _) (funext fun s => ?_)
  dsimp only
  rw [run_asked r.add rfl fun _ _ => rfl]
  refine congrArg (Except.bind _) (funext fun s => ?_)
  dsimp only
  rw [run_asked r.modServ rfl fun _ _ => rfl]
  refine congrArg (Except.bind _) (funext fun s => ?_)
  dsimp only
  rw [run_asked r.modPart rfl fun _ _ => rfl]
  refine congrArg (Except.bind _) (funext fun s => ?_)
  exact (last s.1 s.2).symm

theorem updateRepsites_eq (u : VldbUpdateEntry) (places : List Nat) (db : Vldb) (e : NvlEntry) :
    db.updateRepsites u places e = Repsite.run Repsite.relAddr (u.changes places) db e := by
  induction places generalizing db e with
  | nil => rfl
  | cons i places ih =>
    unfold VldbUpdateEntry.changes
    rw [flatMap_cons, Repsite.run_append, ← Repsite.change_eq, Vldb.updateRepsites]
    exact congrArg (Except.bind _) (funext fun s => ih s.1 s.2)

/-- The places of an entry are those of a list of sites, and unused behind it. -/
structure NvlEntry.Holds (e : NvlEntry) (l : List RawSite) : Prop where
  short : l.length ≤ nMaxNServers
  here : ∀ i, i < l.length → l[i]? = some (e.rawSite i)
  used : ∀ x ∈ l, x.number ≠ badServerId
  unused : ∀ i, l.length ≤ i → i < nMaxNServers → e.serverNumber i = badServerId

variable {server : Option Nat}

namespace NvlEntry

variable {e : NvlEntry} {l : List RawSite}

theorem sites_length_le {i : Nat} (unused : e.serverNumber i = badServerId) : e.sites.length ≤ i := by
  obtain ⟨k, -, eq, used, -⟩ := takeWhile_range (fun i => e.serverNumber i ≠ badServerId) nMaxNServers
  unfold sites Globals.usedSlots
  rw [eq, length_map, length_range]
  by_contra longer
  have number := used i (by omega)
  simp only [decide_eq_true_eq] at number
  exact number unused

namespace Holds

section

variable (holds : e.Holds l)
include holds

theorem number {i : Nat} (inside : i < l.length) : e.serverNumber i ≠ badServerId :=
  holds.used (e.rawSite i) (mem_of_getElem? (holds.here i inside))

theorem sites : e.sites = l := by
  obtain ⟨k, le, eq, used, stops⟩ := takeWhile_range (fun i => e.serverNumber i ≠ badServerId) nMaxNServers
  have short := holds.short
  have length : k = l.length := by
    rcases Nat.lt_trichotomy k l.length with less | same | more
    · have last := stops (by omega)
      simp only [decide_eq_false_iff_not, not_not] at last
      exact absurd last (holds.number less)
    · exact same
    · have number := used l.length more
      simp only [decide_eq_true_eq] at number
      exact absurd (holds.unused l.length (Nat.le_refl _) (by omega)) number
  unfold NvlEntry.sites Globals.usedSlots
  rw [eq, length]
  apply ext_getElem?
  intro i
  rw [getElem?_map]
  by_cases inside : i < l.length
  · rw [getElem?_range inside, holds.here i inside]
    rfl
  · rw [getElem?_eq_none (by rwa [length_range, ← Nat.not_lt]), getElem?_eq_none (by omega)]
    rfl

theorem repsiteExists {partition_ : Int} {j : Nat}
    (found : repsiteExists e server partition_ = some j) :
    ∃ s front x back, server = some s ∧ l = front ++ x :: back ∧ front.length = j ∧ j < oMaxNServers ∧
      x.Named s partition_ ∧ ∀ y ∈ front, ¬ y.Named s partition_ := by
  obtain ⟨k, le, eq, used, -⟩ := takeWhile_range (fun i => e.serverNumber i ≠ badServerId) oMaxNServers
  unfold Vlserver.repsiteExists at found
  rw [eq, find?_range_eq_some] at found
  obtain ⟨hit, inside, first⟩ := found
  rw [mem_range] at inside
  simp only [decide_eq_true_eq] at hit
  obtain ⟨rfl, part⟩ := hit
  have few : oMaxNServers ≤ nMaxNServers := by decide
  have within : j < l.length := by
    by_contra outside
    have number := used j inside
    simp only [decide_eq_true_eq] at number
    exact number (holds.unused j (by omega) (by omega))
  have site : l[j] = e.rawSite j := by
    have here := holds.here j within
    rw [getElem?_eq_getElem within] at here
    exact Option.some.inj here
  refine ⟨_, l.take j, l[j], l.drop (j + 1), rfl, ?_, ?_, by omega, ?_, ?_⟩
  · rw [getElem_cons_drop, take_append_drop]
  · rw [length_take]
    omega
  · rw [site]
    exact ⟨rfl, part⟩
  intro y early named
  obtain ⟨i, small, rfl⟩ := List.mem_iff_getElem.mp early
  rw [length_take] at small
  have same : l[i] = e.rawSite i := by
    have here := holds.here i (by omega)
    rw [getElem?_eq_getElem (by omega)] at here
    exact Option.some.inj here
  rw [getElem_take, same] at named
  have other := first i (by omega)
  simp only [Bool.not_eq_true', decide_eq_false_iff_not] at other
  exact other ⟨congrArg some named.1, named.2⟩

theorem number_found {partition_ : Int} {j : Nat}
    (found : Vlserver.repsiteExists e server partition_ = some j) : e.serverNumber j ≠ badServerId := by
  obtain ⟨s, front, x, back, -, rfl, rfl, -⟩ := holds.repsiteExists found
  exact holds.number (by simp)

theorem set {e' : NvlEntry} {j : Nat} {y : RawSite} (inside : j < l.length)
    (used : y.number ≠ badServerId) (new : e'.rawSite j = y) (others : ∀ i, i ≠ j → e'.rawSite i = e.rawSite i) :
    e'.Holds (l.set j y) := by
  constructor
  · rw [length_set]
    exact holds.short
  · intro i within
    rw [length_set] at within
    by_cases same : i = j
    · rw [same, getElem?_set_self inside, new]
    · rw [getElem?_set_ne (Ne.symm same), others i same]
      exact holds.here i within
  · intro x member
    rcases mem_or_eq_of_mem_set member with old | rfl
    · exact holds.used x old
    · exact used
  · intro i behind room
    rw [length_set] at behind
    exact (congrArg RawSite.number (others i (by omega))).trans (holds.unused i behind room)

theorem push {e' : NvlEntry} {y : RawSite} (room : l.length < nMaxNServers)
    (used : y.number ≠ badServerId) (new : e'.rawSite l.length = y) (others : ∀ i, i ≠ l.length → e'.rawSite i = e.rawSite i) :
    e'.Holds (l ++ [y]) := by
  constructor
  · rw [length_append]
    exact room
  · intro i within
    rw [length_append, length_singleton] at within
    by_cases last : i = l.length
    · rw [last, getElem?_concat_length, new]
    · rw [getElem?_append_left (by omega), others i last]
      exact holds.here i (by omega)
  · intro x member
    rcases List.mem_append.mp member with old | new
    · exact holds.used x old
    · rw [List.mem_singleton.mp new]
      exact used
  · intro i behind within
    rw [length_append, length_singleton] at behind
    exact (congrArg RawSite.number (others i (by omega))).trans (holds.unused i (by omega) within)

end

theorem pop {front : List RawSite} {x : RawSite} (holds : e.Holds (front ++ [x])) {e' : NvlEntry}
    (last : e'.serverNumber front.length = badServerId) (others : ∀ i, i ≠ front.length → e'.rawSite i = e.rawSite i) :
    e'.Holds front := by
  have short := holds.short
  rw [length_append, length_singleton] at short
  constructor
  · omega
  · intro i within
    have here := holds.here i (by rw [length_append]; omega)
    rwa [getElem?_append_left within, ← others i (by omega)] at here
  · exact fun y member => holds.used y (mem_append_left _ member)
  intro i behind within
  by_cases same : i = front.length
  · rw [same]
    exact last
  · refine (congrArg RawSite.number (others i same)).trans (holds.unused i ?_ within)
    rw [length_append, length_singleton]
    omega

theorem mark (holds : e.Holds l) {place : Nat} (behind : l.length ≤ place) :
    { e with serverNumber := update e.serverNumber place badServerId }.Holds l := by
  constructor
  · exact holds.short
  · intro i within
    have other : i ≠ place := by omega
    rw [holds.here i within]
    simp only [rawSite, update_of_ne other]
  · exact holds.used
  · intro i later room
    by_cases same : i = place
    · rw [same]
      exact update_self ..
    · exact (update_of_ne same ..).trans (holds.unused i later room)

theorem compress_end (holds : e.Holds l) {left place : Nat} (behind : l.length ≤ place)
    (unused : e.serverNumber place = badServerId) : (repsiteCompress left place e).Holds l := by
  cases left with
  | zero => exact holds.mark behind
  | succ left =>
    rw [repsiteCompress, if_pos unused]
    exact holds.mark behind

theorem compress {front back : List RawSite} {x : RawSite} {left : Nat} (holds : e.Holds (front ++ x :: back))
    (room : left + front.length = oMaxNServers - 1) (few : (front ++ x :: back).length ≤ oMaxNServers) :
    (repsiteCompress left front.length e).Holds (front ++ back) := by
  have length : (front ++ x :: back).length = front.length + (back.length + 1) := by
    rw [length_append, length_cons]
  rw [length] at few
  unfold oMaxNServers at few room
  induction left generalizing e front x back with
  | zero =>
    have none : back = [] := eq_nil_of_length_eq_zero (by omega)
    subst none
    rw [append_nil]
    refine holds.pop (update_self ..) fun i other => ?_
    simp only [repsiteCompress, rawSite, update_of_ne other]
  | succ left ih =>
    have number := holds.number (by omega : front.length < (front ++ x :: back).length)
    rw [repsiteCompress, if_neg number]
    generalize copied : ({ e with
      serverNumber := update e.serverNumber front.length (e.serverNumber (front.length + 1))
      serverPartition := update e.serverPartition front.length (e.serverPartition (front.length + 1))
      serverFlags := update e.serverFlags front.length (e.serverFlags (front.length + 1)) } : NvlEntry) = e'
    have new : e'.rawSite front.length = e.rawSite (front.length + 1) := by
      rw [← copied]
      simp only [rawSite, update_self]
    have others (i : Nat) (other : i ≠ front.length) : e'.rawSite i = e.rawSite i := by
      rw [← copied]
      simp only [rawSite, update_of_ne other]
    cases back with
    | nil =>
      have stop : e.serverNumber (front.length + 1) = badServerId := by
        apply holds.unused
        · rw [length]
          exact Nat.le_refl _
        · unfold nMaxNServers
          omega
      rw [append_nil]
      have shorter : e'.Holds front := holds.pop ((congrArg RawSite.number new).trans stop) others
      exact shorter.compress_end (by omega) ((congrArg RawSite.number (others _ (by omega))).trans stop)
    | cons y back =>
      have next : e.rawSite (front.length + 1) = y := by
        have here := holds.here (front.length + 1) (by rw [length, length_cons]; omega)
        rw [getElem?_append_right (by omega), Nat.add_sub_cancel_left] at here
        exact (Option.some.inj here).symm
      have twice : e'.Holds ((front ++ [y]) ++ y :: back) := by
        have moved := holds.set (by omega) (holds.used y (by simp)) (new.trans next) others
        rwa [set_append_right _ _ (Nat.le_refl _), Nat.sub_self, set_cons_zero, append_cons] at moved
      rw [length_cons] at few
      have grown : (front ++ [y]).length = front.length + 1 := by rw [length_append, length_singleton]
      have rest := ih twice (by omega) (by omega) (by rw [length_append, length_cons])
      rw [grown] at rest
      rwa [← append_cons] at rest

end Holds

theorem compress_cuts {left offset : Nat} (room : left + offset = oMaxNServers - 1)
    (used : ∀ i, offset ≤ i → i < oMaxNServers → e.serverNumber i ≠ badServerId) :
    (repsiteCompress left offset e).serverNumber (oMaxNServers - 1) = badServerId := by
  induction left generalizing e offset with
  | zero =>
    rw [Nat.zero_add] at room
    rw [← room]
    exact update_self ..
  | succ left ih =>
    have within : offset < oMaxNServers := by
      omega
    rw [repsiteCompress, if_neg (used offset (Nat.le_refl _) within)]
    apply ih (by omega)
    intro i later small
    exact (update_of_ne (by omega) ..).trans_ne (used i (by omega) small)

end NvlEntry

def Replaces (server : Nat) (partition_ : Int) (new : RawSite → List RawSite) (l l' : List RawSite) : Prop :=
  ∃ front x back, l = front ++ x :: back ∧ x.Named server partition_ ∧ (∀ y ∈ front, ¬ y.Named server partition_) ∧
    l' = front ++ new x ++ back

namespace Repsite

section

variable {σ : Type} (relAddr : UInt32 → σ → σ × Option Nat) (r : Repsite)

def ActsOn (st : σ) (l l' : List RawSite) : RepsChange → Prop
  | .check => l' = l
  | .delete => ∃ s, (relAddr r.targetServer st).2 = some s ∧ Replaces s r.targetPart (fun _ => []) l l'
  | .add => ∃ s, (relAddr r.newServer st).2 = some s ∧ l' = l ++ [⟨.ofNat s, .ofInt r.newPart, .ofInt r.newFlags⟩]
  | .modServ => ∃ s number, (relAddr r.targetServer st).2 = some s ∧
      (∀ s', (relAddr r.newServer (relAddr r.targetServer st).1).2 = some s' → number = .ofNat s') ∧
      Replaces s r.targetPart (fun x => [{ x with number }]) l l'
  | .modPart => ∃ s, (relAddr r.targetServer st).2 = some s ∧
      Replaces s r.targetPart (fun x => [{ x with partition := .ofInt r.newPart }]) l l'
  | .modFlag => ∃ s, (relAddr r.targetServer st).2 = some s ∧
      Replaces s r.targetPart (fun x => [{ x with flags := .ofInt r.newFlags }]) l l'

/-- A site is deleted from a list of at most eight, and a new server is in the table or finds room in it. -/
def Met (st : σ) (l : List RawSite) : RepsChange → Prop
  | .delete => l.length ≤ oMaxNServers
  | .modServ => (relAddr r.newServer (relAddr r.targetServer st).1).2 ≠ none
  | _ => True

end

variable {σ : Type} {relAddr : UInt32 → σ → σ × Option Nat} {r : Repsite} {st st' : σ} {e e' : NvlEntry}
  {l : List RawSite}

theorem targetIn_ok {j : Nat} (found : r.targetIn relAddr st e = .ok (st', j)) :
    st' = (relAddr r.targetServer st).1 ∧ repsiteExists e (relAddr r.targetServer st).2 r.targetPart = some j := by
  unfold targetIn at found
  split at found
  · rename_i here
    cases found
    exact ⟨rfl, here⟩
  · cases found

theorem number_ne {s : Nat} (small : s < 255) : UInt8.ofNat s ≠ badServerId := by
  intro same
  have value := congrArg UInt8.toNat same
  rw [UInt8.toNat_ofNat'] at value
  have bad : badServerId.toNat = 255 := rfl
  omega

theorem replaced (holds : e.Holds l) {partition_ : Int} {j : Nat}
    (found : repsiteExists e server partition_ = some j) (f : RawSite → RawSite)
    (new : e'.rawSite j = f (e.rawSite j)) (others : ∀ i, i ≠ j → e'.rawSite i = e.rawSite i)
    (used : e'.serverNumber j ≠ badServerId) :
    ∃ s, server = some s ∧ Replaces s partition_ (fun x => [f x]) l e'.sites ∧ e'.Holds e'.sites := by
  obtain ⟨s, front, x, back, rfl, rfl, rfl, -, named, first⟩ := holds.repsiteExists found
  have inside : front.length < (front ++ x :: back).length := by simp
  have site : x = e.rawSite front.length := by
    have here := holds.here front.length inside
    rw [getElem?_append_right (Nat.le_refl _), Nat.sub_self] at here
    exact Option.some.inj here
  rw [← site] at new
  have held := holds.set inside (new ▸ used) new others
  rw [set_append_right _ _ (Nat.le_refl _), Nat.sub_self, set_cons_zero] at held
  rw [held.sites]
  refine ⟨s, rfl, ⟨front, x, back, rfl, named, first, ?_⟩, held⟩
  rw [append_assoc]
  rfl

def Settles (r : Repsite) (relAddr : UInt32 → σ → σ × Option Nat) (st : σ) (l : List RawSite) (e' : NvlEntry) (c : RepsChange) :
    Prop :=
  r.Met relAddr st l c ∧ r.ActsOn relAddr st l e'.sites c ∧ e'.Holds e'.sites ∨
    ¬ r.Met relAddr st l c ∧ ¬ r.ActsOn relAddr st l e'.sites c

theorem apply_delete (holds : e.Holds l) (done : r.apply relAddr st e .delete = .ok (st', e')) :
    Settles r relAddr st l e' .delete := by
  obtain ⟨⟨_, j⟩, found, same⟩ := except_bind_eq_ok.mp done
  cases same
  obtain ⟨-, exists_⟩ := targetIn_ok found
  obtain ⟨s, front, x, back, server, rfl, rfl, early, named, first⟩ := holds.repsiteExists exists_
  have room : oMaxNServers - 1 - front.length + front.length = oMaxNServers - 1 := by omega
  by_cases few : (front ++ x :: back).length ≤ oMaxNServers
  · have held := holds.compress room few
    rw [Settles, held.sites]
    refine .inl ⟨few, ⟨s, server, front, x, back, rfl, named, first, ?_⟩, held⟩
    rw [append_nil]
  right
  refine ⟨few, ?_⟩
  rintro ⟨s', -, front', x', back', split, -, -, result⟩
  have stop := NvlEntry.compress_cuts room fun i _ within => holds.number (by omega : i < (front ++ x :: back).length)
  have short := NvlEntry.sites_length_le stop
  rw [result] at short
  have lengths := congrArg List.length split
  simp only [length_append, length_cons, length_nil] at short lengths few
  omega

section

variable (small : ∀ a st i, (relAddr a st).2 = some i → i < 255)
include small

theorem apply_add (holds : e.Holds l)
    (done : r.apply relAddr st e .add = .ok (st', e')) : Settles r relAddr st l e' .add := by
  obtain ⟨-, done⟩ := ensure_then.mp done
  obtain ⟨-, done⟩ := ensure_then.mp done
  split at done
  · cases done
  rename_i j free
  split at done
  · cases done
  rename_i s server
  obtain ⟨-, same⟩ := ensure_then.mp done
  rw [find?_range_eq_some] at free
  obtain ⟨unused, within, first⟩ := free
  rw [mem_range] at within
  simp only [decide_eq_true_eq] at unused
  have last : j = l.length := by
    rcases Nat.lt_trichotomy j l.length with less | same | more
    · exact absurd unused (holds.number less)
    · exact same
    have number := first _ more
    simp only [Bool.not_eq_true', decide_eq_false_iff_not] at number
    unfold oMaxNServers at within
    exact absurd (holds.unused _ (Nat.le_refl _) (by unfold nMaxNServers; omega)) number
  subst last
  have held : e'.Holds (l ++ [⟨.ofNat s, .ofInt r.newPart, .ofInt r.newFlags⟩]) := by
    cases same
    apply holds.push (Nat.lt_of_lt_of_le within (by decide)) (number_ne (small _ _ _ server))
    · simp only [NvlEntry.rawSite, update_self]
    · intro i other
      simp only [NvlEntry.rawSite, update_of_ne other]
  rw [Settles, held.sites]
  exact .inl ⟨trivial, ⟨s, server, rfl⟩, held⟩

theorem apply_modServ (holds : e.Holds l)
    (done : r.apply relAddr st e .modServ = .ok (st', e')) : Settles r relAddr st l e' .modServ := by
  obtain ⟨⟨_, j⟩, found, same⟩ := except_bind_eq_ok.mp done
  obtain ⟨rfl, exists_⟩ := targetIn_ok found
  have others : ∀ i, i ≠ j → e'.rawSite i = e.rawSite i := by
    cases same
    intro i other
    simp only [NvlEntry.rawSite, update_of_ne other]
  cases new : (relAddr r.newServer (relAddr r.targetServer st).1).2 with
  | none =>
    right
    refine ⟨not_not_intro new, ?_⟩
    rintro ⟨s', number, -, -, front', x', back', split, -, -, result⟩
    obtain ⟨s, front, x, back, server, rfl, rfl, early, named, first⟩ := holds.repsiteExists exists_
    have stop : e'.serverNumber front.length = badServerId := by
      cases same
      rw [new]
      exact update_self ..
    have short := NvlEntry.sites_length_le stop
    rw [result] at short
    have lengths := congrArg List.length split
    simp only [length_append, length_cons, length_nil] at short lengths
    omega
  | some s' =>
    left
    have changed : e'.rawSite j = { e.rawSite j with number := .ofNat s' } := by
      cases same
      simp only [NvlEntry.rawSite, update_self, new]
      rfl
    have used : e'.serverNumber j ≠ badServerId := by
      rw [show e'.serverNumber j = .ofNat s' from congrArg RawSite.number changed]
      exact number_ne (small _ _ _ new)
    obtain ⟨s, server, replaces, held⟩ :=
      replaced holds exists_ (fun x => { x with number := .ofNat s' }) changed others used
    refine ⟨?_, ⟨s, .ofNat s', server, fun t known => ?_, replaces⟩, held⟩
    · show (relAddr r.newServer (relAddr r.targetServer st).1).2 ≠ none
      rw [new]
      exact Option.some_ne_none s'
    · rw [new] at known
      cases known
      rfl

theorem apply_step {c : RepsChange} (holds : e.Holds l)
    (done : r.apply relAddr st e c = .ok (st', e')) : Settles r relAddr st l e' c := by
  cases c with
  | check =>
    obtain ⟨-, same⟩ := ensure_then.mp done
    cases same
    rw [Settles, holds.sites]
    exact .inl ⟨trivial, rfl, holds⟩
  | delete => exact apply_delete holds done
  | add => exact apply_add small holds done
  | modServ => exact apply_modServ small holds done
  | modPart =>
    obtain ⟨-, done⟩ := ensure_then.mp done
    obtain ⟨⟨_, j⟩, found, same⟩ := except_bind_eq_ok.mp done
    obtain ⟨-, exists_⟩ := targetIn_ok found
    obtain ⟨s, server, replaces, held⟩ : ∃ s, (relAddr r.targetServer st).2 = some s ∧
        Replaces s r.targetPart (fun x => [{ x with partition := .ofInt r.newPart }]) l e'.sites ∧ e'.Holds e'.sites := by
      cases same
      apply replaced holds exists_ fun x => { x with partition := .ofInt r.newPart }
      · simp only [NvlEntry.rawSite, update_self]
      · intro i other
        simp only [NvlEntry.rawSite, update_of_ne other]
      · exact holds.number_found exists_
    exact .inl ⟨trivial, ⟨s, server, replaces⟩, held⟩
  | modFlag =>
    obtain ⟨⟨_, j⟩, found, done⟩ := except_bind_eq_ok.mp done
    obtain ⟨-, exists_⟩ := targetIn_ok found
    obtain ⟨-, same⟩ := ensure_then.mp done
    obtain ⟨s, server, replaces, held⟩ : ∃ s, (relAddr r.targetServer st).2 = some s ∧
        Replaces s r.targetPart (fun x => [{ x with flags := .ofInt r.newFlags }]) l e'.sites ∧ e'.Holds e'.sites := by
      cases same
      apply replaced holds exists_ fun x => { x with flags := .ofInt r.newFlags }
      · simp only [NvlEntry.rawSite, update_self]
      · intro i other
        simp only [NvlEntry.rawSite, update_of_ne other]
      · exact holds.number_found exists_
    exact .inl ⟨trivial, ⟨s, server, replaces⟩, held⟩

end

def StepsAct (relAddr : UInt32 → σ → σ × Option Nat) : List (Repsite × RepsChange) → σ → NvlEntry → Prop
  | [], _, _ => True
  | (r, c) :: rest, st, e => ∀ st' e', r.apply relAddr st e c = .ok (st', e') →
      r.ActsOn relAddr st e.sites e'.sites c ∧ StepsAct relAddr rest st' e'

def StepsMet (relAddr : UInt32 → σ → σ × Option Nat) : List (Repsite × RepsChange) → σ → NvlEntry → Prop
  | [], _, _ => True
  | (r, c) :: rest, st, e => ∀ st' e', r.apply relAddr st e c = .ok (st', e') →
      r.Met relAddr st e.sites c ∧ StepsMet relAddr rest st' e'

theorem stepsAct_iff (small : ∀ a st i, (relAddr a st).2 = some i → i < 255) {changes : List (Repsite × RepsChange)}
    (holds : e.Holds l) : StepsAct relAddr changes st e ↔ StepsMet relAddr changes st e := by
  induction changes generalizing st e l with
  | nil => exact Iff.rfl
  | cons change rest ih =>
    refine forall_congr' fun st' => forall_congr' fun e' => forall_congr' fun done => ?_
    rw [holds.sites]
    rcases apply_step small holds done with ⟨met, acts, held⟩ | ⟨unmet, fails⟩
    · rw [and_iff_right acts, and_iff_right met]
      exact ih held
    · exact iff_of_false (fun both => fails both.1) fun both => unmet both.1

end Repsite

theorem Globals.relAddr_lt {ipaddr : UInt32} {g : Globals} {i : Nat} (found : (Globals.relAddr ipaddr g).2 = some i) :
    i < 255 := by
  have inside : i ∈ slots := by
    unfold Globals.relAddr Globals.ipAddrToRelAddr at found
    cases here : g.findServer ipaddr slots with
    | error _ =>
      rw [here] at found
      cases found
    | ok r =>
      rw [here] at found
      cases r with
      | some j =>
        cases found
        exact findServer_mem g here
      | none =>
        split at found
        · rename_i known
          obtain ⟨j, free, same⟩ := Option.map_eq_some_iff.mp known
          cases same
          cases found
          exact mem_of_find?_eq_some free
        · cases found
  exact List.mem_range.mp inside

/-- The changes of a request that succeeds act on the list of the sites exactly if sites are deleted from lists of at most
    eight and the new servers are found. -/
theorem sites_change_as_list {g : Globals} {e : NvlEntry} {l : List RawSite} (u : VldbUpdateEntry) (holds : e.Holds l) :
    (∀ g' e', u.updateSites Globals.relAddr g e = .ok (g', e') →
        Repsite.StepsAct Globals.relAddr (u.changes (List.range u.nModifiedRepsites.toNat)) g e) ↔
      ∀ g' e', u.updateSites Globals.relAddr g e = .ok (g', e') →
        Repsite.StepsMet Globals.relAddr (u.changes (List.range u.nModifiedRepsites.toNat)) g e :=
  forall_congr' fun _ => forall_congr' fun _ => forall_congr' fun _ =>
    Repsite.stepsAct_iff (fun _ _ _ => Globals.relAddr_lt) holds

def manySites (n : Nat) : NvlEntry where
  serverNumber i := if i < n then .ofNat i else badServerId
  serverPartition i := if i < n then 0 else badServerId
  serverFlags i := if i < n then 0 else badServerId

theorem manySites_holds {n : Nat} (few : n = 2 ∨ n = 9) : (manySites n).Holds ((List.range n).map (manySites n).rawSite) := by
  constructor
  · rcases few with rfl | rfl <;> decide
  · intro i inside
    rw [length_map, length_range] at inside
    rw [getElem?_map, getElem?_range inside]
    rfl
  · rcases few with rfl | rfl <;> decide
  · intro i behind _
    rw [length_map, length_range] at behind
    exact if_neg (by omega)

def deleteFirst : VldbUpdateEntry where
  mask := VldbUpdateEntry.repsitesBit
  name := []
  rwId := 0
  flags := 0
  readOnlyId := 0
  backupId := 0
  cloneId := 0
  nModifiedRepsites := 1
  repsites _ := { mask := Repsite.deleteBit, targetServer := 1, targetPart := 0, newServer := 0, newPart := 0, newFlags := 0 }

def plainServers : Globals := { hostAddress := fun i => .ofNat (i + 1) }

theorem sites_change_as_list_of_two :
    (∀ g' e', deleteFirst.updateSites Globals.relAddr plainServers (manySites 2) = .ok (g', e') →
        Repsite.StepsAct Globals.relAddr (deleteFirst.changes (List.range 1)) plainServers (manySites 2)) ↔
      ∀ g' e', deleteFirst.updateSites Globals.relAddr plainServers (manySites 2) = .ok (g', e') →
        Repsite.StepsMet Globals.relAddr (deleteFirst.changes (List.range 1)) plainServers (manySites 2) :=
  sites_change_as_list deleteFirst (manySites_holds (.inl rfl))

/-- One of nine sites is deleted, and two are gone. -/
theorem delete_loses_sites : ¬ ∀ (g : Globals) (e : NvlEntry) (l : List RawSite) (u : VldbUpdateEntry), e.Holds l →
    ∀ g' e', u.updateSites Globals.relAddr g e = .ok (g', e') →
      Repsite.StepsAct Globals.relAddr (u.changes (List.range u.nModifiedRepsites.toNat)) g e := by
  intro all
  have holds := manySites_holds (.inr (Eq.refl 9))
  have acts := all plainServers (manySites 9) _ deleteFirst holds plainServers (repsiteCompress 7 0 (manySites 9)) rfl
  have met := (Repsite.stepsAct_iff (fun _ _ _ => Globals.relAddr_lt) holds).mp acts
  obtain ⟨few, -⟩ := (met plainServers (manySites 9) rfl).2 plainServers (repsiteCompress 7 0 (manySites 9)) rfl
  rw [holds.sites] at few
  have nine : ((List.range 9).map (manySites 9).rawSite).length ≤ oMaxNServers := few
  exact absurd nine (by decide)

end OpenAFS.Vlserver
