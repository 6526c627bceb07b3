import OpenAFS.Vlserver.Servers

namespace OpenAFS.Vlserver

open Function (update update_self update_of_ne)
open Lib List

structure Site where
  address : UInt32
  partition : Int
  flags : Int
  deriving DecidableEq, Repr

/-- A server in the form with uuids; without one only the first word of the uuid is set. -/
inductive UuidServer where
  | timeLow (address : UInt32)
  | uuid (uuid : Uuid) (unique : UInt32)
  deriving DecidableEq

structure UuidSite where
  server : UuidServer
  partition : Int
  flags : UInt8
  deriving DecidableEq

structure ExternalEntry (σ : Type) where
  name : List UInt8
  sites : List σ
  volumeId : VolType → UInt32
  cloneId : UInt32
  flags : UInt32

def VldbEntry.site (v : VldbEntry) (i : Nat) : Site := ⟨v.serverNumber i, v.serverPartition i, v.serverFlags i⟩

def VldbEntry.sites (v : VldbEntry) : List Site := (List.range v.nServers.toNat).map v.site

namespace Globals

def putSites (v : VldbEntry) : List Nat → Globals → NvlEntry → Option (Globals × NvlEntry)
  | [], g, e => some (g, e)
  | i :: rest, g, e =>
    match g.ipAddrToRelAddr (v.serverNumber i) with
    | none => none
    | some (g, serverindex) =>
      putSites v rest g { e with
        serverNumber := update e.serverNumber i (.ofNat serverindex)
        serverPartition := update e.serverPartition i (.ofInt (v.serverPartition i))
        serverFlags := update e.serverFlags i (.ofInt (v.serverFlags i)) }

def clearFrom (n maxServers : Nat) (old : Nat → UInt8) (i : Nat) : UInt8 := if n ≤ i ∧ i < maxServers then badServerId else old i

/-- `vldbentry_to_vlentry` and `nvldbentry_to_vlentry`; `none` is `VL_BADSERVER`. -/
def toVlentry (maxServers : Nat) (v : VldbEntry) (g : Globals) (e : NvlEntry) : Option (Globals × NvlEntry) :=
  (putSites v (List.range v.nServers.toNat) g { e with name := v.name }).map fun (g, e) =>
    (g, { e with
      serverNumber := clearFrom v.nServers.toNat maxServers e.serverNumber
      serverPartition := clearFrom v.nServers.toNat maxServers e.serverPartition
      serverFlags := clearFrom v.nServers.toNat maxServers e.serverFlags
      volumeId := v.volumeId
      cloneId := v.cloneId
      flags := v.flags })

end Globals

/-- An entry written by `vlentrywrite` and read by `vlentryread`. The old databases have room for eight sites, but
thirteen numbers, partitions and flags are read from them; `beyond` is what lies behind the entry that is read. -/
def NvlEntry.reread (maxnservers : Nat) (beyond : Nat → UInt8) (e : NvlEntry) : NvlEntry :=
  if maxnservers = nMaxNServers then e
  else
    { e with
      serverNumber := fun i => if i < oMaxNServers then e.serverNumber i else e.serverPartition (i - oMaxNServers)
      serverPartition := fun i => if i < oMaxNServers then e.serverPartition i else e.serverFlags (i - oMaxNServers)
      serverFlags := fun i =>
        if i < oMaxNServers then e.serverFlags i else if i < oMaxNServers + 2 then 0 else beyond (i - (oMaxNServers + 2)) }

namespace Globals

variable (g : Globals)

/-- The address given for a server; a multi-homed one that has no entry is a null pointer. -/
def externalAddr (server : UInt8) : Option UInt32 :=
  let host := g.hostAddress server.toNat
  if isMultiHomed host then (g.extentAddr host).map fun exp => exp.list.headD 0 else some host

def externalSite (e : NvlEntry) (i : Nat) : Option Site :=
  (g.externalAddr (e.serverNumber i)).map fun address => ⟨address, (e.serverPartition i).toNat, (e.serverFlags i).toNat⟩

def uuidFlag : UInt8 := 0x10

def uuidSite (e : NvlEntry) (i : Nat) : Option UuidSite :=
  let host := g.hostAddress (e.serverNumber i).toNat
  if isMultiHomed host then
    (g.extentAddr host).map fun exp =>
      ⟨.uuid exp.hostUuid exp.uniquifier, (e.serverPartition i).toNat, e.serverFlags i ||| uuidFlag⟩
  else some ⟨.timeLow host, (e.serverPartition i).toNat, e.serverFlags i⟩

def usedSlots (maxServers : Nat) (e : NvlEntry) : List Nat :=
  (List.range maxServers).takeWhile fun i => e.serverNumber i ≠ badServerId

def external {σ : Type} (maxServers : Nat) (site : NvlEntry → Nat → Option σ) (e : NvlEntry) : Option (ExternalEntry σ) :=
  ((usedSlots maxServers e).mapM (site e)).map fun sites =>
    { name := e.name, sites, volumeId := e.volumeId, cloneId := e.cloneId, flags := e.flags }

def vlentryToVldbentry (e : NvlEntry) : Option (ExternalEntry Site) := external oMaxNServers g.externalSite e

def vlentryToNvldbentry (e : NvlEntry) : Option (ExternalEntry Site) := external nMaxNServers g.externalSite e

def vlentryToUvldbentry (e : NvlEntry) : Option (ExternalEntry UuidSite) := external nMaxNServers g.uuidSite e

/-- The address is in the table for a server with one address, and no other server comes before it. -/
def SingleHomed (address : UInt32) : Prop :=
  ∃ i, g.findServer address slots = .ok (some i) ∧ g.hostAddress i = address ∧ isMultiHomed address = false

theorem findServer_mem {ipaddr : UInt32} {list : List Nat} {i : Nat} (found : g.findServer ipaddr list = .ok (some i)) :
    i ∈ list := by
  induction list with
  | nil => cases found
  | cons j rest ih =>
    unfold findServer at found
    split at found
    · cases found
      exact mem_cons_self
    split at found
    · split at found
      · cases found
      split at found
      · cases found
        exact mem_cons_self
      · exact mem_cons_of_mem _ (ih found)
    · exact mem_cons_of_mem _ (ih found)

theorem SingleHomed.slot {address : UInt32} (single : g.SingleHomed address) :
    ∃ i, g.ipAddrToRelAddr address = some (g, i) ∧ i ≤ maxServerId ∧ g.hostAddress i = address := by
  obtain ⟨i, found, here, -⟩ := single
  refine ⟨i, ?_, ?_, here⟩
  · unfold ipAddrToRelAddr
    rw [found]
  · have inside := g.findServer_mem found
    rw [slots, mem_range] at inside
    omega

theorem slot_ne_bad {i : Nat} (small : i ≤ maxServerId) : UInt8.ofNat i ≠ badServerId := by
  intro same
  have value := congrArg UInt8.toNat same
  rw [UInt8.toNat_ofNat_of_lt' (by unfold maxServerId at small; change i < 256; omega)] at value
  change i = 255 at value
  unfold maxServerId at small
  omega

structure Holds (v : VldbEntry) (e : NvlEntry) (i : Nat) : Prop where
  used : e.serverNumber i ≠ badServerId
  server : g.hostAddress (e.serverNumber i).toNat = v.serverNumber i
  partition : e.serverPartition i = .ofInt (v.serverPartition i)
  flags : e.serverFlags i = .ofInt (v.serverFlags i)

structure SamePlace (e e' : NvlEntry) (i : Nat) : Prop where
  server : e'.serverNumber i = e.serverNumber i
  partition : e'.serverPartition i = e.serverPartition i
  flags : e'.serverFlags i = e.serverFlags i

theorem putSites_holds {v : VldbEntry} (list : List Nat) (registered : ∀ i ∈ list, g.SingleHomed (v.serverNumber i))
    (e : NvlEntry) :
    ∃ e', putSites v list g e = some (g, e') ∧ (∀ i ∈ list, g.Holds v e' i) ∧ (∀ i ∉ list, SamePlace e e' i) ∧
      e'.name = e.name := by
  induction list generalizing e with
  | nil => exact ⟨e, rfl, fun i inside => absurd inside not_mem_nil, fun i _ => ⟨rfl, rfl, rfl⟩, rfl⟩
  | cons i rest ih =>
    obtain ⟨server, found, small, host⟩ := (registered i mem_cons_self).slot
    obtain ⟨e', put, holds, same, name⟩ := ih (fun j inside => registered j (mem_cons_of_mem _ inside))
      { e with
        serverNumber := update e.serverNumber i (.ofNat server)
        serverPartition := update e.serverPartition i (.ofInt (v.serverPartition i))
        serverFlags := update e.serverFlags i (.ofInt (v.serverFlags i)) }
    have back : (UInt8.ofNat server).toNat = server := by
      rw [UInt8.toNat_ofNat_of_lt']
      unfold maxServerId at small
      change server < 256
      omega
    refine ⟨e', ?_, fun j inside => ?_, fun j outside => ?_, name⟩
    · unfold putSites
      rw [found]
      exact put
    · by_cases later : j ∈ rest
      · exact holds j later
      obtain rfl := (List.mem_cons.mp inside).resolve_right later
      have kept := same j later
      have number : e'.serverNumber j = .ofNat server := kept.server.trans (update_self ..)
      exact
        { used := by
            rw [number]
            exact slot_ne_bad small
          server := by rw [number, back, host]
          partition := kept.partition.trans (update_self ..)
          flags := kept.flags.trans (update_self ..) }
    · rw [mem_cons, not_or] at outside
      have kept := same j outside.2
      exact
        { server := kept.server.trans (update_of_ne outside.1 ..)
          partition := kept.partition.trans (update_of_ne outside.1 ..)
          flags := kept.flags.trans (update_of_ne outside.1 ..) }

structure StoredInto (maxServers : Nat) (v : VldbEntry) (e e' : NvlEntry) : Prop where
  holds : ∀ i < v.nServers.toNat, g.Holds v e' i
  unused : ∀ i, v.nServers.toNat ≤ i → i < maxServers → e'.serverNumber i = badServerId
  beyond : ∀ i, v.nServers.toNat ≤ i → maxServers ≤ i → SamePlace e e' i
  name : e'.name = v.name
  volumeId : e'.volumeId = v.volumeId
  cloneId : e'.cloneId = v.cloneId

theorem toVlentry_stored (maxServers : Nat) {v : VldbEntry}
    (registered : ∀ i < v.nServers.toNat, g.SingleHomed (v.serverNumber i)) (e : NvlEntry) :
    ∃ e', toVlentry maxServers v g e = some (g, e') ∧ g.StoredInto maxServers v e e' ∧ e'.flags = v.flags := by
  obtain ⟨e', put, holds, same, name⟩ := g.putSites_holds (List.range v.nServers.toNat)
    (fun i inside => registered i (List.mem_range.mp inside)) { e with name := v.name }
  unfold toVlentry
  rw [put]
  refine ⟨_, rfl, ?_, rfl⟩
  have kept (old : Nat → UInt8) {i : Nat} (other : ¬ (v.nServers.toNat ≤ i ∧ i < maxServers)) :
      clearFrom v.nServers.toNat maxServers old i = old i := if_neg other
  exact
    { holds := fun i within => by
        have held := holds i (List.mem_range.mpr within)
        have other : ¬ (v.nServers.toNat ≤ i ∧ i < maxServers) := by omega
        exact
          { used := ne_of_eq_of_ne (kept _ other) held.used
            server := (congrArg (fun number : UInt8 => g.hostAddress number.toNat) (kept _ other)).trans held.server
            partition := (kept _ other).trans held.partition
            flags := (kept _ other).trans held.flags }
      unused := fun i outside room => if_pos ⟨outside, room⟩
      beyond := fun i outside full => by
        have behind := same i (by rw [mem_range]; omega)
        have other : ¬ (v.nServers.toNat ≤ i ∧ i < maxServers) := by omega
        exact ⟨(kept _ other).trans behind.server, (kept _ other).trans behind.partition, (kept _ other).trans behind.flags⟩
      name
      volumeId := rfl
      cloneId := rfl }

theorem StoredInto.release {maxServers : Nat} {v : VldbEntry} {e e' : NvlEntry} (stored : g.StoredInto maxServers v e e')
    (releasetype : UInt32) : g.StoredInto maxServers v e (releaseEntry releasetype e') :=
  { holds := fun i within =>
      have held := stored.holds i within
      ⟨held.used, held.server, held.partition, held.flags⟩
    unused := stored.unused
    beyond := fun i outside full =>
      have same := stored.beyond i outside full
      ⟨same.server, same.partition, same.flags⟩
    name := stored.name
    volumeId := stored.volumeId
    cloneId := stored.cloneId }

end Globals

theorem checkEntry_ok {maxServers : Nat} {v : VldbEntry} (ok : checkEntry maxServers v = .ok ()) :
    0 < v.nServers ∧ v.nServers ≤ maxServers ∧ ∀ i < v.nServers.toNat,
      (0 ≤ v.serverPartition i ∧ v.serverPartition i ≤ 255) ∧ 0 ≤ v.serverFlags i ∧ v.serverFlags i ≤ 128 := by
  obtain ⟨-, ok⟩ := ensure_then.mp ok
  obtain ⟨servers, ok⟩ := ensure_then.mp ok
  refine ⟨servers.1, servers.2, fun i within => ?_⟩
  have each := (except_forM_eq_ok.mp ok) i (List.mem_range.mpr within)
  obtain ⟨partition, each⟩ := ensure_then.mp each
  exact ⟨partition, ensure_eq_ok.mp each⟩

theorem toNat_ofInt {x : Int} (nonneg : 0 ≤ x) (small : x ≤ 255) : ((UInt8.ofInt x).toNat : Int) = x := by
  obtain ⟨n, rfl⟩ := Int.eq_ofNat_of_zero_le nonneg
  have value : (UInt8.ofInt n).toNat = ((n : Int) % 2 ^ 8).toNat % 2 ^ 8 := UInt8.toNat_ofNat'
  omega

theorem takeWhile_range (p : Nat → Bool) (m : Nat) :
    ∃ k ≤ m, (List.range m).takeWhile p = List.range k ∧ (∀ i < k, p i) ∧ (k < m → p k = false) := by
  induction m with
  | zero => exact ⟨0, Nat.le_refl 0, rfl, by omega, by omega⟩
  | succ m ih =>
    obtain ⟨k, le, eq, all, stops⟩ := ih
    rw [range_succ, takeWhile_append, eq, length_range, length_range]
    by_cases here : k = m
    · subst here
      rw [if_pos rfl]
      by_cases last : p k
      · refine ⟨k + 1, Nat.le_refl _, ?_, ?_, by omega⟩
        · rw [range_succ, takeWhile_cons_of_pos last, takeWhile_nil]
        intro i within
        rcases Nat.lt_succ_iff_lt_or_eq.mp within with less | rfl
        · exact all i less
        · exact last
      · refine ⟨k, by omega, ?_, all, fun _ => by simpa using last⟩
        rw [takeWhile_cons_of_neg last, append_nil]
    · rw [if_neg here]
      exact ⟨k, by omega, rfl, all, fun _ => stops (by omega)⟩

theorem read_iff {σ : Type} {site : NvlEntry → Nat → Option σ} {e : NvlEntry} {places n : Nat} (room : n ≤ places)
    (sites : Nat → σ) :
    (Globals.usedSlots places e).mapM (site e) = some ((List.range n).map sites) ↔
      (∀ i < n, e.serverNumber i ≠ badServerId ∧ site e i = some (sites i)) ∧ (n < places → e.serverNumber n = badServerId) := by
  obtain ⟨k, le, eq, used, stops⟩ := takeWhile_range (fun i => e.serverNumber i ≠ badServerId) places
  unfold Globals.usedSlots
  rw [eq, mapM_range_iff]
  simp only [decide_eq_true_eq, decide_eq_false_iff_not, not_not] at used stops
  constructor
  · rintro ⟨rfl, all⟩
    exact ⟨fun i within => ⟨used i within, all i within⟩, stops⟩
  rintro ⟨all, stop⟩
  have same : k = n := by
    by_contra other
    rcases Nat.lt_or_gt_of_ne other with less | more
    · exact (all k less).1 (stops (by omega))
    · exact used n more (stop (by omega))
  exact ⟨same, fun i within => (all i within).2⟩

def Site.withUuid (s : Site) : UuidSite := ⟨.timeLow s.address, s.partition, .ofInt s.flags⟩

/-- An entry that is read has the fields and the sites that a caller has stored. -/
structure ExternalEntry.Same {σ : Type} (x : ExternalEntry σ) (v : VldbEntry) (sites : List σ) : Prop where
  name : x.name = v.name
  volumeId : x.volumeId = v.volumeId
  cloneId : x.cloneId = v.cloneId
  flags : x.flags = v.flags
  sites : x.sites = sites

inductive Interface where
  | old
  | new
  | uuid

namespace Globals

/-- What is read through an interface is what a caller has stored; the old one has room for eight sites. -/
def Reads (g : Globals) (v : VldbEntry) (e : NvlEntry) : Interface → Prop
  | .old => ∃ x, g.vlentryToVldbentry e = some x ∧ x.Same v (v.sites.take oMaxNServers)
  | .new => ∃ x, g.vlentryToNvldbentry e = some x ∧ x.Same v v.sites
  | .uuid => ∃ x, g.vlentryToUvldbentry e = some x ∧ x.Same v (v.sites.map Site.withUuid)

/-- A caller's entry is stored over `e₀`, written, and read again. -/
def RoundTrips (g : Globals) (maxServers : Nat) (v : VldbEntry) (e₀ : NvlEntry) (releasetype : UInt32) (maxnservers : Nat)
    (beyond : Nat → UInt8) (interface : Interface) : Prop :=
  ∃ g' e, toVlentry maxServers v g e₀ = some (g', e) ∧
    g'.Reads v ((releaseEntry releasetype e).reread maxnservers beyond) interface

end Globals

/-- What an old database gives for the places behind the eighth: partitions for servers, flags for partitions. -/
def VldbEntry.behind (v : VldbEntry) (beyond : Nat → UInt8) : NvlEntry where
  serverNumber i := .ofInt (v.serverPartition (i - oMaxNServers))
  serverPartition i := .ofInt (v.serverFlags (i - oMaxNServers))
  serverFlags i := if i < oMaxNServers + 2 then 0 else beyond (i - (oMaxNServers + 2))

/-- When thirteen places are read, the places behind the sites are unused ones. -/
def EndsUnused {σ : Type} (maxServers : Nat) (v : VldbEntry) (e₀ : NvlEntry) (maxnservers : Nat) (beyond : Nat → UInt8)
    (site : NvlEntry → Nat → Option σ) (sites : Nat → σ) : Prop :=
  let n := v.nServers.toNat
  if maxnservers = nMaxNServers then maxServers = n → n < nMaxNServers → e₀.serverNumber n = badServerId
  else
    oMaxNServers ≤ n → (∀ i, oMaxNServers ≤ i → i < n →
        (v.behind beyond).serverNumber i ≠ badServerId ∧ site (v.behind beyond) i = some (sites i)) ∧
      (n < nMaxNServers → (v.behind beyond).serverNumber n = badServerId)

def KeepsSites (g : Globals) (maxServers : Nat) (v : VldbEntry) (e₀ : NvlEntry) (maxnservers : Nat) (beyond : Nat → UInt8) :
    Interface → Prop
  | .old => True
  | .new => EndsUnused maxServers v e₀ maxnservers beyond g.externalSite v.site
  | .uuid => EndsUnused maxServers v e₀ maxnservers beyond g.uuidSite fun i => (v.site i).withUuid

section

variable {g : Globals} {maxServers : Nat} {v : VldbEntry} {e e₀ : NvlEntry} {σ : Type} {site : NvlEntry → Nat → Option σ}
  {sites : Nat → σ}

structure Form (g : Globals) (v : VldbEntry) (site : NvlEntry → Nat → Option σ) (sites : Nat → σ) : Prop where
  agrees : ∀ e, ∀ i < v.nServers.toNat, g.Holds v e i → site e i = some (sites i)
  congr : ∀ e e' i, Globals.SamePlace e e' i → site e' i = site e i

theorem externalSite_form (accepted : checkEntry maxServers v = .ok ())
    (registered : ∀ i < v.nServers.toNat, g.SingleHomed (v.serverNumber i)) : Form g v g.externalSite v.site := by
  obtain ⟨-, -, bounds⟩ := checkEntry_ok accepted
  constructor
  · intro e i within held
    obtain ⟨partition, flags⟩ := bounds i within
    obtain ⟨-, -, -, single⟩ := registered i within
    unfold Globals.externalSite Globals.externalAddr
    rw [held.server, held.partition, held.flags, toNat_ofInt partition.1 partition.2, toNat_ofInt flags.1 (by omega)]
    simp only [single, Bool.false_eq_true, if_false]
    rfl
  · intro e e' i same
    unfold Globals.externalSite
    rw [same.server, same.partition, same.flags]

theorem uuidSite_form (accepted : checkEntry maxServers v = .ok ())
    (registered : ∀ i < v.nServers.toNat, g.SingleHomed (v.serverNumber i)) :
    Form g v g.uuidSite fun i => (v.site i).withUuid := by
  obtain ⟨-, -, bounds⟩ := checkEntry_ok accepted
  constructor
  · intro e i within held
    obtain ⟨partition, -⟩ := bounds i within
    obtain ⟨-, -, -, single⟩ := registered i within
    unfold Globals.uuidSite
    rw [held.server, held.partition, held.flags, toNat_ofInt partition.1 partition.2]
    simp only [single, Bool.false_eq_true, if_false]
    rfl
  · intro e e' i same
    unfold Globals.uuidSite
    rw [same.server, same.partition, same.flags]

theorem external_same_iff {places n : Nat} (room : n ≤ places) :
    (∃ x, Globals.external places site e = some x ∧ x.Same v ((List.range n).map sites)) ↔
      (e.name = v.name ∧ e.volumeId = v.volumeId ∧ e.cloneId = v.cloneId ∧ e.flags = v.flags) ∧
        (∀ i < n, e.serverNumber i ≠ badServerId ∧ site e i = some (sites i)) ∧
          (n < places → e.serverNumber n = badServerId) := by
  rw [← read_iff room]
  unfold Globals.external
  constructor
  · rintro ⟨x, read, same⟩
    obtain ⟨list, listed, rfl⟩ := Option.map_eq_some_iff.mp read
    exact ⟨⟨same.name, same.volumeId, same.cloneId, same.flags⟩, listed.trans (congrArg some same.sites)⟩
  · rintro ⟨⟨name, volumeId, cloneId, flags⟩, listed⟩
    rw [listed]
    exact ⟨_, rfl, name, volumeId, cloneId, flags, rfl⟩

theorem reread_behind {maxnservers : Nat} {beyond : Nat → UInt8} (old : maxnservers ≠ nMaxNServers)
    (stored : g.StoredInto maxServers v e₀ e) {i : Nat} (late : oMaxNServers ≤ i) (within : i - oMaxNServers < v.nServers.toNat) :
    Globals.SamePlace (v.behind beyond) (e.reread maxnservers beyond) i := by
  have held := stored.holds (i - oMaxNServers) within
  have behind : ¬ i < oMaxNServers := by omega
  unfold NvlEntry.reread
  rw [if_neg old]
  constructor
  · dsimp only
    rw [if_neg behind]
    exact held.partition
  · dsimp only
    rw [if_neg behind]
    exact held.flags
  · dsimp only
    rw [if_neg behind]
    rfl

theorem reread_same (e : NvlEntry) {maxnservers : Nat} (beyond : Nat → UInt8) {i : Nat}
    (kept : maxnservers = nMaxNServers ∨ i < oMaxNServers) : Globals.SamePlace e (e.reread maxnservers beyond) i := by
  unfold NvlEntry.reread
  split
  · exact ⟨rfl, rfl, rfl⟩
  · rename_i old
    have early := kept.resolve_left old
    exact ⟨if_pos early, if_pos early, if_pos early⟩

theorem endsUnused_iff {maxnservers : Nat} {beyond : Nat → UInt8} (form : Form g v site sites)
    (call : maxServers = oMaxNServers ∨ maxServers = nMaxNServers) (room : v.nServers.toNat ≤ maxServers)
    (stored : g.StoredInto maxServers v e₀ e) :
    ((∀ i < v.nServers.toNat, (e.reread maxnservers beyond).serverNumber i ≠ badServerId ∧
          site (e.reread maxnservers beyond) i = some (sites i)) ∧
        (v.nServers.toNat < nMaxNServers → (e.reread maxnservers beyond).serverNumber v.nServers.toNat = badServerId)) ↔
      EndsUnused maxServers v e₀ maxnservers beyond site sites := by
  have early {i : Nat} (within : i < v.nServers.toNat) (kept : maxnservers = nMaxNServers ∨ i < oMaxNServers) :
      (e.reread maxnservers beyond).serverNumber i ≠ badServerId ∧ site (e.reread maxnservers beyond) i = some (sites i) := by
    have same := reread_same e beyond kept
    rw [same.server, form.congr _ _ _ same]
    exact ⟨(stored.holds i within).used, form.agrees e i within (stored.holds i within)⟩
  unfold EndsUnused
  by_cases new : maxnservers = nMaxNServers
  · rw [if_pos new, and_iff_right fun i within => early within (.inl new), (reread_same e beyond (.inl new)).server]
    constructor
    · intro unused full less
      rw [← (stored.beyond _ (Nat.le_refl _) (Nat.le_of_eq full)).server]
      exact unused less
    intro unused less
    by_cases full : maxServers = v.nServers.toNat
    · rw [(stored.beyond _ (Nat.le_refl _) (Nat.le_of_eq full)).server]
      exact unused full less
    · exact stored.unused _ (Nat.le_refl _) (by omega)
  rw [if_neg new]
  by_cases few : v.nServers.toNat < oMaxNServers
  · refine iff_of_true ⟨fun i within => early within (.inr (by omega)), fun _ => ?_⟩ fun many => by omega
    rw [(reread_same e beyond (.inr few)).server]
    exact stored.unused _ (Nat.le_refl _) (by omega)
  rw [imp_iff_right (show oMaxNServers ≤ v.nServers.toNat from Nat.not_lt.mp few)]
  have late {i : Nat} (after : oMaxNServers ≤ i) (within : i < nMaxNServers) :
      Globals.SamePlace (v.behind beyond) (e.reread maxnservers beyond) i :=
    reread_behind new stored after (by unfold oMaxNServers nMaxNServers at *; omega)
  have place {i : Nat} (after : oMaxNServers ≤ i) (within : i < nMaxNServers) :
      ((e.reread maxnservers beyond).serverNumber i = (v.behind beyond).serverNumber i ∧
        site (e.reread maxnservers beyond) i = site (v.behind beyond) i) :=
    ⟨(late after within).server, form.congr _ _ _ (late after within)⟩
  refine and_congr ?_ (imp_congr_right fun less => ?_)
  · constructor
    · intro all i after within
      obtain ⟨server, decoded⟩ := place after (by omega)
      rw [← server, ← decoded]
      exact all i within
    intro all i within
    by_cases first : i < oMaxNServers
    · exact early within (.inr first)
    · obtain ⟨server, decoded⟩ := place (Nat.not_lt.mp first) (by omega)
      rw [server, decoded]
      exact all i (Nat.not_lt.mp first) within
  · rw [(place (Nat.not_lt.mp few) less).1]

def oneServer : Globals := { hostAddress := fun i => if i = 0 then 1 else 0 }

def eightSites : VldbEntry where
  name := [118]
  nServers := 8
  serverNumber _ := 1
  serverPartition i := i
  serverFlags _ := 4
  volumeId _ := 5
  cloneId := 0
  flags := 0

theorem oneServer_single : oneServer.SingleHomed 1 := ⟨0, rfl, rfl, by decide⟩

end

end OpenAFS.Vlserver
