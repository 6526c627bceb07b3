import OpenAFS.Vlserver.Representation

namespace OpenAFS.Vlserver

open Lib

variable {b : Nat}

namespace Kept

variable {db : Vldb} {live free : List Nat}

variable (kept : Kept db live free)
include kept

theorem findByName (volname : List UInt8) :
    ∃ r, db.findByName volname = .ok r ∧ (r = 0 ∧ (∀ c ∈ live, (db.block c).name ≠ zapExtension volname) ∨
      r ∈ live ∧ (db.block r).name = zapExtension volname) := by
  obtain ⟨on, threaded, members⟩ := kept.inv.threads
  have range := valid_nameChain (zapExtension volname)
  obtain ⟨r, found, cases⟩ := findFrom_cases (fun e => zapExtension volname = e.name) (threaded.chains .name _ range)
    (threaded.length_chain .name range)
  refine ⟨r, found, cases.imp (And.imp_right fun absent c inside same => ?_) fun ⟨inside, hit⟩ => ?_⟩
  · refine absent c ?_ (decide_eq_true same.symm)
    rw [List.mem_filter, decide_eq_true_eq, members]
    refine ⟨⟨inside, trivial⟩, ?_⟩
    show (nameHash (db.block c).name : Int) = nameHash (zapExtension volname)
    rw [same]
  · exact ⟨((members _ r).mp (List.mem_filter.mp inside).1).1, (of_decide_eq_true hit).symm⟩

theorem findOfType (inside : b ∈ live) (t t' : VolType)
    (nonzero : (db.block b).volumeId t ≠ 0) :
    ∃ r, db.findOfType ((db.block b).volumeId t) t' = .ok r ∧
      (r = 0 ∧ (∀ c ∈ live, (db.block c).volumeId t' ≠ (db.block b).volumeId t) ∨
        r ∈ live ∧ (db.block r).volumeId t' = (db.block b).volumeId t) := by
  obtain ⟨on, threaded, members⟩ := kept.inv.threads
  have hash : (Thread.id t).valid ((db.block b).chain (.id t)) :=
    threaded.ranges (.id t) b ((members _ b).mpr ⟨inside, nonzero⟩)
  have range : (Thread.id t').valid (hashSize * (t'.index + 1) + idHash ((db.block b).volumeId t)) := by
    simp only [Thread.valid, NvlEntry.chain, hashSize] at hash ⊢
    omega
  obtain ⟨r, found, cases⟩ := findFrom_cases (fun e => (db.block b).volumeId t = e.volumeId t')
    (threaded.chains (.id t') _ range) (threaded.length_chain (.id t') range)
  refine ⟨r, found, cases.imp (And.imp_right fun absent c inside' same => ?_) fun both => ?_⟩
  · refine absent c ?_ (decide_eq_true same.symm)
    rw [List.mem_filter, decide_eq_true_eq, members]
    refine ⟨⟨inside', ?_⟩, ?_⟩
    · rwa [NvlEntry.hashed, same]
    · show hashSize * (t'.index + 1) + idHash ((db.block c).volumeId t') = _
      rw [same]
  · obtain ⟨inside', hit⟩ := both
    exact ⟨((members _ r).mp (List.mem_filter.mp inside').1).1, (of_decide_eq_true hit).symm⟩

theorem findOfType_self (inside : b ∈ live) {t : VolType}
    (nonzero : (db.block b).volumeId t ≠ 0) : db.findOfType ((db.block b).volumeId t) t = .ok b := by
  obtain ⟨r, found, ⟨-, absent⟩ | ⟨inside', same⟩⟩ := kept.findOfType inside t t nonzero
  · exact absurd rfl (absent b inside)
  · rw [found, kept.inv.ids t r inside' b inside same (same ▸ nonzero)]

theorem ne_zero (inside : b ∈ live) : b ≠ 0 := by
  have low := (kept.inv.index inside).1
  unfold headerSize at low
  omega

theorem findOfType_earlier (inside : b ∈ live) {t t' : VolType}
    (nonzero : (db.block b).volumeId t ≠ 0)
    (apart : ∀ c ∈ live, c ≠ b → (db.block c).volumeId t' ≠ (db.block b).volumeId t) :
    db.findOfType ((db.block b).volumeId t) t' = .ok 0 ∨ db.findOfType ((db.block b).volumeId t) t' = .ok b := by
  obtain ⟨r, found, ⟨rfl, -⟩ | ⟨inside', same⟩⟩ := kept.findOfType inside t t' nonzero
  · exact .inl found
  have mine : r = b := by
    by_contra other
    exact apart r inside' other same
  exact .inr (mine ▸ found)

theorem findByID_any (inside : b ∈ live) {t : VolType}
    (nonzero : (db.block b).volumeId t ≠ 0)
    (apart : ∀ t' : VolType, t'.index < t.index → ∀ c ∈ live, c ≠ b → (db.block c).volumeId t' ≠ (db.block b).volumeId t) :
    db.findByID ((db.block b).volumeId t) none = .ok b := by
  have used := kept.ne_zero inside
  have own := kept.findOfType_self inside nonzero
  have bind : ∀ {r : Nat} {rest : Nat → Except VlError Nat}, (Except.ok r >>= rest) = rest r := rfl
  have earlier : ∀ t' : VolType, t'.index < t.index → db.findOfType ((db.block b).volumeId t) t' = .ok 0 ∨
      db.findOfType ((db.block b).volumeId t) t' = .ok b :=
    fun t' before => kept.findOfType_earlier inside nonzero (apart t' before)
  rw [Vldb.findByID]
  cases t with
  | rw => rw [own, bind, if_pos used]
  | ro =>
    rcases earlier .rw (by decide) with none | here
    · rw [none, bind, if_neg (by simp), own, bind, if_pos used]
    · rw [here, bind, if_pos used]
  | back =>
    rcases earlier .rw (by decide) with none | here
    · rw [none, bind, if_neg (by simp)]
      rcases earlier .ro (by decide) with none' | here'
      · rw [none', bind, if_neg (by simp), own]
      · rw [here', bind, if_pos used]
    · rw [here, bind, if_pos used]

end Kept

structure LookupsAgree (db : Vldb) : Prop where
  byName : ∀ b, db.Live b → (db.block b).flags &&& vlDeleted = 0 → nameIsId (db.block b).name = false →
    zapExtension (db.block b).name = (db.block b).name →
    (∀ c, db.Live c → (db.block c).name = (db.block b).name → c = b) →
    db.getEntryByName (db.block b).name = .ok (db.block b)
  byId : ∀ b, db.Live b → (db.block b).flags &&& vlDeleted = 0 → ∀ t, (db.block b).volumeId t ≠ 0 →
    db.getEntryByID ((db.block b).volumeId t) t.index = .ok (db.block b)
  /-- Without a type, where no other entry has the id under a type that comes earlier. -/
  byAnyId : ∀ b, db.Live b → (db.block b).flags &&& vlDeleted = 0 → ∀ t, (db.block b).volumeId t ≠ 0 →
    (∀ t' : VolType, t'.index < t.index → ∀ c, db.Live c → c ≠ b → (db.block c).volumeId t' ≠ (db.block b).volumeId t) →
    db.getEntryByID ((db.block b).volumeId t) (-1) = .ok (db.block b)

def NamesDiffer (db : Vldb) : Prop := ∀ b c, db.Live b → db.Live c → (db.block b).name = (db.block c).name → b = c

theorem getEntryByID_found {db : Vldb} {volid : UInt32} {voltype : Int} {t : Option VolType}
    (type : volTypeOf voltype = .ok t) (found : db.findByID volid t = .ok b) (nonzero : b ≠ 0)
    (kept : (db.block b).flags &&& vlDeleted = 0) : db.getEntryByID volid voltype = .ok (db.block b) := by
  have entry : db.findEntry volid voltype = .ok b :=
    except_bind_eq_ok.mpr ⟨t, type, except_bind_eq_ok.mpr ⟨b, found, ensure_then.mpr ⟨nonzero, rfl⟩⟩⟩
  exact except_bind_eq_ok.mpr ⟨b, entry, ensure_then.mpr ⟨kept, rfl⟩⟩

theorem Kept.lookups {db : Vldb} {live free : List Nat} (kept : Kept db live free) : LookupsAgree db := by
  constructor
  · intro b alive undeleted word plain only
    rw [kept.live_iff] at alive
    obtain ⟨r, found, ⟨-, absent⟩ | ⟨inside, same⟩⟩ := kept.findByName (db.block b).name
    · exact absurd plain.symm (absent b alive)
    have mine : r = b := only r ((kept.live_iff r).mpr inside) (same.trans plain)
    subst mine
    unfold Vldb.getEntryByName
    rw [if_neg (by rw [word]; decide)]
    exact ensure_then.mpr ⟨kept.legal r alive, except_bind_eq_ok.mpr ⟨r, found,
      ensure_then.mpr ⟨kept.ne_zero alive, ensure_then.mpr ⟨undeleted, rfl⟩⟩⟩⟩
  · intro b alive undeleted t nonzero
    rw [kept.live_iff] at alive
    have type : volTypeOf t.index = .ok (some t) := by cases t <;> rfl
    exact getEntryByID_found type (kept.findOfType_self alive nonzero) (kept.ne_zero alive) undeleted
  · intro b alive undeleted t nonzero apart
    rw [kept.live_iff] at alive
    have any : db.findByID ((db.block b).volumeId t) none = .ok b :=
      kept.findByID_any alive nonzero fun t' before c inside => apart t' before c ((kept.live_iff c).mpr inside)
    exact getEntryByID_found rfl any (kept.ne_zero alive) undeleted

def Vldb.Unused (db : Vldb) (name : List UInt8) (b : Nat) : Prop := ∀ c, db.Live c → c ≠ b → (db.block c).name ≠ name

/-- A call gives an entry no name that another has, where it does not look for one itself. -/
def VlCall.FreshName (db : Vldb) : VlCall → Prop
  | .createEntry v | .createEntryN v => zapExtension v.name = v.name ∨ db.Unused v.name 0
  | .deleteEntry _ _ => True
  | .replaceEntry volid voltype v _ | .replaceEntryN volid voltype v _ =>
    ∀ b, db.findEntry volid voltype = .ok b → db.Unused v.name b
  | .updateEntry volid voltype u _ =>
    u.has VldbUpdateEntry.volumeName → ∀ b, db.findEntry volid voltype = .ok b → db.Unused u.name b
  | .updateEntryByName volname u _ =>
    u.has VldbUpdateEntry.volumeName → ∀ b, db.findByName volname = .ok b → db.Unused u.name b

def FreshCalls (db : Vldb) (call : VlCall) : Prop :=
  (∃ db', db.call call = .ok db') → call.Plain db ∧ call.FreshName db

namespace Kept

variable {db db' : Vldb} {live free : List Nat}

variable (kept : Kept db live free)
include kept

variable (differ : NamesDiffer db)
include differ

theorem namesDiffer {live' free' : List Nat}
    (kept' : Kept db' live' free') (b : Nat) (old : ∀ c ∈ live', c ≠ b → c ∈ live)
    (others : ∀ c ∈ live, c ≠ b → (db'.block c).data = (db.block c).data)
    (fresh : b ∈ live' → ∀ c ∈ live, c ≠ b → (db.block c).name ≠ (db'.block b).name) : NamesDiffer db' := by
  intro c d alive alive' same
  rw [kept'.live_iff] at alive alive'
  by_cases first : c = b
  · by_cases second : d = b
    · rw [first, second]
    · subst first
      rw [name_of_data (others d (old d alive' second) second)] at same
      exact absurd same.symm (fresh alive d (old d alive' second) second)
  rw [name_of_data (others c (old c alive first) first)] at same
  by_cases second : d = b
  · subst second
    exact absurd same (fresh alive' c (old c alive first) first)
  · rw [name_of_data (others d (old d alive' second) second)] at same
    exact differ c d ((kept.live_iff c).mpr (old c alive first)) ((kept.live_iff d).mpr (old d alive' second)) same

theorem createNames {maxServers : Nat} {v : VldbEntry}
    (readWrite : v.volumeId .rw ≠ 0) (plain : ∀ t, v.volumeId t ≠ leastInt) (used : v.flags ≠ vlFree)
    (fresh : zapExtension v.name = v.name ∨ db.Unused v.name 0) (done : db.create maxServers v = .ok db') :
    NamesDiffer db' := by
  obtain ⟨b, new, free', kept', others, name, missing⟩ := kept.create readWrite plain used done
  refine kept.namesDiffer differ kept' b ?_ (fun c inside _ => others c inside) fun _ c inside other => ?_
  · exact fun c inside other => (List.mem_cons.mp inside).resolve_left other
  rw [name]
  rcases fresh with short | unused
  · obtain ⟨r, found, ⟨-, absent⟩ | ⟨inside', -⟩⟩ := kept.findByName v.name
    · rw [short] at absent
      exact absent c inside
    · cases missing.symm.trans found
      exact absurd rfl (kept.ne_zero inside')
  · exact unused c ((kept.live_iff c).mpr inside) (kept.ne_zero inside)

theorem replaceNames {maxServers : Nat} {volid : UInt32}
    {voltype : Int} {v : VldbEntry} {releasetype : UInt32} (plain : ∀ t, v.volumeId t ≠ leastInt)
    (used : releasedFlags releasetype v.flags ≠ vlFree)
    (fresh : ∀ b, db.findEntry volid voltype = .ok b → db.Unused v.name b)
    (done : db.replace maxServers volid voltype v releasetype = .ok db') : NamesDiffer db' := by
  obtain ⟨kept', b, inside, found, name, others⟩ := kept.replace plain used done
  refine kept.namesDiffer differ kept' b (fun c alive _ => alive) others fun _ c alive other => ?_
  rw [name]
  exact fresh b found c ((kept.live_iff c).mpr alive) other

theorem updateNames {u : VldbUpdateEntry} {releasetype : UInt32} (inside : b ∈ live) (plain : u.PlainIds)
    (used : releasedFlags releasetype (u.flagsOf (db.block b)) ≠ vlFree)
    (fresh : u.has VldbUpdateEntry.volumeName → db.Unused u.name b)
    (done : db.updateFound u releasetype b = .ok db') : NamesDiffer db' := by
  obtain ⟨kept', name, others⟩ := kept.updateFound inside plain used done
  refine kept.namesDiffer differ kept' b (fun c alive _ => alive) others fun _ c alive other => ?_
  rw [name, VldbUpdateEntry.nameOf]
  have live := (kept.live_iff c).mpr alive
  split
  · rename_i masked
    exact fresh masked c live other
  · exact fun same => other (differ c b live ((kept.live_iff b).mpr inside) same)

theorem callNames {call : VlCall} (plain : call.Plain db)
    (fresh : call.FreshName db) (done : db.call call = .ok db') : NamesDiffer db' := by
  cases call with
  | createEntry v | createEntryN v => exact kept.createNames differ plain.1 plain.2.1 plain.2.2 fresh done
  | deleteEntry volid voltype =>
    obtain ⟨b, kept', others⟩ := kept.deleteEntry done
    refine kept.namesDiffer differ kept' b (fun c inside _ => (List.mem_filter.mp inside).1) others fun inside => ?_
    simp at inside
  | replaceEntry volid voltype v releasetype | replaceEntryN volid voltype v releasetype =>
    exact kept.replaceNames differ plain.1 plain.2 fresh done
  | updateEntry volid voltype u releasetype =>
    obtain ⟨b, found, done⟩ := updateEntry_ok done
    exact kept.updateNames differ (kept.inv.findEntry found) plain.1 (plain.2 b found)
      (fun masked => fresh masked b found) done
  | updateEntryByName volname u releasetype =>
    obtain ⟨b, nonzero, found, done⟩ := updateEntryByName_ok done
    have inside := ((kept.inv.findByName found).resolve_left nonzero).1
    exact kept.updateNames differ inside plain.1 (plain.2 b found) (fun masked => fresh masked b found) done

end Kept

theorem vldb_names {db : Vldb} (reached : vldb.ReachWhere FreshCalls db) : NamesDiffer db := by
  refine @Machine.ReachWhere.invariant_using _ _ _ _ NamesDiffer ?_ ?_ db reached
  · rintro db rfl b c ⟨⟨n, place, below⟩, -⟩
    have low : b < headerSize := below
    omega
  intro db call db' before differ met taken
  have plain : vldb.ReachWhere PlainCalls db := before.mono fun s a met accepted => (met accepted).1
  obtain ⟨live, free, kept⟩ := vldb_kept plain
  rcases vldb_step taken with done | rfl
  · exact kept.callNames differ (met ⟨_, done⟩).1 (met ⟨_, done⟩).2 done
  · exact differ

/-- In every run whose successful calls are plain, lookups return the entries: by name where the name is neither a number
    nor has the extension of a backup or readonly volume, by id and type, and by id alone where no other entry has the id
    under an earlier type. Names stay apart as long as no call gives an entry a name that another has. -/
theorem vldb_lookups {db : Vldb} (reached : vldb.ReachWhere PlainCalls db) :
    LookupsAgree db ∧ (vldb.ReachWhere FreshCalls db → NamesDiffer db) := by
  obtain ⟨live, free, kept⟩ := vldb_kept reached
  exact ⟨kept.lookups, vldb_names⟩

theorem vldb_lookups_created : LookupsAgree (vldbAfter [.createEntry newVolume]) ∧
    NamesDiffer (vldbAfter [.createEntry newVolume]) := by
  have taken : vldb.step emptyVldb (.createEntry newVolume) = some (vldbAfter [.createEntry newVolume]) := rfl
  have plain : VlCall.Plain emptyVldb (.createEntry newVolume) :=
    ⟨by decide, fun t => by cases t <;> decide, by decide⟩
  have fresh : VlCall.FreshName emptyVldb (.createEntry newVolume) := .inl (by decide)
  obtain ⟨agree, differ⟩ := vldb_lookups (.step (.start rfl) (fun _ => plain) taken)
  exact ⟨agree, differ (.step (.start rfl) (fun _ => ⟨plain, fresh⟩) taken)⟩

theorem vldbAfter_reached (calls : List VlCall) : vldb.Reach (vldbAfter calls) := by
  have runs : ∀ db, ∃ db', vldb.run db calls = some db' := by
    induction calls with
    | nil => exact fun db => ⟨db, rfl⟩
    | cons call rest ih =>
      intro db
      have step : ∃ db', vldb.step db call = some db' := by
        simp only [vldb]
        split <;> exact ⟨_, rfl⟩
      obtain ⟨db', taken⟩ := step
      obtain ⟨last, ran⟩ := ih db'
      refine ⟨last, ?_⟩
      simp only [Machine.run, Machine.runWhere, if_true, taken, Option.bind_some]
      exact ran
  obtain ⟨db', ran⟩ := runs emptyVldb
  have same : vldbAfter calls = db' := by rw [vldbAfter, ran, Option.getD_some]
  rw [same]
  exact Machine.Reach.run (.start rfl) ran

def otherVolume : VldbEntry where
  name := [119]
  nServers := 1
  serverNumber _ := 0x0a000001
  serverPartition _ := 0
  serverFlags _ := 4
  volumeId
    | .rw => 8
    | .ro => 5
    | .back => 0
  cloneId := 0
  flags := 0x1000

/-- Lookups by the name "7" and by a name with an extension find nothing, nor do those of an entry marked as deleted; an
    id is looked up as a read-write id first, and a replaced entry takes over the name of another. -/
theorem vldb_lookups_fail : (∃ db, vldb.Reach db ∧ ∃ b, db.Live b ∧ (db.block b).name = [55] ∧ ¬ (db.getEntryByName [55]).isOk) ∧
      (∃ db, vldb.Reach db ∧ ∃ b, db.Live b ∧ (db.block b).name = 118 :: backupExtension ∧
        ¬ (db.getEntryByName (118 :: backupExtension)).isOk) ∧
      (∃ db, vldb.Reach db ∧ ∃ b, db.Live b ∧ (db.block b).volumeId .rw = 5 ∧ ¬ (db.getEntryByID 5 0).isOk) ∧
      (∃ db, vldb.Reach db ∧ ∃ b, db.Live b ∧ (db.block b).volumeId .ro = 5 ∧ db.getEntryByID 5 (-1) ≠ .ok (db.block b)) ∧
      ∃ db, vldb.Reach db ∧ ¬ NamesDiffer db := by
  have first : ∀ {call : VlCall}, (vldbAfter [call]).eofPtr = headerSize + entrySize →
      (vldbAfter [call]).isBlock headerSize := fun eof => ⟨0, rfl, eof ▸ by decide⟩
  refine ⟨?_, ?_, ?_, ?_, ?_⟩
  · refine ⟨_, vldbAfter_reached [.createEntry { newVolume with name := [55] }], headerSize, ⟨first ?_, ?_⟩, ?_, ?_⟩ <;>
      decide +kernel
  · refine ⟨_, vldbAfter_reached [.createEntry { newVolume with name := 118 :: backupExtension }], headerSize,
      ⟨first ?_, ?_⟩, ?_, ?_⟩ <;> decide +kernel
  · refine ⟨_, vldbAfter_reached [.createEntry { newVolume with flags := vlDeleted }], headerSize,
      ⟨first ?_, ?_⟩, ?_, ?_⟩ <;> decide +kernel
  · refine ⟨_, vldbAfter_reached [.createEntry newVolume, .createEntry otherVolume], headerSize + entrySize,
      ⟨⟨1, rfl, ?_⟩, ?_⟩, ?_, ?_⟩
    · decide +kernel
    · decide +kernel
    · decide +kernel
    intro same
    have names := congrArg (fun r : Except VlError NvlEntry => r.toOption.map NvlEntry.name) same
    revert names
    decide +kernel
  · refine ⟨_, vldbAfter_reached [.createEntry newVolume, .createEntry otherVolume,
      .replaceEntry 8 0 { otherVolume with name := [118] } 0], fun differ => ?_⟩
    have same := differ headerSize (headerSize + entrySize) ⟨⟨0, rfl, by decide +kernel⟩, by decide +kernel⟩
      ⟨⟨1, rfl, by decide +kernel⟩, by decide +kernel⟩ (by decide +kernel)
    revert same
    decide

end OpenAFS.Vlserver
