import OpenAFS.Vlserver.Calls

namespace OpenAFS.Vlserver

open Lib

def Vldb.Live (db : Vldb) (b : Nat) : Prop := db.isBlock b ∧ (db.block b).flags ≠ vlFree

/-- The list from a place of the database ends and holds the blocks with a property, each once. -/
def Vldb.Chain (db : Vldb) (k : Thread) (place : Slot) (holds : Nat → Prop) : Prop :=
  ∃ cells, Linked db.load (.next k) place cells ∧ cells.Nodup ∧ ∀ b, b ∈ cells ↔ holds b

structure RepOK (db : Vldb) : Prop where
  nameChains : ∀ n < hashSize, db.Chain .name (.hash n) fun b => db.Live b ∧ nameHash (db.block b).name = n
  idChains : ∀ t, ∀ n < hashSize, db.Chain (.id t) (.hash (hashSize * (t.index + 1) + n)) fun b =>
    db.Live b ∧ (db.block b).volumeId t ≠ 0 ∧ idHash ((db.block b).volumeId t) = n
  hashed : ∀ t b, db.Live b → (db.block b).volumeId t ≠ 0 →
    0 ≤ idHash ((db.block b).volumeId t) ∧ idHash ((db.block b).volumeId t) < hashSize
  freeList : db.Chain (.id .rw) .freePtr fun b => db.isBlock b ∧ (db.block b).flags = vlFree

/-- What a call stores leaves the chains apart: a new entry has a read-write id, an update changes no id to 0, no id is
    the one whose `abs` is negative, and no entry is marked as a free block. -/
def VlCall.Plain (db : Vldb) : VlCall → Prop
  | .createEntry v | .createEntryN v =>
    v.volumeId .rw ≠ 0 ∧ (∀ t, v.volumeId t ≠ leastInt) ∧ v.flags ≠ vlFree
  | .deleteEntry _ _ => True
  | .replaceEntry _ _ v releasetype | .replaceEntryN _ _ v releasetype =>
    (∀ t, v.volumeId t ≠ leastInt) ∧ releasedFlags releasetype v.flags ≠ vlFree
  | .updateEntry volid voltype u releasetype =>
    u.PlainIds ∧ ∀ b, db.findEntry volid voltype = .ok b → releasedFlags releasetype (u.flagsOf (db.block b)) ≠ vlFree
  | .updateEntryByName volname u releasetype =>
    u.PlainIds ∧ ∀ b, db.findByName volname = .ok b → releasedFlags releasetype (u.flagsOf (db.block b)) ≠ vlFree

def PlainCalls (db : Vldb) (call : VlCall) : Prop := (∃ db', db.call call = .ok db') → call.Plain db

structure Kept (db : Vldb) (live free : List Nat) : Prop where
  inv : Inv db live free
  flags : ∀ b ∈ live, (db.block b).flags ≠ vlFree
  legal : ∀ b ∈ live, invalidVolname (db.block b).name = false

variable {releasetype : UInt32} {u : VldbUpdateEntry}

namespace Kept

variable {db db' : Vldb} {live free : List Nat}

theorem free_flags (kept : Kept db live free) {b : Nat} (inside : b ∈ free) : (db.block b).flags = vlFree := by
  show (db.block b).data.flags = vlFree
  rw [kept.inv.cleared b inside]

theorem live_iff (kept : Kept db live free) (b : Nat) : db.Live b ↔ b ∈ live := by
  constructor
  · rintro ⟨block, used⟩
    exact ((kept.inv.blocks b).mp block).resolve_right fun inside => used (kept.free_flags inside)
  · exact fun inside => ⟨(kept.inv.blocks b).mpr (.inl inside), kept.flags b inside⟩

theorem free_iff (kept : Kept db live free) (b : Nat) : db.isBlock b ∧ (db.block b).flags = vlFree ↔ b ∈ free := by
  constructor
  · rintro ⟨block, unused⟩
    exact ((kept.inv.blocks b).mp block).resolve_left fun inside => kept.flags b inside unused
  · exact fun inside => ⟨(kept.inv.blocks b).mpr (.inr inside), kept.free_flags inside⟩

theorem repOK (kept : Kept db live free) : RepOK db := by
  obtain ⟨on, threaded, members⟩ := kept.inv.threads
  constructor
  · intro n small
    have linked := threaded.chains .name n ⟨Int.natCast_nonneg n, Int.ofNat_lt.mpr small⟩
    refine ⟨_, linked, linked.nodup, fun b => ?_⟩
    rw [List.mem_filter, decide_eq_true_eq, members]
    simp [NvlEntry.hashed, NvlEntry.chain, kept.live_iff]
  · intro t n small
    have linked := threaded.chains (.id t) (hashSize * (t.index + 1) + n) (by
      unfold Thread.valid
      unfold hashSize at small ⊢
      omega)
    refine ⟨_, linked, linked.nodup, fun b => ?_⟩
    rw [List.mem_filter, decide_eq_true_eq, members]
    simp [NvlEntry.hashed, NvlEntry.chain, kept.live_iff, and_assoc]
  · intro t b live nonzero
    rw [kept.live_iff] at live
    have range := threaded.ranges (.id t) b ((members (.id t) b).mpr ⟨live, nonzero⟩)
    simp only [Thread.valid, NvlEntry.chain, hashSize] at range
    unfold hashSize
    omega
  · refine ⟨free, threaded.freeList, threaded.freeList.nodup, fun b => ?_⟩
    exact (kept.free_iff b).symm

theorem start : Kept emptyVldb [] [] := by
  refine ⟨⟨⟨fun _ => [], ⟨?_, ?_, rfl, ?_, ?_⟩, ?_⟩, ?_, ?_, ?_, ⟨0, rfl⟩⟩, ?_, ?_⟩
  · exact fun _ _ _ => rfl
  · simp
  · simp
  · intro k b _ _
    cases k <;> rfl
  · simp
  · intro b
    refine iff_of_false ?_ (by simp)
    rintro ⟨n, place, below⟩
    have low : b < headerSize := below
    omega
  · simp
  · simp
  · simp
  · simp

variable (kept : Kept db live free)
include kept

theorem change {b : Nat} {live' free' : List Nat} (inv : Inv db' live' free')
    (old : ∀ c ∈ live', c ≠ b → c ∈ live) (others : ∀ c ∈ live, c ≠ b → (db'.block c).data = (db.block c).data)
    (used : b ∈ live' → (db'.block b).flags ≠ vlFree)
    (legal : b ∈ live' → invalidVolname (db'.block b).name = false) : Kept db' live' free' := by
  refine ⟨inv, fun c inside => ?_, fun c inside => ?_⟩
  · by_cases same : c = b
    · subst same
      exact used inside
    · rw [flags_of_data (others c (old c inside same) same)]
      exact kept.flags c (old c inside same)
  by_cases same : c = b
  · subst same
    exact legal inside
  · rw [name_of_data (others c (old c inside same) same)]
    exact kept.legal c (old c inside same)

theorem create {maxServers : Nat} {v : VldbEntry} (readWrite : v.volumeId .rw ≠ 0)
    (plain : ∀ t, v.volumeId t ≠ leastInt) (used : v.flags ≠ vlFree) (done : db.create maxServers v = .ok db') :
    ∃ b ∉ live, ∃ free', Kept db' (b :: live) free' ∧ (∀ c ∈ live, (db'.block c).data = (db.block c).data) ∧
      (db'.block b).name = v.name ∧ db.findByName v.name = .ok 0 := by
  obtain ⟨b, free', fresh, inv, others, name, -, flags, legal, missing⟩ := kept.inv.create readWrite plain done
  refine ⟨b, fresh, free', kept.change inv ?_ (fun c inside _ => others c inside) (fun _ => flags ▸ used)
    (fun _ => name ▸ legal), others, name, missing⟩
  intro c inside other
  exact (List.mem_cons.mp inside).resolve_left other

theorem deleteEntry {volid : UInt32} {voltype : Int} (done : db.deleteEntry volid voltype = .ok db') :
    ∃ b, Kept db' (live.filter fun c => c ≠ b) (b :: free) ∧ ∀ c ∈ live, c ≠ b → (db'.block c).data = (db.block c).data := by
  obtain ⟨b, -, inv, others⟩ := kept.inv.deleteEntry done
  have gone : b ∉ live.filter fun c => c ≠ b := by simp
  refine ⟨b, kept.change inv ?_ others (fun inside => absurd inside gone) (fun inside => absurd inside gone), others⟩
  exact fun c inside _ => (List.mem_filter.mp inside).1

theorem replace {maxServers : Nat} {volid : UInt32} {voltype : Int} {v : VldbEntry} (plain : ∀ t, v.volumeId t ≠ leastInt) (used : releasedFlags releasetype v.flags ≠ vlFree)
    (done : db.replace maxServers volid voltype v releasetype = .ok db') :
    Kept db' live free ∧ ∃ b ∈ live, db.findEntry volid voltype = .ok b ∧ (db'.block b).name = v.name ∧
      ∀ c ∈ live, c ≠ b → (db'.block c).data = (db.block c).data := by
  obtain ⟨b, inside, found, inv, others, name, -, flags, legal⟩ := kept.inv.replace plain done
  exact ⟨kept.change inv (fun c inside _ => inside) others (fun _ => flags ▸ used) (fun _ => name ▸ legal), b, inside,
    found, name, others⟩

theorem updateFound {b : Nat} (inside : b ∈ live)
    (plain : u.PlainIds) (used : releasedFlags releasetype (u.flagsOf (db.block b)) ≠ vlFree)
    (done : db.updateFound u releasetype b = .ok db') :
    Kept db' live free ∧ (db'.block b).name = u.nameOf (db.block b) ∧
      ∀ c ∈ live, c ≠ b → (db'.block c).data = (db.block c).data := by
  obtain ⟨inv, others, name, -, flags, legal⟩ := kept.inv.updateFound inside plain done
  refine ⟨kept.change inv (fun c inside _ => inside) others (fun _ => flags ▸ used) (fun _ => ?_), name, others⟩
  rw [name, VldbUpdateEntry.nameOf]
  split
  · rename_i masked
    exact legal masked
  · exact kept.legal b inside

end Kept

theorem updateEntry_ok {db db' : Vldb} {volid : UInt32} {voltype : Int}
    (done : db.updateEntry volid voltype u releasetype = .ok db') :
    ∃ b, db.findEntry volid voltype = .ok b ∧ db.updateFound u releasetype b = .ok db' := by
  obtain ⟨-, -, done⟩ := except_bind_eq_ok.mp done
  obtain ⟨-, done⟩ := ensure_then.mp done
  exact except_bind_eq_ok.mp done

theorem updateEntryByName_ok {db db' : Vldb} {volname : List UInt8}
    (done : db.updateEntryByName volname u releasetype = .ok db') :
    ∃ b ≠ 0, db.findByName volname = .ok b ∧ db.updateFound u releasetype b = .ok db' := by
  obtain ⟨-, done⟩ := ensure_then.mp done
  obtain ⟨b, found, done⟩ := except_bind_eq_ok.mp done
  obtain ⟨nonzero, done⟩ := ensure_then.mp done
  exact ⟨b, nonzero, found, done⟩

theorem Kept.call {db db' : Vldb} {live free : List Nat} (kept : Kept db live free) {call : VlCall}
    (plain : call.Plain db) (done : db.call call = .ok db') : ∃ live' free', Kept db' live' free' := by
  cases call with
  | createEntry v | createEntryN v =>
    obtain ⟨readWrite, ids, used⟩ := plain
    obtain ⟨b, -, free', after, -⟩ := kept.create readWrite ids used done
    exact ⟨_, _, after⟩
  | deleteEntry volid voltype =>
    obtain ⟨b, after, -⟩ := kept.deleteEntry done
    exact ⟨_, _, after⟩
  | replaceEntry volid voltype v releasetype | replaceEntryN volid voltype v releasetype =>
    exact ⟨_, _, (kept.replace plain.1 plain.2 done).1⟩
  | updateEntry volid voltype u releasetype =>
    obtain ⟨b, found, done⟩ := updateEntry_ok done
    exact ⟨_, _, (kept.updateFound (kept.inv.findEntry found) plain.1 (plain.2 b found) done).1⟩
  | updateEntryByName volname u releasetype =>
    obtain ⟨b, nonzero, found, done⟩ := updateEntryByName_ok done
    have inside := ((kept.inv.findByName found).resolve_left nonzero).1
    exact ⟨_, _, (kept.updateFound inside plain.1 (plain.2 b found) done).1⟩

theorem vldb_step {db db' : Vldb} {call : VlCall} (taken : vldb.step db call = some db') : db.call call = .ok db' ∨ db' = db := by
  simp only [vldb] at taken
  split at taken
  · rename_i done
    cases taken
    exact .inl done
  · cases taken
    exact .inr rfl

theorem vldb_kept {db : Vldb} (reached : vldb.ReachWhere PlainCalls db) : ∃ live free, Kept db live free := by
  refine @Machine.ReachWhere.invariant _ _ _ _ (fun db => ∃ live free, Kept db live free) ?_ ?_ db reached
  · rintro db rfl
    exact ⟨[], [], .start⟩
  intro db call db' ⟨live, free, kept⟩ met taken
  rcases vldb_step taken with done | rfl
  · exact kept.call (met ⟨_, done⟩) done
  · exact ⟨live, free, kept⟩

/-- In every run whose successful calls are plain, the chains and the free list are right in every state reached. -/
theorem vldb_representation {db : Vldb} (reached : vldb.ReachWhere PlainCalls db) : RepOK db := by
  obtain ⟨live, free, kept⟩ := vldb_kept reached
  exact kept.repOK

def newVolume : VldbEntry where
  name := [118]
  nServers := 1
  serverNumber _ := 0x0a000001
  serverPartition _ := 0
  serverFlags _ := 4
  volumeId
    | .rw => 5
    | .ro => 6
    | .back => 0
  cloneId := 0
  flags := 0x1000

def vldbAfter (calls : List VlCall) : Vldb := (vldb.run emptyVldb calls).getD emptyVldb

theorem vldb_representation_created : RepOK (vldbAfter [.createEntry newVolume]) := by
  have taken : vldb.step emptyVldb (.createEntry newVolume) = some (vldbAfter [.createEntry newVolume]) := rfl
  have plain : VlCall.Plain emptyVldb (.createEntry newVolume) :=
    ⟨by decide, fun t => by cases t <;> decide, by decide⟩
  exact vldb_representation (.step (.start rfl) (fun _ => plain) taken)

/-- An entry without a read-write id is put on the chain of the id 0. -/
theorem vldb_zero_chain : ¬ ∀ db, vldb.Reach db → RepOK db := by
  intro all
  let call : VlCall := .createEntry { newVolume with volumeId := fun _ => 0 }
  have taken : vldb.step emptyVldb call = some (vldbAfter [call]) := rfl
  obtain ⟨cells, linked, -, members⟩ := (all _ (.step (.start rfl) trivial taken)).idChains .rw 0 (by decide)
  have head : (vldbAfter [call]).load (.hash (hashSize * (VolType.rw.index + 1) + (0 : Nat))) = headerSize := by
    decide +kernel
  cases cells with
  | nil => exact absurd (head.symm.trans linked) (by decide)
  | cons b rest =>
    obtain ⟨-, nonzero, -⟩ := (members b).mp List.mem_cons_self
    rw [← linked.1, head] at nonzero
    revert nonzero
    decide +kernel

end OpenAFS.Vlserver
