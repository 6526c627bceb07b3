import OpenAFS.Vlserver.Threads

namespace OpenAFS.Vlserver

open Function (update update_self update_of_ne)
open Lib List

def leastInt : UInt32 := 0x80000000

def NvlEntry.hashed (e : NvlEntry) : Thread → Prop
  | .name => True
  | .id t => e.volumeId t ≠ 0

def Vldb.isBlock (db : Vldb) (b : Nat) : Prop := ∃ n, b = headerSize + entrySize * n ∧ b < db.eofPtr

/-- The blocks are entries in use, on the chains they belong on, or are free. -/
structure Inv (db : Vldb) (live free : List Nat) : Prop where
  threads : ∃ on, Threaded db on free ∧ ∀ k c, c ∈ on k ↔ c ∈ live ∧ (db.block c).hashed k
  blocks : ∀ b, db.isBlock b ↔ b ∈ live ∨ b ∈ free
  cleared : ∀ b ∈ free, (db.block b).data = { flags := vlFree }
  ids : ∀ t, ∀ b ∈ live, ∀ c ∈ live, (db.block b).volumeId t = (db.block c).volumeId t → (db.block b).volumeId t ≠ 0 → b = c
  aligned : ∃ n, db.eofPtr = headerSize + entrySize * n

structure Work (begun : Vldb) (live free : List Nat) (b : Nat) (hashed : Thread → Prop) (db : Vldb) (e : NvlEntry) :
    Prop where
  session : ∃ on, Session begun b on free db e ∧
    (∀ k, ∀ c ≠ b, c ∈ on k ↔ c ∈ live ∧ (begun.block c).hashed k) ∧ ∀ k, b ∈ on k ↔ hashed k
  unlike : ∀ t, hashed (.id t) → ∀ c ∈ live, c ≠ b → (begun.block c).volumeId t = e.volumeId t → e.volumeId t = 0
  blocks : ∀ c, begun.isBlock c ↔ c = b ∨ c ∈ live ∨ c ∈ free
  cleared : ∀ c ∈ free, (begun.block c).data = { flags := vlFree }
  ids : ∀ t, ∀ c ∈ live, ∀ d ∈ live, c ≠ b → d ≠ b → (begun.block c).volumeId t = (begun.block d).volumeId t →
    (begun.block c).volumeId t ≠ 0 → c = d
  aligned : ∃ n, begun.eofPtr = headerSize + entrySize * n

theorem idHash_range {volumeid : UInt32} (other : volumeid ≠ leastInt) : 0 ≤ idHash volumeid ∧ idHash volumeid < hashSize := by
  have least : volumeid.toBitVec.toInt ≠ -2 ^ 31 := by
    intro same
    apply other
    apply UInt32.toBitVec_inj.mp
    apply BitVec.eq_of_toInt_eq
    rw [same]
    rfl
  rw [idHash, cAbs, if_neg least]
  constructor
  · exact Int.tmod_nonneg _ (Int.natCast_nonneg _)
  · exact Int.tmod_lt_of_pos _ (by decide)

theorem valid_idChain {volumeid : UInt32} (t : VolType) (other : volumeid ≠ leastInt) :
    (Thread.id t).valid (hashSize * (t.index + 1) + idHash volumeid) := by
  obtain ⟨low, high⟩ := idHash_range other
  unfold Thread.valid
  unfold hashSize at *
  omega

theorem valid_nameChain (name : List UInt8) : Thread.name.valid (nameHash name) := by
  have small : nameHash name < hashSize := Nat.mod_lt _ (by decide)
  constructor
  · exact Int.natCast_nonneg _
  · exact Int.ofNat_lt.mpr small

theorem hashed_of_data {e e' : NvlEntry} (same : e'.data = e.data) (k : Thread) : e'.hashed k ↔ e.hashed k := by
  cases k with
  | name => rfl
  | id t => rw [NvlEntry.hashed, NvlEntry.hashed, volumeId_of_data same]

theorem Inv.unfree {db : Vldb} {live free : List Nat} (inv : Inv db live free) {b : Nat} (inside : b ∈ live) : b ∉ free := by
  obtain ⟨on, threaded, members⟩ := inv.threads
  exact (threaded.blocks .name b ((members .name b).mpr ⟨inside, trivial⟩)).2

theorem Inv.index {db : Vldb} {live free : List Nat} (inv : Inv db live free) {b : Nat} (inside : b ∈ live) : db.indexOK b := by
  obtain ⟨on, threaded, members⟩ := inv.threads
  exact (threaded.blocks .name b ((members .name b).mpr ⟨inside, trivial⟩)).1

theorem put_block (db : Vldb) (b : Nat) : db.put b (db.block b) = db := by
  unfold Vldb.put
  rw [Function.update_eq_self]

theorem Inv.work {db : Vldb} {live free : List Nat} (inv : Inv db live free) {b : Nat} (inside : b ∈ live) :
    Work db live free b (db.block b).hashed db (db.block b) := by
  obtain ⟨on, threaded, members⟩ := inv.threads
  refine ⟨⟨on, ⟨?_, rfl, fun _ _ => rfl, inv.index inside, inv.unfree inside⟩, ?_, ?_⟩, ?_, ?_, inv.cleared, ?_, inv.aligned⟩
  · rwa [put_block]
  · exact fun k c _ => members k c
  · intro k
    rw [members]
    exact and_iff_right inside
  · intro t here c member other same
    by_contra nonzero
    exact other (inv.ids t c member b inside same (by rwa [same]))
  · intro c
    rw [inv.blocks]
    constructor
    · exact .inr
    · rintro (rfl | known)
      · exact .inl inside
      · exact known
  · exact fun t c member d member' _ _ => inv.ids t c member d member'

namespace Work

variable {begun db : Vldb} {live free : List Nat} {b : Nat} {hashed : Thread → Prop} {e : NvlEntry}

variable {e' : NvlEntry} {t : VolType} {db' : Vldb}

variable (work : Work begun live free b hashed db e)
include work

theorem setEntry (next : ∀ k, e'.next k = e.next k)
    (name : hashed .name → e'.name = e.name) (volumeId : ∀ t, hashed (.id t) → e'.volumeId t = e.volumeId t) :
    Work begun live free b hashed db e' := by
  obtain ⟨on, session, members, here⟩ := work.session
  have chain : ∀ k, hashed k → e'.chain k = e.chain k := by
    intro k known
    cases k with
    | name => rw [NvlEntry.chain, NvlEntry.chain, name known]
    | id t => rw [NvlEntry.chain, NvlEntry.chain, volumeId t known]
  refine ⟨⟨on, ⟨?_, session.eof, session.others, session.index, session.unfree⟩, members, here⟩, ?_, work.blocks,
    work.cleared, work.ids, work.aligned⟩
  · apply @Threaded.congr (db.put b e) _ on free session.threaded
    · rfl
    · intro k c inside
      rw [block_put, block_put]
      split
      · rename_i same
        rw [same] at inside
        exact chain k ((here k).mp inside)
      · rfl
    · exact fun n => rfl
    · rfl
    · intro k c _
      rw [load_next, load_next, block_put, block_put]
      split
      · exact .inl (next k)
      · exact .inl rfl
    · intro c inside
      have other : c ≠ b := by
        rintro rfl
        exact session.unfree inside
      rw [load_next, load_next, block_put, block_put, if_neg other, if_neg other]
  · intro t known c member other same
    rw [volumeId t known] at same ⊢
    exact work.unlike t known c member other same

theorem hashOn {k : Thread} (fresh : ¬ hashed k) (range : k.valid (e.chain k))
    (unlike : ∀ t, k = .id t → ∀ c ∈ live, c ≠ b → (begun.block c).volumeId t = e.volumeId t → e.volumeId t = 0) :
    Work begun live free b (update hashed k True) (db.hashOn k b e).1 (db.hashOn k b e).2 := by
  obtain ⟨on, session, members, here⟩ := work.session
  have off : b ∉ on k := fun inside => fresh ((here k).mp inside)
  have ids : (db.hashOn k b e).2.volumeId = e.volumeId := volumeId_of_data (data_setNext ..)
  refine ⟨⟨_, session.hashOn off range, ?_, ?_⟩, ?_, work.blocks, work.cleared, work.ids, work.aligned⟩
  · intro k' c other
    rw [← members k' c other]
    by_cases same : k' = k
    · subst same
      rw [update_self, mem_cons, or_iff_right other]
    · rw [update_of_ne same]
  · intro k'
    by_cases same : k' = k
    · subst same
      simp only [update_self, mem_cons, true_or]
    · rw [update_of_ne same, update_of_ne same]
      exact here k'
  · intro t known
    rw [ids]
    by_cases same : Thread.id t = k
    · exact unlike t same.symm
    · rw [update_of_ne same] at known
      exact work.unlike t known

theorem unhashOn {k : Thread} (known : hashed k) :
    ∃ db' e', db.unhashOn k b e = .ok (db', e') ∧ e'.data = e.data ∧ Work begun live free b (update hashed k False) db' e' := by
  obtain ⟨on, session, members, here⟩ := work.session
  obtain ⟨db', e', done, data, after⟩ := session.unhashOn ((here k).mpr known)
  refine ⟨db', e', done, data, ⟨_, after, ?_, ?_⟩, ?_, work.blocks, work.cleared, work.ids, work.aligned⟩
  · intro k' c other
    rw [← members k' c other]
    by_cases same : k' = k
    · subst same
      rw [update_self, mem_filter, decide_eq_true_eq, and_iff_left other]
    · rw [update_of_ne same]
  · intro k'
    by_cases same : k' = k
    · subst same
      simp [update_self, mem_filter]
    · rw [update_of_ne same, update_of_ne same]
      exact here k'
  · intro t known'
    rw [volumeId_of_data data]
    by_cases same : Thread.id t = k
    · rw [same, update_self] at known'
      exact known'.elim
    · rw [update_of_ne same] at known'
      exact work.unlike t known'

theorem findOfType {volid : UInt32}
    (out : ¬ hashed (.id t)) (other : volid ≠ leastInt) (missing : db.findOfType volid t = .ok 0) :
    ∀ c ∈ live, c ≠ b → (begun.block c).volumeId t = volid → volid = 0 := by
  obtain ⟨on, session, members, here⟩ := work.session
  have off : b ∉ on (.id t) := fun inside => out ((here _).mp inside)
  have range := valid_idChain t other
  obtain ⟨r, walked, absent | ⟨inside, -⟩⟩ := findFrom_cases (fun e => volid = e.volumeId t) (session.disk off range)
    (session.threaded.length_chain (.id t) range)
  · intro c alive apart same
    by_contra nonzero
    apply absent.2 c
    · rw [mem_filter, decide_eq_true_eq, block_put, if_neg apart, chain_of_data (session.others c apart)]
      refine ⟨(members _ c apart).mpr ⟨alive, ?_⟩, ?_⟩
      · rwa [NvlEntry.hashed, same]
      · rw [NvlEntry.chain, same]
    · rw [decide_eq_true_eq, volumeId_of_data (session.others c apart), same]
  · injection missing.symm.trans walked with zero
    exact absurd zero.symm ((session.disk off range).ne_zero inside)

theorem hashVolid
    (out : ¬ hashed (.id t)) (other : e.volumeId t ≠ leastInt) (done : db.hashVolid t b e = .ok (db', e')) :
    e'.data = e.data ∧ Work begun live free b (update hashed (.id t) True) db' e' := by
  obtain ⟨found, lookup, checked⟩ := except_bind_eq_ok.mp done
  obtain ⟨missing, same⟩ := ensure_then.mp checked
  cases same
  rw [missing] at lookup
  refine ⟨data_setNext .., work.hashOn out (valid_idChain t other) ?_⟩
  intro t' same
  cases same
  exact work.findOfType out other lookup

theorem hashVolname (out : ¬ hashed .name) (done : db.hashVolname b e = (db', e')) :
    e'.data = e.data ∧ Work begun live free b (update hashed .name True) db' e' := by
  have after := work.hashOn out (valid_nameChain e.name) fun _ different => Thread.noConfusion different
  rw [Vldb.hashVolname] at done
  rw [done] at after
  have same : (db.hashOn .name b e).2.data = e.data := data_setNext ..
  rw [done] at same
  exact ⟨same, after⟩

theorem unhashVolid_ok
    (known : hashed (.id t) ↔ e.volumeId t ≠ 0) : ∃ db' e', db.unhashVolid t b e = .ok (db', e') := by
  unfold Vldb.unhashVolid
  split
  · exact ⟨_, _, rfl⟩
  · rename_i nonzero
    obtain ⟨db', e', done, -⟩ := work.unhashOn (known.mpr nonzero)
    exact ⟨db', e', done⟩

theorem unhashVolid
    (known : hashed (.id t) ↔ e.volumeId t ≠ 0) (done : db.unhashVolid t b e = .ok (db', e')) :
    e'.data = e.data ∧ Work begun live free b (update hashed (.id t) False) db' e' := by
  unfold Vldb.unhashVolid at done
  split at done
  · rename_i zero
    cases done
    have out : ¬ hashed (.id t) := fun inside => known.mp inside zero
    have same : update hashed (.id t) False = hashed := by
      rw [Function.update_eq_self_iff]
      exact (eq_false out).symm
    refine ⟨rfl, ?_⟩
    rwa [same]
  · rename_i nonzero
    obtain ⟨_, _, done', data, after⟩ := work.unhashOn (known.mpr nonzero)
    cases done'.symm.trans done
    exact ⟨data, after⟩

theorem unhashVolname_ok (known : hashed .name) :
    ∃ db' e', db.unhashVolname b e = .ok (db', e') := by
  obtain ⟨db', e', done, -⟩ := work.unhashOn known
  exact ⟨db', e', done⟩

theorem unhashVolname (known : hashed .name)
    (done : db.unhashVolname b e = .ok (db', e')) :
    e'.data = e.data ∧ Work begun live free b (update hashed .name False) db' e' := by
  obtain ⟨_, _, done', data, after⟩ := work.unhashOn known
  cases done'.symm.trans done
  exact ⟨data, after⟩

theorem setHosts (hosts : Nat → UInt32) :
    Work begun live free b hashed { db with hostAddress := hosts } e := by
  obtain ⟨on, session, members, here⟩ := work.session
  refine ⟨⟨on, ⟨?_, session.eof, session.others, session.index, session.unfree⟩, members, here⟩, work.unlike,
    work.blocks, work.cleared, work.ids, work.aligned⟩
  apply @Threaded.congr (db.put b e) _ on free session.threaded
  · rfl
  · exact fun _ _ _ => rfl
  · exact fun _ => rfl
  · rfl
  · exact fun _ _ _ => .inl rfl
  · exact fun _ _ => rfl

theorem finish (full : ∀ k, hashed k ↔ e.hashed k) (live' : List Nat)
    (grown : ∀ c, c ∈ live' ↔ c = b ∨ c ∈ live) :
    Inv (db.put b e) live' free ∧ ∀ c ≠ b, ((db.put b e).block c).data = (begun.block c).data := by
  obtain ⟨on, session, members, here⟩ := work.session
  have others : ∀ c ≠ b, ((db.put b e).block c).data = (begun.block c).data := by
    intro c apart
    rw [block_put, if_neg apart]
    exact session.others c apart
  have mine : (db.put b e).block b = e := by rw [block_put, if_pos rfl]
  refine ⟨⟨⟨on, session.threaded, ?_⟩, ?_, ?_, ?_, ?_⟩, others⟩
  · intro k c
    rw [grown]
    by_cases same : c = b
    · subst same
      rw [here, full, mine]
      simp
    · rw [members k c same, or_iff_right same, hashed_of_data (others c same)]
  · intro c
    unfold Vldb.isBlock
    rw [eofPtr_put, session.eof, grown, or_assoc]
    exact work.blocks c
  · intro c inside
    have apart : c ≠ b := by
      rintro rfl
      exact session.unfree inside
    rw [others c apart]
    exact work.cleared c inside
  · intro t c inside d inside' same nonzero
    rw [grown] at inside inside'
    by_cases first : c = b
    · by_cases second : d = b
      · rw [first, second]
      subst first
      rw [mine] at nonzero same
      rw [volumeId_of_data (others d second)] at same
      have on : hashed (.id t) := (full (.id t)).mpr nonzero
      exact absurd (work.unlike t on d (inside'.resolve_left second) second same.symm) nonzero
    rw [volumeId_of_data (others c first)] at same nonzero
    by_cases second : d = b
    · subst second
      rw [mine] at same
      have on : hashed (.id t) := (full (.id t)).mpr fun zero => nonzero (same.trans zero)
      rw [same] at nonzero
      exact absurd (work.unlike t on c (inside.resolve_left first) first same) nonzero
    · rw [volumeId_of_data (others d second)] at same
      exact work.ids t c (inside.resolve_left first) d (inside'.resolve_left second) first second same nonzero
  · rw [eofPtr_put, session.eof]
    exact work.aligned

theorem freeBlock (off : ∀ k, ¬ hashed k)
    (done : db.freeBlock b = .ok db') (live' : List Nat) (shrunk : ∀ c, c ∈ live' ↔ c ≠ b ∧ c ∈ live) :
    Inv db' live' (b :: free) ∧ ∀ c ≠ b, (db'.block c).data = (begun.block c).data := by
  obtain ⟨on, session, members, here⟩ := work.session
  have index : db.indexOK b := by
    unfold Vldb.indexOK
    rw [session.eof]
    exact session.index
  have out : ∀ k, b ∉ on k := fun k inside => off k ((here k).mp inside)
  unfold Vldb.freeBlock at done
  rw [if_pos index] at done
  cases done
  have others : ∀ c ≠ b, (db.block c).data = (begun.block c).data := session.others
  have unfree : ∀ c ∈ free, c ≠ b := by
    rintro c inside rfl
    exact session.unfree inside
  have apart : ∀ k, ∀ c ∈ on k, c ≠ b := by
    rintro k c inside rfl
    exact out k inside
  refine ⟨⟨⟨on, ⟨?_, ?_, ?_, ?_, ?_⟩, ?_⟩, ?_, ?_, ?_, ?_⟩, ?_⟩
  · intro k
    apply (session.threaded.chains k).congr
    · exact fun _ _ => rfl
    · intro c inside
      simp only [load_next, block_put, if_neg (apart k c inside)]
    · intro c inside
      simp only [block_put, if_neg (apart k c inside)]
  · intro k c inside
    have range := session.threaded.ranges k c inside
    simp only [block_put, if_neg (apart k c inside)] at range ⊢
    exact range
  · apply session.threaded.freeList.push
    · have low := index.1
      unfold headerSize at low
      omega
    · rfl
    · simp only [load_next, block_put, if_true]
      rfl
    · intro c inside
      simp only [load_next, block_put, if_neg (unfree c inside)]
  · intro k c inside
    obtain ⟨known, fresh⟩ := session.threaded.blocks k c inside
    refine ⟨known, ?_⟩
    rw [mem_cons, not_or]
    exact ⟨apart k c inside, fresh⟩
  · intro k c out' unfree'
    rw [mem_cons, not_or] at unfree'
    have zero := session.threaded.clear k c out' unfree'.2
    simp only [load_next, block_put, if_neg unfree'.1] at zero ⊢
    exact zero
  · intro k c
    rw [shrunk]
    by_cases same : c = b
    · subst same
      exact iff_of_false (out k) fun inside => inside.1.1 rfl
    · simp only [block_put, if_neg same]
      rw [members k c same, hashed_of_data (others c same)]
      simp [same]
  · intro c
    unfold Vldb.isBlock
    rw [eofPtr_put, session.eof, shrunk, mem_cons]
    by_cases same : c = b
    · subst same
      exact iff_of_true ((work.blocks c).mpr (.inl rfl)) (.inr (.inl rfl))
    · refine (work.blocks c).trans ?_
      simp [same]
  · intro c inside
    rcases List.mem_cons.mp inside with rfl | old
    · rw [block_put, if_pos rfl]
      rfl
    · simp only [block_put, if_neg (unfree c old)]
      rw [others c (unfree c old)]
      exact work.cleared c old
  · intro t c inside d inside'
    obtain ⟨first, alive⟩ := (shrunk c).mp inside
    obtain ⟨second, alive'⟩ := (shrunk d).mp inside'
    simp only [block_put, if_neg first, if_neg second]
    rw [volumeId_of_data (others c first), volumeId_of_data (others d second)]
    exact work.ids t c alive d alive' first second
  · rw [eofPtr_put, session.eof]
    exact work.aligned
  · intro c same
    simp only [block_put, if_neg same]
    exact others c same

end Work

theorem Threaded.session {db db' : Vldb} {on : Thread → List Nat} {free free' : List Nat} (threaded : Threaded db on free)
    {b : Nat} (block : db'.block = db.block) (hash : db'.hash = db.hash) (eof : db.eofPtr ≤ db'.eofPtr)
    (list : Linked db'.load (.next (.id .rw)) .freePtr free') (taken : ∀ c ≠ b, c ∈ free ↔ c ∈ free')
    (off : ∀ k, b ∉ on k) (index : db'.indexOK b) (unfree : b ∉ free') : Session db' b on free' db' {} := by
  have apart : ∀ k, ∀ c ∈ on k, c ≠ b := by
    rintro k c inside rfl
    exact off k inside
  refine ⟨⟨?_, ?_, ?_, ?_, ?_⟩, rfl, fun _ _ => rfl, index, unfree⟩
  · intro k
    apply (threaded.chains k).congr
    · intro n _
      rw [load_hash, load_hash, hash_put, hash]
    · intro c inside
      rw [load_next, load_next, block_put, if_neg (apart k c inside), block]
    · intro c inside
      rw [block_put, if_neg (apart k c inside), block]
  · intro k c inside
    rw [block_put, if_neg (apart k c inside), block]
    exact threaded.ranges k c inside
  · refine list.congr ?_ ?_
    · rfl
    intro c inside
    have other : c ≠ b := by
      rintro rfl
      exact unfree inside
    rw [load_next, load_next, block_put, if_neg other]
  · intro k c inside
    obtain ⟨⟨low, high⟩, fresh⟩ := threaded.blocks k c inside
    exact ⟨⟨low, Nat.lt_of_lt_of_le high eof⟩, fun old => fresh ((taken c (apart k c inside)).mpr old)⟩
  · intro k c out other
    rw [load_next, block_put]
    split
    · cases k <;> rfl
    · rename_i same
      rw [block]
      exact threaded.clear k c out fun old => other ((taken c same).mp old)

theorem Inv.allocBlock {db : Vldb} {live free : List Nat} (inv : Inv db live free) :
    ∃ free', (∀ c, db.allocBlock.1.block c = db.block c) ∧ db.allocBlock.2 ∉ live ∧
      Work db.allocBlock.1 live free' db.allocBlock.2 (fun _ => False) db.allocBlock.1 {} := by
  obtain ⟨on, threaded, members⟩ := inv.threads
  have alive : ∀ k, ∀ c ∈ on k, c ∈ live := fun k c inside => ((members k c).mp inside).1
  obtain ⟨n, place⟩ := inv.aligned
  unfold Vldb.allocBlock
  split
  · -- the first block of the free list
    rename_i some
    have list := threaded.freeList
    have once := list.nodup
    cases free with
    | nil => exact absurd list some
    | cons b free =>
      obtain ⟨first, nonzero, rest⟩ := list
      rw [load_freePtr] at first
      rw [nodup_cons] at once
      have known : db.isBlock b := (inv.blocks b).mpr (.inr mem_cons_self)
      have index : db.indexOK b := by
        obtain ⟨n, place, below⟩ := known
        exact ⟨by omega, below⟩
      have out : b ∉ live := fun inside => inv.unfree inside mem_cons_self
      rw [first]
      refine ⟨free, fun _ => rfl, out, ⟨on, ?_, fun k c _ => members k c, ?_⟩, ?_, ?_, ?_, ?_, inv.aligned⟩
      · apply threaded.session
        · rfl
        · rfl
        · exact le_rfl
        · refine Linked.move (a := .next (.id .rw) b) (rest.congr ?_ ?_) ?_
          · rfl
          · exact fun _ _ => rfl
          · rfl
        · intro c other
          rw [mem_cons, or_iff_right other]
        · exact fun k inside => out (alive k b inside)
        · exact index
        · exact once.1
      · exact fun k => iff_of_false (fun inside => out (alive k b inside)) id
      · exact fun t impossible => impossible.elim
      · intro c
        refine (inv.blocks c).trans ?_
        rw [mem_cons, or_left_comm]
      · exact fun c inside => inv.cleared c (mem_cons_of_mem _ inside)
      · exact fun t c inside d inside' _ _ => inv.ids t c inside d inside'
  -- a new block at the end
  rename_i none
  rw [not_not] at none
  have empty : free = [] := by
    cases free with
    | nil => rfl
    | cons b free => exact absurd (threaded.freeList.1.symm.trans none) threaded.freeList.2.1
  subst empty
  have out : db.eofPtr ∉ live := by
    intro inside
    obtain ⟨-, -, below⟩ := (inv.blocks _).mpr (.inl inside)
    exact lt_irrefl _ below
  refine ⟨[], fun _ => rfl, out, ⟨on, ?_, fun k c _ => members k c, ?_⟩, ?_, ?_, ?_, ?_, ?_⟩
  · apply threaded.session
    · rfl
    · rfl
    · exact Nat.le_add_right ..
    · exact threaded.freeList
    · exact fun _ _ => Iff.rfl
    · exact fun k inside => out (alive k _ inside)
    · exact ⟨by omega, Nat.lt_add_of_pos_right (by decide)⟩
    · exact not_mem_nil
  · exact fun k => iff_of_false (fun inside => out (alive k _ inside)) id
  · exact fun t impossible => impossible.elim
  · intro c
    have grown : Vldb.isBlock { db with eofPtr := db.eofPtr + entrySize } c ↔ c = db.eofPtr ∨ db.isBlock c := by
      unfold Vldb.isBlock
      constructor
      · rintro ⟨m, at_m, high⟩
        simp only [place, entrySize] at high at_m ⊢
        rcases Nat.lt_or_ge m n with less | more
        · exact .inr ⟨m, at_m, by omega⟩
        · exact .inl (by omega)
      · rintro (rfl | ⟨m, at_m, high⟩)
        · exact ⟨n, place, Nat.lt_add_of_pos_right (by decide)⟩
        · exact ⟨m, at_m, Nat.lt_add_right _ high⟩
    exact grown.trans (or_congr_right (inv.blocks c))
  · exact fun c inside => inv.cleared c inside
  · exact fun t c inside d inside' _ _ => inv.ids t c inside d inside'
  · refine ⟨n + 1, ?_⟩
    simp only [place, entrySize]
    omega

end OpenAFS.Vlserver
