import OpenAFS.Lib.Counting
import OpenAFS.Lib.HashTable
import OpenAFS.Vlserver.Procs

namespace OpenAFS.Vlserver

open Function (update update_self update_of_ne)
open Lib List

inductive Slot where
  | freePtr
  | hash (n : Int)
  | next (k : Thread) (b : Nat)
  deriving DecidableEq

def Vldb.load (db : Vldb) : Slot → Nat
  | .freePtr => db.freePtr
  | .hash n => db.hash n
  | .next k b => (db.block b).next k

def Thread.valid : Thread → Int → Prop
  | .name, n => 0 ≤ n ∧ n < hashSize
  | .id t, n => hashSize * (t.index + 1) ≤ n ∧ n < hashSize * (t.index + 2)

def NvlEntry.data (e : NvlEntry) : NvlEntry := { e with nextIdHash := fun _ => 0, nextNameHash := 0 }

structure Threaded (db : Vldb) (on : Thread → List Nat) (free : List Nat) : Prop where
  chains : ∀ k, Buckets db.load (.next k) .hash k.valid (fun b => (db.block b).chain k) (on k)
  ranges : ∀ k, ∀ b ∈ on k, k.valid ((db.block b).chain k)
  freeList : Linked db.load (.next (.id .rw)) .freePtr free
  blocks : ∀ k, ∀ b ∈ on k, db.indexOK b ∧ b ∉ free
  clear : ∀ k, ∀ b ∉ on k, b ∉ free → db.load (.next k b) = 0

variable {k : Thread}

theorem Thread.valid_unique {k' : Thread} {n : Int} (here : k.valid n) (there : k'.valid n) : k = k' := by
  cases k with
  | name =>
    cases k' with
    | name => rfl
    | id t =>
      exfalso
      unfold Thread.valid hashSize at here there
      cases t <;> simp only [VolType.index] at there <;> omega
  | id t =>
    cases k' with
    | name =>
      exfalso
      unfold Thread.valid hashSize at here there
      cases t <;> simp only [VolType.index] at here <;> omega
    | id t' =>
      congr 1
      unfold Thread.valid hashSize at here there
      cases t <;> cases t' <;> simp only [VolType.index] at here there <;> first | rfl | (exfalso; omega)

@[simp] theorem next_setNext (e : NvlEntry) (k k' : Thread) (b : Nat) :
    (e.setNext k b).next k' = if k' = k then b else e.next k' := by
  cases k with
  | name => cases k' <;> simp [NvlEntry.setNext, NvlEntry.next]
  | id t =>
    cases k' with
    | name => simp [NvlEntry.setNext, NvlEntry.next]
    | id t' => simp [NvlEntry.setNext, NvlEntry.next, Function.update_apply]

@[simp] theorem data_setNext (e : NvlEntry) (k : Thread) (b : Nat) : (e.setNext k b).data = e.data := by
  cases k <;> rfl

variable {e' : NvlEntry}

theorem volumeId_of_data {e : NvlEntry} (same : e'.data = e.data) : e'.volumeId = e.volumeId := by
  show e'.data.volumeId = e.data.volumeId
  rw [same]

theorem name_of_data {e : NvlEntry} (same : e'.data = e.data) : e'.name = e.name := by
  show e'.data.name = e.data.name
  rw [same]

theorem flags_of_data {e : NvlEntry} (same : e'.data = e.data) : e'.flags = e.flags := by
  show e'.data.flags = e.data.flags
  rw [same]

theorem chain_of_data {e : NvlEntry} (same : e'.data = e.data) (k : Thread) : e'.chain k = e.chain k := by
  cases k with
  | name => rw [NvlEntry.chain, NvlEntry.chain, name_of_data same]
  | id t => rw [NvlEntry.chain, NvlEntry.chain, volumeId_of_data same]

@[simp] theorem block_put (db : Vldb) (b c : Nat) (e : NvlEntry) : (db.put b e).block c = if c = b then e else db.block c := by
  simp [Vldb.put, Function.update_apply]

@[simp] theorem eofPtr_put (db : Vldb) (b : Nat) (e : NvlEntry) : (db.put b e).eofPtr = db.eofPtr := rfl

theorem next_injective (k : Thread) : Function.Injective (Slot.next k) := by
  intro b c same
  cases same
  rfl

theorem hash_injective : Function.Injective Slot.hash := by
  intro m n same
  cases same
  rfl

namespace Threaded

variable {db db' : Vldb} {on : Thread → List Nat} {free : List Nat}

variable (threaded : Threaded db on free)
include threaded

theorem length_chain (k : Thread) {n : Int} (known : k.valid n) :
    ((on k).filter fun b => (db.block b).chain k = n).length < db.fuel := by
  apply Nat.lt_succ_of_le
  apply length_le_of_nodup (threaded.chains k n known).nodup
  intro b inside
  exact (threaded.blocks k b (List.mem_filter.mp inside).1).1.2

theorem congr (eof : db'.eofPtr = db.eofPtr)
    (data : ∀ k, ∀ c ∈ on k, (db'.block c).chain k = (db.block c).chain k)
    (heads : ∀ n, db'.load (.hash n) = db.load (.hash n)) (first : db'.load .freePtr = db.load .freePtr)
    (links : ∀ k, ∀ c ∉ free, db'.load (.next k c) = db.load (.next k c) ∨ c ∉ on k ∧ db'.load (.next k c) = 0)
    (freeLinks : ∀ c ∈ free, db'.load (.next (.id .rw) c) = db.load (.next (.id .rw) c)) : Threaded db' on free := by
  constructor
  · intro k
    refine (threaded.chains k).congr (fun n _ => heads n) (fun c inside => ?_) (data k)
    exact (links k c (threaded.blocks k c inside).2).resolve_right fun out => out.1 inside
  · intro k b inside
    rw [data k b inside]
    exact threaded.ranges k b inside
  · exact threaded.freeList.congr first freeLinks
  · intro k b inside
    unfold Vldb.indexOK
    rw [eof]
    exact threaded.blocks k b inside
  · intro k c out unfree
    rcases links k c unfree with same | ⟨-, zero⟩
    · exact same.trans (threaded.clear k c out unfree)
    · exact zero

theorem push {k : Thread} {b : Nat} (eof : db'.eofPtr = db.eofPtr)
    (data : ∀ c, (db'.block c).data = (db.block c).data) (index : db.indexOK b) (unfree : b ∉ free)
    (fresh : b ∉ on k) (range : k.valid ((db.block b).chain k))
    (head : db'.load (.hash ((db.block b).chain k)) = b)
    (next : db'.load (.next k b) = db.load (.hash ((db.block b).chain k)))
    (others : ∀ s, s ≠ .hash ((db.block b).chain k) → s ≠ .next k b → db'.load s = db.load s) :
    Threaded db' (update on k (b :: on k)) free := by
  have same : ∀ k' c, (db'.block c).chain k' = (db.block c).chain k' := fun k' c => chain_of_data (data c) k'
  have nonzero : b ≠ 0 := by
    have low := index.1
    unfold headerSize at low
    omega
  constructor
  · intro k'
    by_cases here : k' = k
    · subst here
      rw [update_self]
      apply (threaded.chains k').push nonzero
      · rwa [same]
      · rwa [same]
      · intro n _ other
        rw [same] at other
        exact others _ (fun equal => other (hash_injective equal)) Slot.noConfusion
      · intro c inside
        refine others _ Slot.noConfusion fun equal => ?_
        rw [next_injective k' equal] at inside
        exact fresh inside
      · exact fun c _ => same k' c
    · rw [update_of_ne here]
      apply (threaded.chains k').congr
      · intro n known
        refine others _ (fun equal => ?_) Slot.noConfusion
        rw [hash_injective equal] at known
        exact here (Thread.valid_unique known range)
      · intro c _
        refine others _ Slot.noConfusion fun equal => ?_
        injection equal with kinds
        exact here kinds
      · exact fun c _ => same k' c
  · intro k' c inside
    rw [same]
    by_cases here : k' = k
    · subst here
      rw [update_self] at inside
      rcases List.mem_cons.mp inside with rfl | old
      · exact range
      · exact threaded.ranges k' c old
    · rw [update_of_ne here] at inside
      exact threaded.ranges k' c inside
  · apply threaded.freeList.congr
    · exact others _ Slot.noConfusion Slot.noConfusion
    intro c inside
    refine others _ Slot.noConfusion fun equal => ?_
    injection equal with _ blocks
    rw [blocks] at inside
    exact unfree inside
  · intro k' c inside
    unfold Vldb.indexOK
    rw [eof]
    by_cases here : k' = k
    · subst here
      rw [update_self] at inside
      rcases List.mem_cons.mp inside with rfl | old
      · exact ⟨index, unfree⟩
      · exact threaded.blocks k' c old
    · rw [update_of_ne here] at inside
      exact threaded.blocks k' c inside
  · intro k' c out other
    have old : c ∉ on k' := by
      by_cases here : k' = k
      · subst here
        rw [update_self, mem_cons, not_or] at out
        exact out.2
      · rwa [update_of_ne here] at out
    refine (others _ Slot.noConfusion fun equal => ?_).trans (threaded.clear k' c old other)
    injection equal with kinds blocks
    rw [kinds, blocks, update_self] at out
    exact out mem_cons_self

theorem unlink {k : Thread} {b : Nat} {before after : List Nat}
    (eof : db'.eofPtr = db.eofPtr) (data : ∀ c, (db'.block c).data = (db.block c).data) (inside : b ∈ on k)
    (split : ((on k).filter fun c => (db.block c).chain k = (db.block b).chain k) = before ++ b :: after)
    (slot : db'.load (slotAfter (Slot.next k) (.hash ((db.block b).chain k)) before) = db.load (.next k b))
    (cleared : db'.load (.next k b) = 0)
    (others : ∀ s, s ≠ slotAfter (Slot.next k) (.hash ((db.block b).chain k)) before → s ≠ .next k b → db'.load s = db.load s) :
    Threaded db' (update on k ((on k).filter fun c => c ≠ b)) free := by
  have same : ∀ k' c, (db'.block c).chain k' = (db.block c).chain k' := fun k' c => chain_of_data (data c) k'
  have range := threaded.ranges k b inside
  -- the slot in front of the block is the head of its chain or in another block of it
  have place : slotAfter (Slot.next k) (.hash ((db.block b).chain k)) before = .hash ((db.block b).chain k) ∨
      ∃ c ∈ on k, c ≠ b ∧ slotAfter (Slot.next k) (.hash ((db.block b).chain k)) before = .next k c := by
    rcases @slotAfter_mem _ (Slot.next k) (.hash ((db.block b).chain k)) before with first | ⟨c, earlier, later⟩
    · exact .inl first
    have member : c ∈ (on k).filter fun c => (db.block c).chain k = (db.block b).chain k := by
      rw [split]
      exact mem_append_left _ earlier
    have once := (threaded.chains k _ range).nodup
    rw [split, nodup_append] at once
    exact .inr ⟨c, (List.mem_filter.mp member).1, once.2.2 c earlier b mem_cons_self, later⟩
  have filtered : ∀ k' c, c ∈ update on k ((on k).filter fun c => c ≠ b) k' → c ∈ on k' := by
    intro k' c member
    by_cases here : k' = k
    · subst here
      rw [update_self] at member
      exact (List.mem_filter.mp member).1
    · rwa [update_of_ne here] at member
  constructor
  · intro k'
    by_cases here : k' = k
    · subst here
      rw [update_self]
      have out := (threaded.chains k').unlink (next_injective k') hash_injective (fun _ _ => Slot.noConfusion) range
        split slot (fun s known other => ?_)
      · apply out.congr (fun _ _ => rfl) (fun _ _ => rfl)
        exact fun c _ => same k' c
      apply others s other
      rintro rfl
      rcases known with ⟨n, -, head⟩ | ⟨c, -, different, next⟩
      · exact Slot.noConfusion head
      · exact different (next_injective k' next).symm
    rw [update_of_ne here]
    apply (threaded.chains k').congr
    · intro n known
      refine others _ (fun equal => ?_) Slot.noConfusion
      rcases place with head | ⟨c, -, -, next⟩
      · rw [head] at equal
        rw [hash_injective equal] at known
        exact here (Thread.valid_unique known range)
      · rw [next] at equal
        exact Slot.noConfusion equal
    · intro c _
      refine others _ (fun equal => ?_) fun equal => ?_
      · rcases place with head | ⟨c', -, -, next⟩
        · rw [head] at equal
          exact Slot.noConfusion equal
        · rw [next] at equal
          injection equal with kinds
          exact here kinds
      · injection equal with kinds
        exact here kinds
    · exact fun c _ => same k' c
  · intro k' c member
    rw [same]
    exact threaded.ranges k' c (filtered k' c member)
  · apply threaded.freeList.congr
    · refine others _ (fun equal => ?_) Slot.noConfusion
      rcases place with head | ⟨c, -, -, next⟩
      · rw [head] at equal
        exact Slot.noConfusion equal
      · rw [next] at equal
        exact Slot.noConfusion equal
    intro c member
    refine others _ (fun equal => ?_) fun equal => ?_
    · rcases place with head | ⟨c', known, -, next⟩
      · rw [head] at equal
        exact Slot.noConfusion equal
      rw [next] at equal
      injection equal with _ blocks
      rw [← blocks] at known
      exact (threaded.blocks k c known).2 member
    · injection equal with _ blocks
      rw [blocks] at member
      exact (threaded.blocks k b inside).2 member
  · intro k' c member
    unfold Vldb.indexOK
    rw [eof]
    exact threaded.blocks k' c (filtered k' c member)
  · intro k' c out other
    by_cases here : k' = k
    · subst here
      rw [update_self, mem_filter, decide_eq_true_eq, not_and, not_not] at out
      by_cases mine : c = b
      · rw [mine]
        exact cleared
      refine (others _ (fun equal => ?_) fun equal => mine (next_injective k' equal)).trans
        (threaded.clear k' c (fun inside => mine (out inside)) other)
      rcases place with head | ⟨c', known, different, next⟩
      · rw [head] at equal
        exact Slot.noConfusion equal
      · rw [next] at equal
        rw [next_injective k' equal] at mine out
        exact different (out known)
    · rw [update_of_ne here] at out
      refine (others _ (fun equal => ?_) fun equal => ?_).trans (threaded.clear k' c out other)
      · rcases place with head | ⟨c', -, -, next⟩
        · rw [head] at equal
          exact Slot.noConfusion equal
        · rw [next] at equal
          injection equal with kinds
          exact here kinds
      · injection equal with kinds
        exact here kinds

end Threaded

theorem findFrom_eq {db : Vldb} {hit : NvlEntry → Bool} {fuel : Nat} {a : Slot} {cells : List Nat}
    (linked : Linked db.load (.next k) a cells) (enough : cells.length < fuel) :
    db.findFrom hit k fuel (db.load a) = .ok ((cells.find? fun b => hit (db.block b)).getD 0) := by
  induction cells generalizing fuel a with
  | nil =>
    obtain ⟨fuel, rfl⟩ : ∃ m, fuel = m + 1 := ⟨fuel - 1, by omega⟩
    have stop : db.load a = 0 := linked
    rw [Vldb.findFrom, if_pos stop]
    rfl
  | cons b cells ih =>
    rw [length_cons] at enough
    obtain ⟨fuel, rfl⟩ : ∃ m, fuel = m + 1 := ⟨fuel - 1, by omega⟩
    rw [Vldb.findFrom, linked.1, if_neg linked.2.1, find?_cons]
    cases found : hit (db.block b) with
    | true =>
      rfl
    | false =>
      exact ih linked.2.2 (by omega)

theorem findFrom_cases {db : Vldb} {fuel : Nat} {a : Slot} {cells : List Nat} (hit : NvlEntry → Bool)
    (linked : Linked db.load (.next k) a cells) (enough : cells.length < fuel) :
    ∃ r, db.findFrom hit k fuel (db.load a) = .ok r ∧
      (r = 0 ∧ (∀ c ∈ cells, ¬ hit (db.block c)) ∨ r ∈ cells ∧ hit (db.block r)) := by
  refine ⟨_, findFrom_eq linked enough, ?_⟩
  cases found : cells.find? fun b => hit (db.block b) with
  | none => exact .inl ⟨rfl, List.find?_eq_none.mp found⟩
  | some c => exact .inr ⟨mem_of_find?_eq_some found, @find?_some _ (fun b => hit (db.block b)) c cells found⟩

theorem findFrom_closed {db : Vldb} {hit : NvlEntry → Bool} {fuel b r : Nat} {inside : Nat → Prop}
    (closed : ∀ c, inside c → (db.block c).next k = 0 ∨ inside ((db.block c).next k)) (start : b = 0 ∨ inside b)
    (found : db.findFrom hit k fuel b = .ok r) : r = 0 ∨ inside r ∧ hit (db.block r) := by
  induction fuel generalizing b with
  | zero => cases found
  | succ fuel ih =>
    rw [Vldb.findFrom] at found
    split at found
    · cases found
      exact .inl rfl
    rename_i nonzero
    have known := start.resolve_left nonzero
    split at found
    · rename_i here
      cases found
      exact .inr ⟨known, here⟩
    · exact ih (closed b known) found

theorem prevFrom_eq {db : Vldb} {k : Thread} {b fuel prev : Nat} {before after : List Nat} {load : Slot → Nat}
    (linked : Linked load (.next k) (.next k prev) (before ++ b :: after)) (other : b ∉ before)
    (same : ∀ c ∈ prev :: before, (db.block c).next k = load (.next k c)) (enough : before.length < fuel) :
    ∃ q ∈ prev :: before, db.prevFrom k b fuel prev = .ok q ∧ slotAfter (Slot.next k) (.next k prev) before = .next k q := by
  induction before generalizing fuel prev with
  | nil =>
    obtain ⟨fuel, rfl⟩ : ∃ m, fuel = m + 1 := ⟨fuel - 1, by omega⟩
    obtain ⟨next, nonzero, -⟩ := linked
    refine ⟨prev, mem_cons_self, ?_, rfl⟩
    rw [Vldb.prevFrom, same prev mem_cons_self, next]
    simp only [if_neg nonzero, if_true]
  | cons c before ih =>
    rw [length_cons] at enough
    obtain ⟨fuel, rfl⟩ : ∃ m, fuel = m + 1 := ⟨fuel - 1, by omega⟩
    obtain ⟨next, nonzero, later⟩ := linked
    rw [mem_cons, not_or] at other
    obtain ⟨q, inside, found, slot⟩ := @ih fuel c later other.2 (fun d member => same d (mem_cons_of_mem _ member))
      (by omega)
    refine ⟨q, mem_cons_of_mem _ inside, ?_, slot⟩
    rw [Vldb.prevFrom, same prev mem_cons_self, next]
    simp only [if_neg nonzero, if_neg (Ne.symm other.1)]
    exact found

@[simp] theorem load_freePtr (db : Vldb) : db.load .freePtr = db.freePtr := rfl

@[simp] theorem load_hash (db : Vldb) (n : Int) : db.load (.hash n) = db.hash n := rfl

@[simp] theorem load_next (db : Vldb) (k : Thread) (b : Nat) : db.load (.next k b) = (db.block b).next k := rfl

@[simp] theorem freePtr_put (db : Vldb) (b : Nat) (e : NvlEntry) : (db.put b e).freePtr = db.freePtr := rfl

@[simp] theorem hash_put (db : Vldb) (b : Nat) (e : NvlEntry) : (db.put b e).hash = db.hash := rfl

/-- A transaction that works on one block: its entry is in memory, and on disk are the others as they were at first,
    but for links. The chains are those of the disk with the entry in memory. -/
structure Session (begun : Vldb) (b : Nat) (on : Thread → List Nat) (free : List Nat) (db : Vldb) (e : NvlEntry) :
    Prop where
  threaded : Threaded (db.put b e) on free
  eof : db.eofPtr = begun.eofPtr
  others : ∀ c ≠ b, (db.block c).data = (begun.block c).data
  index : begun.indexOK b
  unfree : b ∉ free

namespace Session

variable {begun db : Vldb} {b : Nat} {on : Thread → List Nat} {free : List Nat} {e : NvlEntry}

theorem disk (session : Session begun b on free db e) (off : b ∉ on k) {n : Int} (known : k.valid n) :
    Linked db.load (.next k) (.hash n) ((on k).filter fun c => ((db.put b e).block c).chain k = n) := by
  refine Linked.congr (session.threaded.chains k n known) ?_ ?_
  · rfl
  intro c inside
  have apart : c ≠ b := by
    rintro rfl
    exact off (List.mem_filter.mp inside).1
  rw [load_next, load_next, block_put, if_neg apart]

theorem hashOn (session : Session begun b on free db e) (fresh : b ∉ on k) (range : k.valid (e.chain k)) :
    Session begun b (update on k (b :: on k)) free (db.hashOn k b e).1 (db.hashOn k b e).2 := by
  have chain : ((db.put b e).block b).chain k = e.chain k := by rw [block_put, if_pos rfl]
  refine ⟨?_, session.eof, session.others, session.index, session.unfree⟩
  apply @Threaded.push (db.put b e) _ on free session.threaded k b
  · rfl
  · intro c
    simp only [block_put, Vldb.hashOn]
    split
    · exact data_setNext ..
    · rfl
  · unfold Vldb.indexOK
    rw [eofPtr_put, session.eof]
    exact session.index
  · exact session.unfree
  · exact fresh
  · rwa [chain]
  · rw [chain]
    simp only [Vldb.hashOn, load_hash, hash_put, update_self]
  · simp only [Vldb.hashOn, load_next, block_put, if_true, next_setNext, load_hash, hash_put]
  · intro s head next
    rw [chain] at head
    cases s with
    | freePtr => rfl
    | hash n =>
      have other : n ≠ e.chain k := fun same => head (by rw [same])
      simp only [Vldb.hashOn, load_hash, hash_put, update_of_ne other]
    | next k' c =>
      simp only [Vldb.hashOn, load_next, block_put]
      split
      · rename_i here
        have other : k' ≠ k := fun same => next (by rw [same, here])
        rw [next_setNext, if_neg other]
      · rfl

theorem unhashOn (session : Session begun b on free db e) (inside : b ∈ on k) :
    ∃ db' e', db.unhashOn k b e = .ok (db', e') ∧ e'.data = e.data ∧
      Session begun b (update on k ((on k).filter fun c => c ≠ b)) free db' e' := by
  have chain : ((db.put b e).block b).chain k = e.chain k := by rw [block_put, if_pos rfl]
  have range := session.threaded.ranges k b inside
  have linked := session.threaded.chains k _ range
  have length := session.threaded.length_chain k range
  have member : b ∈ (on k).filter fun c => ((db.put b e).block c).chain k = ((db.put b e).block b).chain k := by
    rw [mem_filter, decide_eq_true_eq]
    exact ⟨inside, rfl⟩
  obtain ⟨before, after, split⟩ := append_of_mem member
  rw [split, chain] at linked
  rw [split] at length
  have once := linked.nodup
  rw [nodup_append] at once
  have earlier : ∀ c ∈ before, c ≠ b := fun c known => once.2.2 c known b mem_cons_self
  cases before with
  | nil =>
    -- first on the chain
    have head : db.hash (e.chain k) = b := linked.1
    refine ⟨{ db with hash := update db.hash (e.chain k) (e.next k) }, e.setNext k 0, ?_, data_setNext ..,
      ?_, session.eof, session.others, session.index, session.unfree⟩
    · rw [Vldb.unhashOn, if_pos head]
    apply @Threaded.unlink (db.put b e) _ on free session.threaded k b [] after
    · rfl
    · intro c
      simp only [block_put]
      split
      · exact data_setNext ..
      · rfl
    · exact inside
    · exact split
    · simp only [slotAfter, load_hash, hash_put, update_self, load_next, block_put, if_true]
    · simp only [load_next, block_put, if_true, next_setNext]
    intro s head next
    rw [slotAfter, chain] at head
    cases s with
    | freePtr => rfl
    | hash n =>
      have other : n ≠ e.chain k := fun same => head (by rw [same])
      simp only [load_hash, hash_put, update_of_ne other]
    | next k' c =>
      simp only [load_next, block_put]
      split
      · rename_i here
        have other : k' ≠ k := fun same => next (by rw [same, here])
        rw [next_setNext, if_neg other]
      · rfl
  | cons c before =>
    have head : db.hash (e.chain k) = c := linked.1
    have other : c ≠ b := earlier c mem_cons_self
    have disk : ∀ d ∈ c :: before, (db.block d).next k = (db.put b e).load (.next k d) := by
      intro d known
      rw [load_next, block_put, if_neg (earlier d known)]
    obtain ⟨q, known, found, slot⟩ := @prevFrom_eq db k b db.fuel c before after _ linked.2.2
      (fun again => earlier b (mem_cons_of_mem _ again) rfl) disk (by
        rw [length_append, length_cons] at length
        have same : (db.put b e).fuel = db.fuel := rfl
        omega)
    have apart : q ≠ b := earlier q known
    refine ⟨db.put q ((db.block q).setNext k (e.next k)), e.setNext k 0, ?_, data_setNext .., ?_, session.eof, ?_,
      session.index, session.unfree⟩
    · rw [Vldb.unhashOn, head, if_neg other, found]
      rfl
    · apply @Threaded.unlink (db.put b e) _ on free session.threaded k b (c :: before) after
      · rfl
      · intro d
        simp only [block_put]
        split
        · exact data_setNext ..
        split
        · rename_i here
          rw [here]
          exact data_setNext ..
        · rfl
      · exact inside
      · exact split
      · rw [slotAfter, slot]
        simp only [load_next, block_put, if_neg apart, if_true, next_setNext]
      · simp only [load_next, block_put, if_true, next_setNext]
      intro s place next
      rw [slotAfter, slot] at place
      cases s with
      | freePtr => rfl
      | hash n => rfl
      | next k' d =>
        simp only [load_next, block_put]
        split
        · rename_i here
          have different : k' ≠ k := fun same => next (by rw [same, here])
          rw [next_setNext, if_neg different]
        split
        · rename_i here
          have different : k' ≠ k := fun same => place (by rw [same, here])
          rw [next_setNext, if_neg different, here]
        · rfl
    · intro d away
      rw [block_put]
      split
      · rename_i here
        rw [data_setNext, here]
        exact session.others q apart
      · exact session.others d away

end Session

end OpenAFS.Vlserver
