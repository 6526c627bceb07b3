import OpenAFS.Lib.Counting
import OpenAFS.Lib.HashTable
import OpenAFS.Ptserver.Entries

namespace OpenAFS.Ptserver

open Function (update update_self update_of_ne update_apply)
open Lib List

inductive Slot where
  | hash (k : Thread) (n : Nat)
  | link (k : Thread) (b : Nat)
  | freePtr
  | next (b : Nat)
  | orphan
  | owned (b : Nat)
  | nextOwned (b : Nat)
  deriving DecidableEq

variable (h : PrHeader) (e : PrEntry)

namespace PrDb

variable (db : PrDb)

def load : Slot → Nat
  | .hash k n => db.header.hash k n
  | .link k b => (db.entry b).link k
  | .freePtr => db.header.freePtr
  | .next b => (db.entry b).next
  | .orphan => db.header.orphan
  | .owned b => (db.entry b).owned
  | .nextOwned b => (db.entry b).nextOwned

@[simp] theorem load_hash (k : Thread) (n : Nat) : db.load (.hash k n) = db.header.hash k n := rfl

@[simp] theorem load_link (k : Thread) (b : Nat) : db.load (.link k b) = (db.entry b).link k := rfl

@[simp] theorem load_freePtr : db.load .freePtr = db.header.freePtr := rfl

variable (b : Nat)

@[simp] theorem load_next : db.load (.next b) = (db.entry b).next := rfl

@[simp] theorem load_orphan : db.load .orphan = db.header.orphan := rfl

@[simp] theorem load_owned : db.load (.owned b) = (db.entry b).owned := rfl

@[simp] theorem load_nextOwned : db.load (.nextOwned b) = (db.entry b).nextOwned := rfl

def IsEntry (b : Nat) : Prop := ∃ e, db.block b = .entry e

variable (c : Nat)

@[simp] theorem entry_putEntry (e : PrEntry) : (db.putEntry b e).entry c = if c = b then e else db.entry c := by
  unfold putEntry entry
  dsimp only
  by_cases here : c = b
  · rw [if_pos here, here, update_self]
  · rw [if_neg here, update_of_ne here]

@[simp] theorem cont_putEntry (e : PrEntry) :
    (db.putEntry b e).cont c = if c = b then { flags := e.flags, id := e.id, next := e.next } else db.cont c := by
  unfold putEntry cont
  dsimp only
  by_cases here : c = b
  · rw [if_pos here, here, update_self]
  · rw [if_neg here, update_of_ne here]

variable (x : ContEntry)

@[simp] theorem entry_putCont :
    (db.putCont b x).entry c = if c = b then { flags := x.flags, id := x.id, next := x.next } else db.entry c := by
  unfold putCont entry
  dsimp only
  by_cases here : c = b
  · rw [if_pos here, here, update_self]
  · rw [if_neg here, update_of_ne here]

@[simp] theorem cont_putCont : (db.putCont b x).cont c = if c = b then x else db.cont c := by
  unfold putCont cont
  dsimp only
  by_cases here : c = b
  · rw [if_pos here, here, update_self]
  · rw [if_neg here, update_of_ne here]

@[simp] theorem header_putEntry : (db.putEntry b e).header = db.header := rfl

@[simp] theorem header_putCont : (db.putCont b x).header = db.header := rfl

@[simp] theorem entry_header (b : Nat) : ({ db with header := h } : PrDb).entry b = db.entry b := rfl

@[simp] theorem cont_header (b : Nat) : ({ db with header := h } : PrDb).cont b = db.cont b := rfl

@[simp] theorem isEntry_header (b : Nat) : ({ db with header := h } : PrDb).IsEntry b ↔ db.IsEntry b := Iff.rfl

theorem isEntry_putEntry (e : PrEntry) : (db.putEntry b e).IsEntry c ↔ c = b ∨ db.IsEntry c := by
  unfold IsEntry putEntry
  dsimp only
  rw [update_apply]
  split <;> simp [*]

theorem isEntry_putCont : (db.putCont b x).IsEntry c ↔ c ≠ b ∧ db.IsEntry c := by
  unfold IsEntry putCont
  dsimp only
  rw [update_apply]
  split <;> simp [*]

theorem cont_next : (db.cont b).next = (db.entry b).next := by
  unfold cont entry
  cases db.block b <;> rfl

theorem cont_of_isEntry {b : Nat} (form : db.IsEntry b) :
    db.cont b = { flags := (db.entry b).flags, id := (db.entry b).id, next := (db.entry b).next } := by
  obtain ⟨e, here⟩ := form
  unfold cont entry
  rw [here]

@[simp] theorem block_allocBlock : db.allocBlock.1.block = db.block := by
  unfold allocBlock
  split <;> rfl

@[simp] theorem entry_allocBlock : db.allocBlock.1.entry = db.entry := by
  unfold entry
  rw [block_allocBlock]

@[simp] theorem cont_allocBlock : db.allocBlock.1.cont = db.cont := by
  unfold cont
  rw [block_allocBlock]

end PrDb

namespace PrHeader

@[simp] theorem hash_setHash (n b : Nat) (k k' : Thread) (m : Nat) :
    (h.setHash n b k).hash k' m = if k' = k ∧ m = n then b else h.hash k' m := by
  cases k <;> cases k' <;> simp [setHash, hash, update_apply]

@[simp] theorem freePtr_setHash (n b : Nat) (k : Thread) : (h.setHash n b k).freePtr = h.freePtr := by
  cases k <;> rfl

@[simp] theorem eofPtr_setHash (n b : Nat) (k : Thread) : (h.setHash n b k).eofPtr = h.eofPtr := by
  cases k <;> rfl

@[simp] theorem orphan_setHash (n b : Nat) (k : Thread) : (h.setHash n b k).orphan = h.orphan := by
  cases k <;> rfl

end PrHeader

namespace PrEntry

def data (e : PrEntry) : PrEntry := { e with nextID := 0, nextName := 0 }

@[simp] theorem link_setLink (b : Nat) (k k' : Thread) :
    (e.setLink b k).link k' = if k' = k then b else e.link k' := by
  cases k <;> cases k' <;> rfl

@[simp] theorem data_setLink (b : Nat) (k : Thread) : (e.setLink b k).data = e.data := by
  cases k <;> rfl

theorem bucket_of_data {e e' : PrEntry} (same : e'.data = e.data) (k : Thread) : e'.bucket k = e.bucket k := by
  cases k with
  | id => exact congrArg (fun d => idHash d.id) same
  | name => exact congrArg (fun d => nameHash d.name) same

theorem bucket_lt (k : Thread) : e.bucket k < hashSize := by
  cases k <;> exact Nat.mod_lt _ (by decide)

end PrEntry

structure OnlyLinks (db db' : PrDb) : Prop where
  freePtr : db'.header.freePtr = db.header.freePtr
  eofPtr : db'.header.eofPtr = db.header.eofPtr
  orphan : db'.header.orphan = db.header.orphan
  data : ∀ b, (db'.entry b).data = (db.entry b).data
  cont : ∀ b, db'.cont b = db.cont b
  form : ∀ b, db'.IsEntry b ↔ db.IsEntry b

namespace OnlyLinks

theorem trans {db db' db'' : PrDb} (first : OnlyLinks db db') (second : OnlyLinks db' db'') : OnlyLinks db db'' :=
  ⟨second.freePtr.trans first.freePtr, second.eofPtr.trans first.eofPtr, second.orphan.trans first.orphan,
    fun b => (second.data b).trans (first.data b), fun b => (second.cont b).trans (first.cont b),
    fun b => (second.form b).trans (first.form b)⟩

theorem putLink {db : PrDb} {b : Nat} (form : db.IsEntry b) (n : Nat) (k : Thread) :
    OnlyLinks db (db.putEntry b ((db.entry b).setLink n k)) := by
  refine ⟨rfl, rfl, rfl, fun c => ?_, fun c => ?_, fun c => ?_⟩
  · rw [PrDb.entry_putEntry]
    split
    · rename_i here
      rw [PrEntry.data_setLink, here]
    · rfl
  · rw [PrDb.cont_putEntry]
    split
    · rename_i here
      rw [here, db.cont_of_isEntry form]
      cases k <;> rfl
    · rfl
  · rw [PrDb.isEntry_putEntry, or_iff_right_iff_imp]
    rintro rfl
    exact form

theorem setHash (db : PrDb) (n b : Nat) (k : Thread) : OnlyLinks db { db with header := db.header.setHash n b k } := by
  refine ⟨?_, ?_, ?_, fun _ => rfl, fun _ => rfl, fun _ => Iff.rfl⟩
  · exact PrHeader.freePtr_setHash ..
  · exact PrHeader.eofPtr_setHash ..
  · exact PrHeader.orphan_setHash ..

end OnlyLinks

structure Threaded (db : PrDb) (on : Thread → List Nat) : Prop where
  chains : ∀ k, Buckets db.load (Slot.link k) (Slot.hash k) (· < hashSize) (fun b => (db.entry b).bucket k) (on k)
  entries : ∀ k, ∀ b ∈ on k, db.IsEntry b ∧ b < db.header.eofPtr

theorem link_injective (k : Thread) : Function.Injective (Slot.link k) := by
  intro b c same
  cases same
  rfl

theorem hash_injective (k : Thread) : Function.Injective (Slot.hash k) := by
  intro m n same
  cases same
  rfl

variable {k : Thread}

namespace Threaded

variable {db db' : PrDb} {on : Thread → List Nat}

variable (threaded : Threaded db on)
include threaded

theorem chain (k : Thread) {n : Nat} (small : n < hashSize) :
    Linked db.load (Slot.link k) (.hash k n) ((on k).filter fun b => (db.entry b).bucket k = n) :=
  threaded.chains k n small

theorem nonzero {b : Nat} (inside : b ∈ on k) : b ≠ 0 := by
  apply (threaded.chain k ((db.entry b).bucket_lt k)).ne_zero
  rw [mem_filter, decide_eq_true_eq]
  exact ⟨inside, rfl⟩

theorem length_chain (k : Thread) {n : Nat} (small : n < hashSize) :
    ((on k).filter fun b => (db.entry b).bucket k = n).length < db.fuel := by
  apply Nat.lt_succ_of_le
  apply length_le_of_nodup (threaded.chain k small).nodup
  intro b inside
  exact (threaded.entries k b (List.mem_filter.mp inside).1).2

theorem congr (eof : db.header.eofPtr ≤ db'.header.eofPtr)
    (heads : ∀ k n, db'.header.hash k n = db.header.hash k n)
    (links : ∀ k, ∀ b ∈ on k, (db'.entry b).link k = (db.entry b).link k ∧ (db'.entry b).bucket k = (db.entry b).bucket k ∧
      db'.IsEntry b) : Threaded db' on := by
  constructor
  · intro k
    refine (threaded.chains k).congr (fun n _ => heads k n) (fun b inside => ?_) (fun b inside => ?_)
    · exact (links k b inside).1
    · exact (links k b inside).2.1
  · intro k b inside
    exact ⟨(links k b inside).2.2, Nat.lt_of_lt_of_le (threaded.entries k b inside).2 eof⟩

theorem addToHash {b : Nat} (form : db.IsEntry b)
    (below : b < db.header.eofPtr) (nonzero : b ≠ 0) (fresh : b ∉ on k) :
    Threaded (db.addToHash k ((db.entry b).bucket k) b) (update on k (b :: on k)) ∧
      OnlyLinks db (db.addToHash k ((db.entry b).bucket k) b) := by
  have only : OnlyLinks db (db.addToHash k ((db.entry b).bucket k) b) :=
    (OnlyLinks.setHash db ((db.entry b).bucket k) b k).trans
      (@OnlyLinks.putLink { db with header := db.header.setHash ((db.entry b).bucket k) b k } b form _ k)
  have bucket (c : Nat) (k' : Thread) := PrEntry.bucket_of_data (only.data c) k'
  have links (k' : Thread) (c : Nat) (other : ¬ (k' = k ∧ c = b)) :
      (db.addToHash k ((db.entry b).bucket k) b).load (.link k' c) = db.load (.link k' c) := by
    unfold PrDb.addToHash
    rw [PrDb.load_link, PrDb.load_link, PrDb.entry_putEntry]
    split
    · rename_i here
      rw [PrEntry.link_setLink, if_neg fun same => other ⟨same, here⟩, here]
    · rfl
  have heads (k' : Thread) (n : Nat) (other : ¬ (k' = k ∧ n = (db.entry b).bucket k)) :
      (db.addToHash k ((db.entry b).bucket k) b).load (.hash k' n) = db.load (.hash k' n) := by
    unfold PrDb.addToHash
    rw [PrDb.load_hash, PrDb.load_hash, PrDb.header_putEntry, PrHeader.hash_setHash, if_neg other]
  refine ⟨⟨fun k' => ?_, fun k' c inside => ?_⟩, only⟩
  · by_cases here : k' = k
    · subst here
      rw [update_self]
      apply (threaded.chains k').push nonzero
      · rw [bucket]
        unfold PrDb.addToHash
        rw [PrDb.load_hash, PrDb.header_putEntry, PrHeader.hash_setHash, if_pos ⟨rfl, rfl⟩]
      · rw [bucket]
        unfold PrDb.addToHash
        rw [PrDb.load_link, PrDb.load_hash, PrDb.entry_putEntry, if_pos rfl, PrEntry.link_setLink, if_pos rfl]
      · intro n _ other
        rw [bucket] at other
        exact heads k' n fun same => other same.2
      · intro c inside
        refine links k' c fun same => fresh ?_
        rwa [← same.2]
      · exact fun c _ => bucket c k'
    · rw [update_of_ne here]
      apply (threaded.chains k').congr
      · exact fun n _ => heads k' n fun same => here same.1
      · exact fun c _ => links k' c fun same => here same.1
      · exact fun c _ => bucket c k'
  · rw [only.form, only.eofPtr]
    by_cases here : k' = k
    · subst here
      rw [update_self] at inside
      rcases List.mem_cons.mp inside with rfl | old
      · exact ⟨form, below⟩
      · exact threaded.entries k' c old
    · rw [update_of_ne here] at inside
      exact threaded.entries k' c inside

end Threaded

theorem findFrom_eq {db : PrDb} {hit : PrEntry → Bool} {fuel : Nat} {a : Slot} {cells : List Nat}
    (linked : Linked db.load (Slot.link k) a cells) (enough : cells.length < fuel) :
    db.findFrom hit k fuel (db.load a) = .ok ((cells.find? fun b => hit (db.entry b)).getD 0) := by
  induction cells generalizing fuel a with
  | nil =>
    obtain ⟨fuel, rfl⟩ : ∃ m, fuel = m + 1 := ⟨fuel - 1, by omega⟩
    have stop : db.load a = 0 := linked
    rw [PrDb.findFrom, if_pos stop]
    rfl
  | cons b cells ih =>
    rw [length_cons] at enough
    obtain ⟨fuel, rfl⟩ : ∃ m, fuel = m + 1 := ⟨fuel - 1, by omega⟩
    rw [PrDb.findFrom, linked.1, if_neg linked.2.1, find?_cons]
    cases found : hit (db.entry b) with
    | true =>
      rfl
    | false =>
      exact ih linked.2.2 (by omega)

theorem trailFrom_eq {db : PrDb} {hit : PrEntry → Bool} {k : Thread} {fuel trail b : Nat} {a : Slot}
    {before after : List Nat} (linked : Linked db.load (Slot.link k) a (before ++ b :: after))
    (enough : before.length < fuel) (earlier : ∀ c ∈ before, hit (db.entry c) = false) (here : hit (db.entry b)) :
    db.trailFrom hit k fuel trail (db.load a) = .ok (before.getLastD trail, b) := by
  induction before generalizing fuel trail a with
  | nil =>
    obtain ⟨fuel, rfl⟩ : ∃ m, fuel = m + 1 := ⟨fuel - 1, by omega⟩
    rw [PrDb.trailFrom, linked.1, if_neg linked.2.1, here, if_pos rfl]
    rfl
  | cons c before ih =>
    rw [length_cons] at enough
    obtain ⟨fuel, rfl⟩ : ∃ m, fuel = m + 1 := ⟨fuel - 1, by omega⟩
    rw [PrDb.trailFrom, linked.1, if_neg linked.2.1, earlier c mem_cons_self, if_neg Bool.false_ne_true, getLastD_cons]
    exact ih linked.2.2 (by omega) fun d inside => earlier d (mem_cons_of_mem _ inside)

namespace Threaded

variable {db : PrDb} {on : Thread → List Nat}

theorem unlink {db' : PrDb} (threaded : Threaded db on) {b : Nat} {before after : List Nat}
    (only : OnlyLinks db db') (inside : b ∈ on k)
    (split : ((on k).filter fun c => (db.entry c).bucket k = (db.entry b).bucket k) = before ++ b :: after)
    (slot : db'.load (slotAfter (Slot.link k) (.hash k ((db.entry b).bucket k)) before) = db.load (.link k b))
    (heads : ∀ k' n, Slot.hash k' n ≠ slotAfter (Slot.link k) (.hash k ((db.entry b).bucket k)) before →
      db'.load (.hash k' n) = db.load (.hash k' n))
    (links : ∀ k' c, Slot.link k' c ≠ slotAfter (Slot.link k) (.hash k ((db.entry b).bucket k)) before →
      db'.load (.link k' c) = db.load (.link k' c)) :
    Threaded db' (update on k ((on k).filter fun c => c ≠ b)) := by
  have bucket (c : Nat) (k' : Thread) := PrEntry.bucket_of_data (only.data c) k'
  have small := (db.entry b).bucket_lt k
  -- the slot in front of the entry is one of its kind
  have place (k' : Thread) (other : k' ≠ k) :
      (∀ n, Slot.hash k' n ≠ slotAfter (Slot.link k) (.hash k ((db.entry b).bucket k)) before) ∧
        ∀ c, Slot.link k' c ≠ slotAfter (Slot.link k) (.hash k ((db.entry b).bucket k)) before := by
    rcases @slotAfter_mem _ (Slot.link k) (.hash k ((db.entry b).bucket k)) before with first | ⟨d, -, later⟩
    · rw [first]
      exact ⟨fun n same => other (by injection same), fun c => Slot.noConfusion⟩
    · rw [later]
      exact ⟨fun n => Slot.noConfusion, fun c same => other (by injection same)⟩
  constructor
  · intro k'
    by_cases here : k' = k
    · subst here
      rw [update_self]
      have out := (threaded.chains k').unlink (link_injective k') (hash_injective k') (fun _ _ => Slot.noConfusion) small
        split slot (fun s known other => ?_)
      · exact out.congr (fun _ _ => rfl) (fun _ _ => rfl) fun c _ => bucket c k'
      · rcases known with ⟨n, -, rfl⟩ | ⟨c, -, -, rfl⟩
        · exact heads k' n other
        · exact links k' c other
    · rw [update_of_ne here]
      apply (threaded.chains k').congr
      · exact fun n _ => heads k' n ((place k' here).1 n)
      · exact fun c _ => links k' c ((place k' here).2 c)
      · exact fun c _ => bucket c k'
  · intro k' c member
    rw [only.form, only.eofPtr]
    apply threaded.entries k' c
    by_cases here : k' = k
    · subst here
      rw [update_self] at member
      exact (List.mem_filter.mp member).1
    · rwa [update_of_ne here] at member

theorem removeFromHash (threaded : Threaded db on) {b : Nat} {hit : PrEntry → Bool} (inside : b ∈ on k)
    (only : ∀ c ∈ on k, hit (db.entry c) ↔ c = b) :
    ∃ db', db.removeFromHash hit k ((db.entry b).bucket k) = .ok (db', b) ∧ OnlyLinks db db' ∧
      Threaded db' (update on k ((on k).filter fun c => c ≠ b)) := by
  have small := (db.entry b).bucket_lt k
  have linked := threaded.chain k small
  have enough := threaded.length_chain k small
  have nonzero := threaded.nonzero inside
  have member : b ∈ (on k).filter fun c => (db.entry c).bucket k = (db.entry b).bucket k := by
    rw [mem_filter, decide_eq_true_eq]
    exact ⟨inside, rfl⟩
  obtain ⟨before, after, split⟩ := append_of_mem member
  have known : ∀ c ∈ before, c ∈ on k := by
    intro c earlier
    have kept : c ∈ (on k).filter fun c => (db.entry c).bucket k = (db.entry b).bucket k := by
      rw [split]
      exact mem_append_left _ earlier
    exact (List.mem_filter.mp kept).1
  rw [split] at linked enough
  have once := linked.nodup
  rw [nodup_append] at once
  have apart : ∀ c ∈ before, c ≠ b := fun c earlier => once.2.2 c earlier b mem_cons_self
  have trail := @trailFrom_eq db hit k db.fuel 0 b _ before after linked
    (by rw [length_append, length_cons] at enough; omega)
    (fun c earlier => by
      rw [Bool.eq_false_iff]
      exact fun yes => apart c earlier ((only c (known c earlier)).mp yes))
    ((only b inside).mpr rfl)
  rw [PrDb.load_hash] at trail
  rcases eq_nil_or_concat' before with rfl | ⟨front, last, rfl⟩
  · refine ⟨_, ?_, OnlyLinks.setHash db ((db.entry b).bucket k) ((db.entry b).link k) k, ?_⟩
    · unfold PrDb.removeFromHash
      rw [trail]
      change (if b = 0 then _ else if (0 : Nat) = 0 then _ else _) = _
      rw [if_neg nonzero, if_pos rfl]
    apply threaded.unlink (OnlyLinks.setHash ..) inside split
    · rw [slotAfter, PrDb.load_hash, PrDb.load_link, PrHeader.hash_setHash, if_pos ⟨rfl, rfl⟩]
    · intro k' n other
      rw [PrDb.load_hash, PrDb.load_hash, PrHeader.hash_setHash, if_neg]
      rintro ⟨rfl, rfl⟩
      exact other rfl
    · exact fun _ _ _ => rfl
  have earlier : last ∈ front ++ [last] := mem_append_right _ mem_cons_self
  have form := (threaded.entries k last (known last earlier)).1
  have slot : slotAfter (Slot.link k) (.hash k ((db.entry b).bucket k)) (front ++ [last]) = .link k last :=
    slotAfter_concat ..
  refine ⟨_, ?_, OnlyLinks.putLink form ((db.entry b).link k) k, ?_⟩
  · unfold PrDb.removeFromHash
    rw [trail, getLastD_concat]
    change (if b = 0 then _ else if last = 0 then _ else _) = _
    rw [if_neg nonzero, if_neg (threaded.nonzero (known last earlier))]
  apply threaded.unlink (OnlyLinks.putLink form ..) inside split
  · rw [slot, PrDb.load_link, PrDb.load_link, PrDb.entry_putEntry, if_pos rfl, PrEntry.link_setLink, if_pos rfl]
  · exact fun _ _ _ => rfl
  intro k' c other
  rw [slot] at other
  rw [PrDb.load_link, PrDb.load_link, PrDb.entry_putEntry]
  split
  · rename_i here
    rw [PrEntry.link_setLink, if_neg fun same => other (by rw [same, here]), here]
  · rfl

theorem findFrom (threaded : Threaded db on) {n : Nat} (hit : PrEntry → Bool) (small : n < hashSize) :
    ∃ b, db.findFrom hit k db.fuel (db.load (.hash k n)) = .ok b ∧
      (b = 0 ∧ (∀ c ∈ on k, (db.entry c).bucket k = n → hit (db.entry c) = false) ∨
        b ∈ on k ∧ (db.entry b).bucket k = n ∧ hit (db.entry b)) := by
  refine ⟨_, findFrom_eq (threaded.chain k small) (threaded.length_chain k small), ?_⟩
  cases found : ((on k).filter fun b => (db.entry b).bucket k = n).find? fun b => hit (db.entry b) with
  | none =>
    rw [find?_eq_none] at found
    refine .inl ⟨rfl, fun c inside bucket => ?_⟩
    rw [Bool.eq_false_iff]
    apply found c
    rw [mem_filter, decide_eq_true_eq]
    exact ⟨inside, bucket⟩
  | some b =>
    have member := mem_of_find?_eq_some found
    rw [mem_filter, decide_eq_true_eq] at member
    exact .inr ⟨member.1, member.2, @find?_some _ (fun b => hit (db.entry b)) b _ found⟩

end Threaded

end OpenAFS.Ptserver
