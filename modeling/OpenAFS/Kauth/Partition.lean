import OpenAFS.Lib.Counting
import OpenAFS.Lib.HashTable
import OpenAFS.Kauth.Database

namespace OpenAFS.Kauth

open Lib List

namespace KaDb

variable (db : KaDb)

def IsBlock (b : Nat) : Prop := ∃ n, b = headerSize + entrySize * n ∧ b < db.eofPtr

def bucket (b : Nat) : Nat := NameHash (db.block b).asEntry.name (db.block b).asEntry.instance_

def ident (b : Nat) : Name × Name := ((db.block b).asEntry.name, (db.block b).asEntry.instance_)

@[simp] theorem block_put (b c : Nat) (x : Block) : (db.put b x).block c = if c = b then x else db.block c := by
  unfold put
  dsimp only
  rw [Function.update_apply]

@[simp] theorem load_put (b : Nat) (x : Block) (s : Slot) : (db.put b x).load s = if s = .next b then x.next else db.load s := by
  cases s with
  | next c =>
    show ((db.put b x).block c).next = _
    by_cases here : c = b
    · simp [here]
    · simp [here]
      rfl
  | freePtr => rfl
  | kvnoPtr => rfl
  | nameHash i => rfl

@[simp] theorem load_store (v : Nat) (s s' : Slot) : (db.store v s).load s' = if s' = s then v else db.load s' := by
  cases s with
  | next b =>
    rw [store, load_put]
  | freePtr => cases s' <;> simp [store, load]
  | kvnoPtr => cases s' <;> simp [store, load]
  | nameHash i =>
    cases s' <;> simp [store, load]
    rw [Function.update_apply]

@[simp] theorem body_store (v : Nat) (s : Slot) (b : Nat) : ((db.store v s).block b).body = (db.block b).body := by
  cases s with
  | next c =>
    rw [store, block_put]
    split
    · rename_i here
      rw [here]
    · rfl
  | freePtr => rfl
  | kvnoPtr => rfl
  | nameHash i => rfl

@[simp] theorem flags_store (v : Nat) (s : Slot) (b : Nat) : ((db.store v s).block b).flags = (db.block b).flags := by
  cases s with
  | next c =>
    rw [store, block_put]
    split
    · rename_i here
      rw [here]
    · rfl
  | freePtr => rfl
  | kvnoPtr => rfl
  | nameHash i => rfl

@[simp] theorem eofPtr_store (v : Nat) (s : Slot) : (db.store v s).eofPtr = db.eofPtr := by
  cases s <;> rfl

@[simp] theorem eofPtr_put (b : Nat) (x : Block) : (db.put b x).eofPtr = db.eofPtr := rfl

theorem load_put_same {b : Nat} {x : Block} (next : x.next = (db.block b).next) (s : Slot) :
    (db.put b x).load s = db.load s := by
  rw [load_put]
  split
  · rename_i same
    rw [same]
    exact next
  · rfl

theorem block_store {v : Nat} {s : Slot} {b : Nat} (other : s ≠ .next b) : (db.store v s).block b = db.block b := by
  cases s with
  | next c =>
    rw [store, block_put, if_neg]
    rintro rfl
    exact other rfl
  | freePtr => rfl
  | kvnoPtr => rfl
  | nameHash i => rfl

end KaDb

theorem asEntry_of_body {x y : Block} (same : x.body = y.body) : x.asEntry = y.asEntry := by
  unfold Block.asEntry
  rw [same]

structure IsEntry (x : Block) : Prop where
  form : ∃ e, x.body = .entry e
  flags : x.flags &&& (kafFree ||| kafOldKeys) = 0

structure IsOldKeys (owners : List Nat) (x : Block) : Prop where
  form : ∃ entry keys, x.body = .oldKeys entry keys
  flags : x.flags = kafOldKeys
  owner : x.entryOf ∈ owners
  some_key : ∃ k ∈ x.keys, k.superseded ≠ 0

theorem IsOldKeys.congr {owners owners' : List Nat} {x y : Block} (old : IsOldKeys owners x) (body : y.body = x.body)
    (flags : y.flags = x.flags) (owner : x.entryOf ∈ owners') : IsOldKeys owners' y := by
  obtain ⟨form, plain, -, key⟩ := old
  unfold Block.entryOf at owner
  unfold Block.keys at key
  rw [← body] at form owner key
  exact ⟨form, flags.trans plain, owner, key⟩

structure Parts where
  live : List Nat
  olds : List Nat
  free : List Nat
  loose : List Nat

namespace Parts

def all (v : Parts) : List Nat := v.live ++ (v.olds ++ (v.free ++ v.loose))

def owners (v : Parts) : List Nat := v.live ++ v.loose

end Parts

structure Sound (db : KaDb) (v : Parts) : Prop where
  cover : ∀ b, b ∈ v.all ↔ db.IsBlock b
  once : v.all.Nodup
  aligned : ∃ n, db.eofPtr = headerSize + entrySize * n
  names : Buckets db.load Slot.next Slot.nameHash (· < hashSize) db.bucket v.live
  kvno : Linked db.load Slot.next .kvnoPtr v.olds
  freeList : Linked db.load Slot.next .freePtr v.free
  entries : ∀ b ∈ v.live, IsEntry (db.block b)
  oldKeys : ∀ b ∈ v.olds, IsOldKeys v.owners (db.block b)
  unused : ∀ b ∈ v.free, (db.block b).flags = kafFree
  distinct : ∀ b ∈ v.live, ∀ c ∈ v.live, db.ident b = db.ident c → b = c

structure KaDb.Pushed (db db' : KaDb) (s : Slot) (b : Nat) (x : Block) : Prop where
  same : ∀ c, c ≠ b → db'.block c = db.block c
  self : db'.block b = x
  eof : db'.eofPtr = db.eofPtr
  head : db'.load s = b
  next : db'.load (.next b) = db.load s
  off : ∀ {s' : Slot}, s' ≠ .next b → s' ≠ s → db'.load s' = db.load s'

theorem KaDb.pushed {db : KaDb} {s : Slot} {x : Block} (b : Nat) (next : x.next = db.load s) (kind : ∀ c, s ≠ .next c) :
    Pushed db ((db.store b s).put b x) s b x where
  same c other := by rw [block_put, if_neg other, block_store _ (kind c)]
  self := by rw [block_put, if_pos rfl]
  eof := by rw [eofPtr_put, eofPtr_store]
  head := by rw [load_put, if_neg (kind b), load_store, if_pos rfl]
  next := by rw [load_put, if_pos rfl, next]
  off elsewhere other := by rw [load_put, if_neg elsewhere, load_store, if_neg other]

theorem next_injective : Function.Injective Slot.next := by
  intro b c same
  cases same
  rfl

theorem nameHash_injective : Function.Injective Slot.nameHash := by
  intro i j same
  cases same
  rfl

namespace Sound

variable {db db' : KaDb} {v : Parts}

theorem apart (sound : Sound db v) {b : Nat} :
    (b ∈ v.live → b ∉ v.olds ∧ b ∉ v.free ∧ b ∉ v.loose) ∧ (b ∈ v.olds → b ∉ v.free ∧ b ∉ v.loose) ∧
      (b ∈ v.free → b ∉ v.loose) := by
  have once := sound.once
  simp only [Parts.all, nodup_append, mem_append] at once
  grind

variable {b : Nat} {x : Block} {rest : List Nat}

theorem isBlock (sound : Sound db v) (inside : b ∈ v.all) : db.IsBlock b := (sound.cover b).mp inside

theorem indexOK_of_isBlock (known : db.IsBlock b) : db.indexOK b = true := by
  rcases known with ⟨n, rfl, below⟩
  simp only [KaDb.indexOK, decide_eq_true_eq, not_or, not_lt, ge_iff_le, not_le, ne_eq, not_not]
  refine ⟨Nat.le_add_right _ _, below, ?_⟩
  rw [Nat.add_sub_cancel_left, Nat.mul_mod_right]

section

variable (sound : Sound db v)
include sound

theorem indexOK (inside : b ∈ v.all) : db.indexOK b = true :=
  indexOK_of_isBlock (sound.isBlock inside)

theorem lt_eof (inside : b ∈ v.all) : b < db.eofPtr := by
  rcases sound.isBlock inside with ⟨n, -, below⟩
  exact below

theorem ne_zero (inside : b ∈ v.all) : b ≠ 0 := by
  rcases sound.isBlock inside with ⟨n, here, -⟩
  unfold headerSize at here
  omega

theorem length_lt {cells : List Nat} (once : cells.Nodup) (inside : ∀ b ∈ cells, b ∈ v.all) :
    cells.length < db.eofPtr := by
  have bound := length_le_of_nodup (List.nodup_cons.mpr ⟨fun zero => sound.ne_zero (inside 0 zero) rfl, once⟩)
    (n := db.eofPtr) (by
      intro b member
      rcases List.mem_cons.mp member with rfl | member
      · rcases sound.aligned with ⟨n, aligned⟩
        unfold headerSize at aligned
        omega
      · exact sound.lt_eof (inside b member))
  rw [length_cons] at bound
  omega

theorem perm_cover {v' : Parts} (same : v'.all.Perm v.all) (eof : db'.eofPtr = db.eofPtr) :
    (∀ b, b ∈ v'.all ↔ db'.IsBlock b) ∧ v'.all.Nodup ∧ ∃ n, db'.eofPtr = headerSize + entrySize * n := by
  refine ⟨?_, ?_, ?_⟩
  · intro b
    rw [same.mem_iff, sound.cover]
    unfold KaDb.IsBlock
    rw [eof]
  · exact same.nodup_iff.mpr sound.once
  · rw [eof]
    exact sound.aligned

theorem live_same (heads : ∀ i < hashSize, db'.load (.nameHash i) = db.load (.nameHash i))
    (same : ∀ c ∈ v.live, db'.block c = db.block c) :
    Buckets db'.load Slot.next Slot.nameHash (· < hashSize) db'.bucket v.live ∧ (∀ c ∈ v.live, IsEntry (db'.block c)) ∧
      ∀ c ∈ v.live, ∀ d ∈ v.live, db'.ident c = db'.ident d → c = d := by
  refine ⟨sound.names.congr heads ?_ ?_, ?_, ?_⟩
  · intro c live
    exact congrArg Block.next (same c live)
  · intro c live
    unfold KaDb.bucket
    rw [same c live]
  · intro c live
    rw [same c live]
    exact sound.entries c live
  · intro c live d live'
    unfold KaDb.ident
    rw [same c live, same d live']
    exact sound.distinct c live d live'

theorem olds_same {w : Parts} (head : db'.load .kvnoPtr = db.load .kvnoPtr) (same : ∀ c ∈ v.olds, db'.block c = db.block c)
    (owners : ∀ c ∈ v.olds, (db.block c).entryOf ∈ v.owners → (db.block c).entryOf ∈ w.owners) :
    Linked db'.load Slot.next .kvnoPtr v.olds ∧ ∀ c ∈ v.olds, IsOldKeys w.owners (db'.block c) := by
  refine ⟨sound.kvno.congr head fun c inside => congrArg Block.next (same c inside), ?_⟩
  intro c inside
  obtain ⟨form, flags, owner, key⟩ := sound.oldKeys c inside
  rw [same c inside]
  exact ⟨form, flags, owners c inside owner, key⟩

theorem free_same (head : db'.load .freePtr = db.load .freePtr) (same : ∀ c ∈ v.free, db'.block c = db.block c) :
    Linked db'.load Slot.next .freePtr v.free ∧ ∀ c ∈ v.free, (db'.block c).flags = kafFree := by
  refine ⟨sound.freeList.congr head fun c inside => congrArg Block.next (same c inside), ?_⟩
  intro c inside
  rw [same c inside]
  exact sound.unused c inside

theorem rewriteEntry {b : Nat} {x : Block} (here : b ∈ v.live) (good : IsEntry x)
    (next : x.next = (db.block b).next) (name : x.asEntry.name = (db.block b).asEntry.name)
    (inst : x.asEntry.instance_ = (db.block b).asEntry.instance_) : Sound (db.put b x) v := by
  have load := db.load_put_same next
  have ident (c : Nat) : (db.put b x).ident c = db.ident c := by
    unfold KaDb.ident
    rw [KaDb.block_put]
    split
    · rename_i same
      rw [same, name, inst]
    · rfl
  have other {c : Nat} (apart : c ∉ v.live) : (db.put b x).block c = db.block c := by
    rw [KaDb.block_put, if_neg]
    rintro rfl
    exact apart here
  have olds := sound.olds_same (load _) (fun c inside => other fun live => (sound.apart.1 live).1 inside) fun _ _ => id
  have free := sound.free_same (load _) fun c inside => other fun live => (sound.apart.1 live).2.1 inside
  refine ⟨sound.cover, sound.once, sound.aligned, ?_, olds.1, free.1, ?_, olds.2, free.2, ?_⟩
  · refine sound.names.congr (fun _ _ => load _) (fun _ _ => load _) fun c _ => ?_
    exact congrArg (fun i : Name × Name => NameHash i.1 i.2) (ident c)
  · intro c inside
    rw [KaDb.block_put]
    split
    · exact good
    · exact sound.entries c inside
  · intro c inside d inside'
    rw [ident, ident]
    exact sound.distinct c inside d inside'

theorem rewriteOldKeys (here : b ∈ v.olds) (good : IsOldKeys v.owners x)
    (next : x.next = (db.block b).next) : Sound (db.put b x) v := by
  have load := db.load_put_same next
  have other {c : Nat} (apart : c ∉ v.olds) : (db.put b x).block c = db.block c := by
    rw [KaDb.block_put, if_neg]
    rintro rfl
    exact apart here
  obtain ⟨names, entries, distinct⟩ := sound.live_same (fun _ _ => load _) fun c live => other (sound.apart.1 live).1
  have free := sound.free_same (load _) fun c inside => other fun old => (sound.apart.2.1 old).1 inside
  refine ⟨sound.cover, sound.once, sound.aligned, names, sound.kvno.congr (load _) fun _ _ => load _, free.1, entries, ?_,
    free.2, distinct⟩
  intro c inside
  rw [KaDb.block_put]
  split
  · exact good
  · exact sound.oldKeys c inside

end

theorem block_allocBlock (db : KaDb) (b : Nat) : db.allocBlock.1.block b = db.block b := by
  unfold KaDb.allocBlock
  split <;> rfl

section

variable (sound : Sound db v)
include sound

theorem allocBlock :
    ∃ free, Sound db.allocBlock.1 { v with free := free, loose := db.allocBlock.2 :: v.loose } ∧
      db.allocBlock.2 ∉ v.live ++ v.olds ++ v.loose ∧ db.allocBlock.2 ≠ 0 := by
  unfold KaDb.allocBlock
  split
  · rename_i some_
    have linked := sound.freeList
    cases hfree : v.free with
    | nil =>
      rw [hfree] at linked
      exact absurd linked some_
    | cons b rest =>
      rw [hfree] at linked
      have here : db.freePtr = b := linked.1
      have member : b ∈ v.free := by simp [hfree]
      have known : b ∈ v.all := by simp [Parts.all, member]
      have load {s : Slot} (other : s ≠ .freePtr) : (db.store (db.block b).next .freePtr).load s = db.load s := by
        rw [KaDb.load_store, if_neg other]
      rw [here]
      have perm : (Parts.all { v with free := rest, loose := b :: v.loose }).Perm v.all := by
        simp only [Parts.all, hfree]
        apply List.Perm.append_left
        apply List.Perm.append_left
        exact perm_middle
      rcases sound.perm_cover perm (db.eofPtr_store (db.block b).next .freePtr) with ⟨cover, once, aligned⟩
      refine ⟨rest, ⟨cover, once, aligned, ?_, ?_, ?_, ?_, ?_, ?_, ?_⟩, ?_, sound.ne_zero known⟩
      · exact sound.names.congr (fun _ _ => load (by simp)) (fun _ _ => load (by simp)) fun _ _ => rfl
      · exact sound.kvno.congr (load (by simp)) fun _ _ => load (by simp)
      · apply Linked.move (a := .next b) (linked.2.2.congr (load (by simp)) fun _ _ => load (by simp))
        rfl
      · exact sound.entries
      · intro c inside
        have keys := sound.oldKeys c inside
        exact keys.congr rfl rfl (mem_append.mpr ((mem_append.mp keys.owner).imp id (mem_cons_of_mem _)))
      · intro c inside
        exact sound.unused c (by simp [hfree, inside])
      · exact sound.distinct
      · simp only [mem_append, not_or]
        exact ⟨⟨fun live => (sound.apart.1 live).2.1 member, fun old => (sound.apart.2.1 old).1 member⟩, sound.apart.2.2 member⟩
  have fresh : db.eofPtr ∉ v.all := fun inside => Nat.lt_irrefl _ (sound.lt_eof inside)
  rcases sound.aligned with ⟨n, aligned⟩
  have perm : (Parts.all { v with loose := db.eofPtr :: v.loose }).Perm (db.eofPtr :: v.all) := by
    have middle : v.live ++ (v.olds ++ (v.free ++ db.eofPtr :: v.loose)) =
        (v.live ++ v.olds ++ v.free) ++ db.eofPtr :: v.loose := by simp
    have same : db.eofPtr :: v.all = db.eofPtr :: ((v.live ++ v.olds ++ v.free) ++ v.loose) := by simp [Parts.all]
    rw [same]
    show (v.live ++ (v.olds ++ (v.free ++ db.eofPtr :: v.loose))).Perm _
    rw [middle]
    exact perm_middle
  refine ⟨v.free, ⟨?_, ?_, ?_, sound.names, sound.kvno, sound.freeList, sound.entries, ?_, sound.unused,
    sound.distinct⟩, ?_, ?_⟩
  · intro b
    rw [perm.mem_iff, mem_cons, sound.cover]
    constructor
    · rintro (rfl | ⟨m, here, below⟩)
      · exact ⟨n, aligned, by simp [entrySize]⟩
      · refine ⟨m, here, ?_⟩
        show b < db.eofPtr + entrySize
        omega
    rintro ⟨m, here, below⟩
    have bound : b < db.eofPtr + entrySize := below
    by_cases inside : b < db.eofPtr
    · exact .inr ⟨m, here, inside⟩
    left
    have low : n ≤ m := by
      by_contra less
      have step : entrySize * (m + 1) ≤ entrySize * n := Nat.mul_le_mul_left _ (by omega)
      unfold entrySize at step here bound aligned
      omega
    have high : m < n + 1 := by
      by_contra more
      have step : entrySize * (n + 1) ≤ entrySize * m := Nat.mul_le_mul_left _ (by omega)
      unfold entrySize at step here bound aligned
      omega
    have same : m = n := by omega
    rw [here, aligned, same]
  · rw [perm.nodup_iff, nodup_cons]
    exact ⟨fresh, sound.once⟩
  · exact ⟨n + 1, by show db.eofPtr + entrySize = _; rw [aligned, Nat.mul_succ, Nat.add_assoc]⟩
  · intro c inside
    have keys := sound.oldKeys c inside
    exact keys.congr rfl rfl (mem_append.mpr ((mem_append.mp keys.owner).imp id (mem_cons_of_mem _)))
  · simp only [Parts.all, mem_append, not_or] at fresh ⊢
    exact ⟨⟨fresh.1, fresh.2.1⟩, fresh.2.2.2⟩
  · show db.eofPtr ≠ 0
    unfold headerSize at aligned
    omega

theorem dropOldKeys {before after : List Nat} (split : v.olds = before ++ b :: after) :
    ∃ db', (db.store (db.block b).next (slotAfter Slot.next .kvnoPtr before)).freeBlock b = some db' ∧
      Sound db' { v with olds := before ++ after, free := b :: v.free } ∧ (∀ c ∉ v.olds, db'.block c = db.block c) ∧
      ∀ c ∈ before ++ after, (db'.block c).body = (db.block c).body := by
  have linked := sound.kvno
  have inside : b ∈ v.olds := by simp [split]
  have known : b ∈ v.all := by simp [Parts.all, inside]
  have once : (before ++ b :: after).Nodup := split ▸ linked.nodup
  have others : ∀ c ∈ before ++ after, c ∈ v.olds ∧ c ≠ b := by
    intro c member
    rw [← filter_ne_of_nodup once, ← split, mem_filter, decide_eq_true_eq] at member
    exact member
  have place : slotAfter Slot.next .kvnoPtr before = .kvnoPtr ∨
      ∃ c ∈ before, slotAfter Slot.next .kvnoPtr before = .next c := slotAfter_mem _ _
  have notFree : slotAfter Slot.next .kvnoPtr before ≠ .freePtr := by
    rcases place with here | ⟨c, -, here⟩ <;> simp [here]
  have notName : ∀ i, slotAfter Slot.next .kvnoPtr before ≠ .nameHash i := by
    intro i
    rcases place with here | ⟨c, -, here⟩ <;> simp [here]
  have notNext : ∀ c ∉ before, slotAfter Slot.next .kvnoPtr before ≠ .next c := by
    intro c out
    rcases place with here | ⟨d, member, here⟩
    · simp [here]
    · rw [here, ne_eq, Slot.next.injEq]
      rintro rfl
      exact out member
  have out : b ∉ before := by
    intro member
    rw [nodup_append] at once
    exact once.2.2 b member b mem_cons_self rfl
  generalize at_ : slotAfter Slot.next .kvnoPtr before = slot at notFree notName notNext ⊢
  have freePtr : (db.store (db.block b).next slot).freePtr = db.freePtr := by
    show (db.store (db.block b).next slot).load .freePtr = _
    rw [KaDb.load_store, if_neg (Ne.symm notFree)]
    rfl
  have valid : (db.store (db.block b).next slot).indexOK b = true := by
    unfold KaDb.indexOK
    rw [KaDb.eofPtr_store]
    exact sound.indexOK known
  refine ⟨_, by rw [KaDb.freeBlock, if_pos valid, freePtr], ?_⟩
  have load (s : Slot) : (((db.store (db.block b).next slot).store b .freePtr).put b
      { flags := kafFree, next := db.freePtr }).load s =
        if s = .next b then db.freePtr else if s = .freePtr then b else if s = slot then (db.block b).next else db.load s := by
    rw [KaDb.load_put, KaDb.load_store, KaDb.load_store]
  have body (c : Nat) (other : c ≠ b) : ((((db.store (db.block b).next slot).store b .freePtr).put b
      { flags := kafFree, next := db.freePtr }).block c).body = (db.block c).body ∧
      ((((db.store (db.block b).next slot).store b .freePtr).put b
        { flags := kafFree, next := db.freePtr }).block c).flags = (db.block c).flags := by
    rw [KaDb.block_put, if_neg other]
    simp
  have self : (((db.store (db.block b).next slot).store b .freePtr).put b
      { flags := kafFree, next := db.freePtr }).block b = { flags := kafFree, next := db.freePtr } := by
    rw [KaDb.block_put, if_pos rfl]
  have same (c : Nat) (notOld : c ∉ v.olds) : (((db.store (db.block b).next slot).store b .freePtr).put b
      { flags := kafFree, next := db.freePtr }).block c = db.block c := by
    have other : c ≠ b := by
      rintro rfl
      exact notOld inside
    have outside : c ∉ before := fun member => notOld (by simp [split, member])
    rw [KaDb.block_put, if_neg other, KaDb.block_store _ (by simp), KaDb.block_store _ (notNext c outside)]
  generalize eq : ((db.store (db.block b).next slot).store b .freePtr).put b
      { flags := kafFree, next := db.freePtr } = db' at load body self same ⊢
  have eof : db'.eofPtr = db.eofPtr := by rw [← eq, KaDb.eofPtr_put, KaDb.eofPtr_store, KaDb.eofPtr_store]
  have perm : (Parts.all { v with olds := before ++ after, free := b :: v.free }).Perm v.all := by
    simp only [Parts.all, split]
    apply List.Perm.append_left
    rw [append_assoc, append_assoc]
    apply List.Perm.append_left
    exact perm_middle
  rcases sound.perm_cover perm eof with ⟨cover, once', aligned⟩
  obtain ⟨names, entries, distinct⟩ := sound.live_same
    (fun i _ => by rw [load, if_neg (by simp), if_neg (by simp), if_neg (Ne.symm (notName i))])
    fun c live => same c (sound.apart.1 live).1
  refine ⟨⟨cover, once', aligned, names, ?_, ?_, entries, ?_, ?_, distinct⟩, same, fun c member => (body c (others c member).2).1⟩
  · rw [split] at linked
    apply linked.unlink next_injective (fun c _ => by simp)
    · rw [at_, load, if_neg (notNext b out), if_neg notFree, if_pos rfl]
      rfl
    · intro other
      rw [at_] at other
      rw [load, if_neg (by simp), if_neg (by simp), if_neg other]
    · intro c member other
      rw [at_] at other
      rw [load, if_neg (by simpa using (others c member).2), if_neg (by simp), if_neg other]
  · have head : db'.load .freePtr = b := by rw [load, if_neg (by simp), if_pos rfl]
    apply sound.freeList.push (sound.ne_zero known) head
    · rw [load, if_pos rfl]
      rfl
    · intro c member
      exact congrArg Block.next (same c fun old => (sound.apart.2.1 old).1 member)
  · intro c member
    have old := sound.oldKeys c (others c member).1
    obtain ⟨sameBody, sameFlags⟩ := body c (others c member).2
    exact old.congr sameBody sameFlags old.owner
  · intro c member
    rcases List.mem_cons.mp member with rfl | member
    · rw [self]
    · rw [same c fun old => (sound.apart.2.1 old).1 member]
      exact sound.unused c member

theorem loose_apart (loose : v.loose = b :: rest) :
    b ∈ v.all ∧ (∀ c ∈ v.live, c ≠ b) ∧ (∀ c ∈ v.olds, c ≠ b) ∧ ∀ c ∈ v.free, c ≠ b := by
  have inside : b ∈ v.loose := by simp [loose]
  refine ⟨by simp [Parts.all, inside], ?_, ?_, ?_⟩
  · rintro c member rfl
    exact (sound.apart.1 member).2.2 inside
  · rintro c member rfl
    exact (sound.apart.2.1 member).2 inside
  · rintro c member rfl
    exact sound.apart.2.2 member inside

theorem pushOldKeys (loose : v.loose = b :: rest)
    (good : IsOldKeys (v.live ++ rest) x) (next : x.next = db.kvnoPtr)
    (unowned : ∀ c ∈ v.olds, (db.block c).entryOf ≠ b) :
    Sound ((db.store b .kvnoPtr).put b x) { v with olds := b :: v.olds, loose := rest } := by
  obtain ⟨known, live, old, free⟩ := sound.loose_apart loose
  have pushed := KaDb.pushed (s := .kvnoPtr) b next fun _ => by simp
  have perm : (Parts.all { v with olds := b :: v.olds, loose := rest }).Perm v.all := by
    simp only [Parts.all, loose]
    apply List.Perm.append_left
    rw [cons_append, ← append_assoc, ← append_assoc]
    exact List.perm_middle.symm
  generalize (db.store b .kvnoPtr).put b x = db' at pushed ⊢
  rcases sound.perm_cover perm pushed.eof with ⟨cover, once, aligned⟩
  obtain ⟨names, entries, distinct⟩ := sound.live_same (fun i _ => pushed.off (by simp) (by simp)) fun c member => pushed.same c (live c member)
  have frees := sound.free_same (pushed.off (by simp) (by simp)) fun c member => pushed.same c (free c member)
  refine ⟨cover, once, aligned, names, ?_, frees.1, entries, ?_, frees.2, distinct⟩
  · apply sound.kvno.push (sound.ne_zero known) pushed.head pushed.next
    exact fun c member => congrArg Block.next (pushed.same c (old c member))
  intro c member
  rcases List.mem_cons.mp member with rfl | member
  · rw [pushed.self]
    exact good
  rw [pushed.same c (old c member)]
  have keys := sound.oldKeys c member
  refine keys.congr rfl rfl ?_
  have owner := keys.owner
  simp only [Parts.owners, loose, mem_append, mem_cons] at owner ⊢
  exact owner.imp id fun late => late.resolve_left (unowned c member)

theorem freeLoose (loose : v.loose = b :: rest) (unowned : ∀ c ∈ v.olds, (db.block c).entryOf ≠ b) :
    ∃ db', db.freeBlock b = some db' ∧ Sound db' { v with free := b :: v.free, loose := rest } ∧
      ∀ c, c ≠ b → db'.block c = db.block c := by
  obtain ⟨known, live, old, free⟩ := sound.loose_apart loose
  refine ⟨_, by rw [KaDb.freeBlock, if_pos (sound.indexOK known)], ?_⟩
  have pushed := KaDb.pushed (s := .freePtr) (x := { flags := kafFree, next := db.freePtr }) b rfl fun _ => by simp
  have perm : (Parts.all { v with free := b :: v.free, loose := rest }).Perm v.all := by
    simp only [Parts.all, loose]
    apply List.Perm.append_left
    apply List.Perm.append_left
    exact List.perm_middle.symm
  generalize (db.store b .freePtr).put b { flags := kafFree, next := db.freePtr } = db' at pushed ⊢
  rcases sound.perm_cover perm pushed.eof with ⟨cover, once, aligned⟩
  obtain ⟨names, entries, distinct⟩ := sound.live_same (fun i _ => pushed.off (by simp) (by simp)) fun c member => pushed.same c (live c member)
  have owned : ∀ c ∈ v.olds, (db.block c).entryOf ∈ v.owners → (db.block c).entryOf ∈ v.live ++ rest := by
    intro c member owner
    simp only [Parts.owners, loose, mem_append, mem_cons] at owner ⊢
    exact owner.imp id fun late => late.resolve_left (unowned c member)
  have olds := sound.olds_same (w := { v with loose := rest }) (pushed.off (by simp) (by simp)) (fun c member => pushed.same c (old c member)) owned
  refine ⟨⟨cover, once, aligned, names, olds.1, ?_, entries, olds.2, ?_, distinct⟩, pushed.same⟩
  · apply sound.freeList.push (sound.ne_zero known) pushed.head pushed.next
    exact fun c member => congrArg Block.next (pushed.same c (free c member))
  intro c member
  rcases List.mem_cons.mp member with rfl | member
  · rw [pushed.self]
  · rw [pushed.same c (free c member)]
    exact sound.unused c member

theorem threadBlock (loose : v.loose = b :: rest)
    (good : IsEntry x) (unused : ∀ c ∈ v.live, db.ident c ≠ (x.asEntry.name, x.asEntry.instance_)) :
    ∃ db', db.threadBlock b x = some db' ∧ Sound db' { v with live := b :: v.live, loose := rest } ∧
      (∀ c, c ≠ b → db'.block c = db.block c) ∧ db'.ident b = (x.asEntry.name, x.asEntry.instance_) := by
  obtain ⟨known, live, old, free⟩ := sound.loose_apart loose
  refine ⟨_, by rw [KaDb.threadBlock, if_pos (sound.indexOK known)], ?_⟩
  generalize hash : NameHash x.asEntry.name x.asEntry.instance_ = hi
  have pushed := KaDb.pushed (s := .nameHash hi) (x := { x with next := db.nameHash hi }) b rfl fun _ => by simp
  have perm : (Parts.all { v with live := b :: v.live, loose := rest }).Perm v.all := by
    have left : Parts.all { v with live := b :: v.live, loose := rest } = b :: (v.live ++ v.olds ++ v.free ++ rest) := by
      simp [Parts.all]
    have right : v.all = (v.live ++ v.olds ++ v.free) ++ b :: rest := by simp [Parts.all, loose]
    rw [left, right]
    exact List.perm_middle.symm
  generalize (db.store b (.nameHash hi)).put b { x with next := db.nameHash hi } = db' at pushed ⊢
  have here : db'.bucket b = hi := by
    unfold KaDb.bucket
    rw [pushed.self]
    exact hash
  have new : db'.ident b = (x.asEntry.name, x.asEntry.instance_) := by
    unfold KaDb.ident
    rw [pushed.self]
    rfl
  have others (c : Nat) (member : c ∈ v.live) : db'.ident c = db.ident c := by
    unfold KaDb.ident
    rw [pushed.same c (live c member)]
  rcases sound.perm_cover perm pushed.eof with ⟨cover, once, aligned⟩
  have olds := sound.olds_same (w := { v with live := b :: v.live, loose := rest }) (pushed.off (by simp) (by simp))
    (fun c member => pushed.same c (old c member)) fun c _ owner => by
      simp only [Parts.owners, loose, mem_append, mem_cons] at owner ⊢
      tauto
  have frees := sound.free_same (pushed.off (by simp) (by simp)) fun c member => pushed.same c (free c member)
  refine ⟨⟨cover, once, aligned, ?_, olds.1, frees.1, ?_, olds.2, frees.2, ?_⟩, pushed.same, new⟩
  · apply sound.names.push (sound.ne_zero known)
    · rw [here]
      exact pushed.head
    · rw [here]
      exact pushed.next
    · intro i _ other
      rw [here] at other
      exact pushed.off (by simp) (by simpa using other)
    · intro c member
      exact congrArg Block.next (pushed.same c (live c member))
    · intro c member
      exact congrArg (fun i : Name × Name => NameHash i.1 i.2) (others c member)
  · intro c member
    rcases List.mem_cons.mp member with rfl | member
    · rw [pushed.self]
      exact ⟨good.form, good.flags⟩
    · rw [pushed.same c (live c member)]
      exact sound.entries c member
  · intro c member d member' equal
    rcases List.mem_cons.mp member with first | earlier
    · rcases List.mem_cons.mp member' with first' | earlier'
      · rw [first, first']
      · rw [first, new, others d earlier'] at equal
        exact absurd equal.symm (unused d earlier')
    rcases List.mem_cons.mp member' with first' | earlier'
    · rw [first', new, others c earlier] at equal
      exact absurd equal (unused c earlier)
    · rw [others c earlier, others d earlier'] at equal
      exact sound.distinct c earlier d earlier' equal

theorem chain (name inst : Name) :
    Linked db.load Slot.next (.nameHash (NameHash name inst)) (v.live.filter fun b => db.bucket b = NameHash name inst) :=
  sound.names _ (NameHash_lt name inst)

theorem chain_length (name inst : Name) :
    (v.live.filter fun b => db.bucket b = NameHash name inst).length < db.eofPtr := by
  apply sound.length_lt (sound.chain name inst).nodup
  intro b inside
  simp [Parts.all, (List.mem_filter.mp inside).1]

end

theorem mem_chain {name inst : Name} : b ∈ (v.live.filter fun b => db.bucket b = NameHash name inst) ∧ db.ident b = (name, inst) ↔
      b ∈ v.live ∧ db.ident b = (name, inst) := by
  rw [mem_filter, decide_eq_true_eq]
  constructor
  · intro h
    exact ⟨h.1.1, h.2⟩
  · intro h
    refine ⟨⟨h.1, ?_⟩, h.2⟩
    exact congrArg (fun i : Name × Name => NameHash i.1 i.2) h.2

end Sound

theorem ident_eq {db : KaDb} {b : Nat} {name inst : Name} :
    ((db.block b).asEntry.name = name ∧ (db.block b).asEntry.instance_ = inst) ↔ db.ident b = (name, inst) := by
  rw [KaDb.ident, Prod.mk.injEq]

theorem findFrom_spec {db : KaDb} (name inst : Name) {cells : List Nat} {a : Slot} {fuel : Nat}
    (linked : Linked db.load Slot.next a cells) (enough : cells.length < fuel) :
    ∃ index, db.findFrom name inst fuel (db.load a) = some index ∧
      (index = 0 ∧ (∀ c ∈ cells, db.ident c ≠ (name, inst)) ∨ index ∈ cells ∧ db.ident index = (name, inst)) := by
  induction cells generalizing a fuel with
  | nil =>
    cases fuel with
    | zero => cases enough
    | succ fuel =>
      refine ⟨0, ?_, .inl ⟨rfl, by simp⟩⟩
      rw [show db.load a = 0 from linked, KaDb.findFrom, if_pos rfl]
  | cons b rest ih =>
    cases fuel with
    | zero => cases enough
    | succ fuel =>
      rcases linked with ⟨here, nonzero, later⟩
      rw [here, KaDb.findFrom, if_neg nonzero]
      by_cases hit : db.ident b = (name, inst)
      · rw [if_pos (ident_eq.mpr hit)]
        exact ⟨b, rfl, .inr ⟨by simp, hit⟩⟩
      rw [if_neg (mt ident_eq.mp hit)]
      rcases ih later (by simpa using enough) with ⟨index, found, meaning⟩
      refine ⟨index, found, meaning.imp ?_ ?_⟩
      · rintro ⟨zero, none_⟩
        refine ⟨zero, ?_⟩
        intro c inside
        rcases List.mem_cons.mp inside with rfl | inside
        · exact hit
        · exact none_ c inside
      · rintro ⟨inside, equal⟩
        exact ⟨mem_cons_of_mem _ inside, equal⟩

theorem unthreadFrom_spec {db : KaDb} {name inst : Name} {before after : List Nat} {b : Nat} {a : Slot} {fuel : Nat}
    (linked : Linked db.load Slot.next a (before ++ b :: after)) (enough : before.length < fuel)
    (passed : ∀ c ∈ before, db.ident c ≠ (name, inst)) (hit : db.ident b = (name, inst)) :
    db.unthreadFrom name inst fuel a (db.load a) = some (db.store (db.block b).next (slotAfter Slot.next a before)) := by
  induction before generalizing a fuel with
  | nil =>
    cases fuel with
    | zero => cases enough
    | succ fuel =>
      rcases linked with ⟨here, nonzero, later⟩
      rw [here, KaDb.unthreadFrom, if_neg nonzero, if_pos (ident_eq.mpr hit)]
      rfl
  | cons c before ih =>
    cases fuel with
    | zero => cases enough
    | succ fuel =>
      rcases linked with ⟨here, nonzero, later⟩
      rw [here, KaDb.unthreadFrom, if_neg nonzero, if_neg (mt ident_eq.mp (passed c (by simp)))]
      exact ih later (by simpa using enough) fun d inside => passed d (by simp [inside])

namespace Sound

variable {db db' : KaDb} {v : Parts}

theorem findBlock (sound : Sound db v) (name inst : Name) : ∃ index, db.findBlock name inst = some index ∧
      (index = 0 ∧ (∀ c ∈ v.live, db.ident c ≠ (name, inst)) ∨ index ∈ v.live ∧ db.ident index = (name, inst)) := by
  rcases findFrom_spec name inst (sound.chain name inst) (sound.chain_length name inst) with
    ⟨index, found, meaning⟩
  refine ⟨index, found, meaning.imp ?_ ?_⟩
  · rintro ⟨zero, none_⟩
    refine ⟨zero, ?_⟩
    intro c live equal
    exact none_ c (mem_chain.mpr ⟨live, equal⟩).1 equal
  · rintro ⟨inside, equal⟩
    exact mem_chain.mp ⟨inside, equal⟩

theorem unthreadBlock (sound : Sound db v) {b : Nat} (live : b ∈ v.live) : ∃ db', db.unthreadBlock (db.block b) = some db' ∧
      Sound db' { v with live := v.live.filter fun c => c ≠ b, loose := b :: v.loose } ∧
      (∀ c, (db'.block c).body = (db.block c).body) := by
  have linked := sound.chain (db.block b).asEntry.name (db.block b).asEntry.instance_
  have inside : b ∈ v.live.filter fun c => db.bucket c = db.bucket b := by
    rw [mem_filter, decide_eq_true_eq]
    exact ⟨live, rfl⟩
  rcases append_of_mem inside with ⟨before, after, split⟩
  have enough := sound.chain_length (db.block b).asEntry.name (db.block b).asEntry.instance_
  have chained : Linked db.load Slot.next (.nameHash (db.bucket b)) (before ++ b :: after) := split ▸ linked
  have once := chained.nodup
  have members : ∀ c ∈ before ++ b :: after, c ∈ v.live := by
    intro c member
    rw [← split] at member
    exact (List.mem_filter.mp member).1
  have passed : ∀ c ∈ before, db.ident c ≠ db.ident b := by
    intro c member equal
    have same := sound.distinct c (members c (by simp [member])) b live equal
    rw [nodup_append] at once
    exact once.2.2 c member b mem_cons_self same
  have short : before.length < db.eofPtr := by
    have total := congrArg List.length split
    rw [length_append] at total
    have bound : (v.live.filter fun c => db.bucket c = db.bucket b).length < db.eofPtr := enough
    omega
  have done : db.unthreadBlock (db.block b) =
      some (db.store (db.block b).next (slotAfter Slot.next (.nameHash (db.bucket b)) before)) :=
    unthreadFrom_spec chained short passed rfl
  refine ⟨_, done, ?_, fun c => KaDb.body_store ..⟩
  have place : slotAfter Slot.next (.nameHash (db.bucket b)) before = .nameHash (db.bucket b) ∨
      ∃ c ∈ before, slotAfter Slot.next (.nameHash (db.bucket b)) before = .next c := slotAfter_mem _ _
  have slot : ∀ s, s = .kvnoPtr ∨ s = .freePtr ∨ (∃ c, s = .next c ∧ c ∉ v.live) →
      s ≠ slotAfter Slot.next (.nameHash (db.bucket b)) before := by
    intro s kind same
    rw [same] at kind
    rcases place with here | ⟨c, member, here⟩
    · rw [here] at kind
      simp at kind
    rw [here] at kind
    simp only [reduceCtorEq, false_or, Slot.next.injEq] at kind
    rcases kind with ⟨d, rfl, out⟩
    exact out (members c (by simp [member]))
  have perm : (Parts.all { v with live := v.live.filter fun c => c ≠ b, loose := b :: v.loose }).Perm v.all := by
    have livesOnce : v.live.Nodup := by
      have all := sound.once
      rw [Parts.all, nodup_append] at all
      exact all.1
    have moved := perm_cons_filter_ne live livesOnce
    have left : Parts.all { v with live := v.live.filter fun c => c ≠ b, loose := b :: v.loose } =
        ((v.live.filter fun c => c ≠ b) ++ v.olds ++ v.free) ++ b :: v.loose := by simp [Parts.all]
    have right : v.all = v.live ++ (v.olds ++ v.free ++ v.loose) := by simp [Parts.all]
    rw [left, right]
    apply List.perm_middle.trans
    have front : b :: ((v.live.filter fun c => c ≠ b) ++ v.olds ++ v.free ++ v.loose) =
        (b :: v.live.filter fun c => c ≠ b) ++ (v.olds ++ v.free ++ v.loose) := by simp
    rw [front]
    exact moved.append_right _
  have ident (c : Nat) : (db.store (db.block b).next (slotAfter Slot.next (.nameHash (db.bucket b)) before)).ident c =
      db.ident c := by
    unfold KaDb.ident
    rw [asEntry_of_body (KaDb.body_store ..)]
  rcases sound.perm_cover perm (db.eofPtr_store (db.block b).next
    (slotAfter Slot.next (.nameHash (db.bucket b)) before)) with ⟨cover, nodup, aligned⟩
  have live' : ∀ c ∈ v.live.filter (fun c => c ≠ b), c ∈ v.live := fun c member => (List.mem_filter.mp member).1
  refine ⟨cover, nodup, aligned, ?_, ?_, ?_, ?_, ?_, ?_, ?_⟩
  · have bucket : (db.store (db.block b).next (slotAfter Slot.next (.nameHash (db.bucket b)) before)).bucket = db.bucket := by
      funext c
      exact congrArg (fun i : Name × Name => NameHash i.1 i.2) (ident c)
    rw [bucket]
    apply sound.names.unlink next_injective nameHash_injective (fun _ _ => by simp) (NameHash_lt _ _) split
    · rw [KaDb.load_store, if_pos rfl]
      rfl
    · intro s _ other
      rw [KaDb.load_store, if_neg other]
  · apply sound.kvno.congr
    · rw [KaDb.load_store, if_neg (slot _ (.inl rfl))]
    · intro c member
      rw [KaDb.load_store, if_neg (slot _ (.inr (.inr ⟨c, rfl, fun l => (sound.apart.1 l).1 member⟩)))]
  · apply sound.freeList.congr
    · rw [KaDb.load_store, if_neg (slot _ (.inr (.inl rfl)))]
    · intro c member
      rw [KaDb.load_store, if_neg (slot _ (.inr (.inr ⟨c, rfl, fun l => (sound.apart.1 l).2.1 member⟩)))]
  · intro c member
    rcases sound.entries c (live' c member) with ⟨form, flags⟩
    refine ⟨?_, ?_⟩
    · rw [KaDb.body_store]
      exact form
    · rw [KaDb.flags_store]
      exact flags
  · intro c member
    have keys := sound.oldKeys c member
    refine keys.congr (KaDb.body_store ..) (KaDb.flags_store ..) ?_
    have owner := keys.owner
    simp only [Parts.owners, mem_append, mem_cons, mem_filter, decide_eq_true_eq] at owner ⊢
    tauto
  · intro c member
    rw [KaDb.flags_store]
    exact sound.unused c member
  · intro c member d member'
    rw [ident, ident]
    exact sound.distinct c (live' c member) d (live' d member')

end Sound

end OpenAFS.Kauth
