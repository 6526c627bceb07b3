import OpenAFS.Ptserver.Blocks

namespace OpenAFS.Ptserver

open Function (update update_self update_of_ne)
open Lib List PrDb

def Usable (entries : List Id) (i : Nat) : Prop :=
  ∃ xs y zs, entries = xs ++ y :: zs ∧ xs.length = i ∧ 0 ∉ xs ∧ (y = badId ∨ y = 0)

theorem set_append {xs zs : List Id} {x y : Id} : (xs ++ x :: zs).set xs.length y = xs ++ y :: zs := by
  rw [set_append_right _ _ (Nat.le_refl _), Nat.sub_self, set_cons_zero]

variable {aid : Id} {entries : List Id} {i : Nat} {r : Option (Nat × Nat)}

theorem memberIn_cases (plain : aid ≠ badId ∧ aid ≠ 0) (entries : List Id) :
    memberIn aid entries = some true ∧ aid ∈ listed entries ∨
      memberIn aid entries = some false ∧ aid ∉ listed entries ∧ 0 ∈ entries ∨
      memberIn aid entries = none ∧ aid ∉ listed entries ∧ 0 ∉ entries := by
  unfold listed
  induction entries with
  | nil => exact .inr (.inr ⟨rfl, by simp [Slots.shown], by simp⟩)
  | cons x rest ih =>
    rw [memberIn, Slots.shown]
    by_cases last : x = 0
    · subst last
      exact .inr (.inl ⟨if_pos rfl, by simp [badId], mem_cons_self⟩)
    by_cases here : x = aid
    · subst here
      rw [if_neg last, if_pos rfl, if_neg plain.1, if_neg last]
      exact .inl ⟨rfl, mem_cons_self⟩
    have same : aid ∈ (if x = badId then Slots.shown badId 0 rest else x :: Slots.shown badId 0 rest) ↔
        aid ∈ Slots.shown badId 0 rest := by
      split
      · rfl
      · simp [Ne.symm here]
    rw [if_neg last, if_neg here, if_neg last, same]
    simpa [Ne.symm last] using ih

theorem clearIn_found {entries' : List Id} (found : clearIn aid entries = .found entries') :
    ∃ xs zs, entries = xs ++ aid :: zs ∧ entries' = xs ++ badId :: zs ∧ 0 ∉ xs := by
  induction entries generalizing entries' with
  | nil => cases found
  | cons x rest ih =>
    rw [clearIn] at found
    split at found
    · rename_i here
      cases found
      exact ⟨[], rest, by rw [here]; rfl, rfl, by simp⟩
    split at found
    · cases found
    rename_i more
    cases later : clearIn aid rest with
    | found entries =>
      rw [later] at found
      cases found
      obtain ⟨xs, zs, rfl, rfl, inside⟩ := ih later
      exact ⟨x :: xs, zs, rfl, rfl, by simp [inside, Ne.symm more]⟩
    | ended =>
      rw [later] at found
      cases found
    | passed =>
      rw [later] at found
      cases found

theorem clearIn_ended (ended : clearIn aid entries = .ended) : 0 ∈ entries ∧ aid ∉ listed entries := by
  unfold listed
  induction entries with
  | nil => cases ended
  | cons x rest ih =>
    rw [clearIn] at ended
    split at ended
    · cases ended
    rename_i other
    rw [Slots.shown]
    split at ended
    · rename_i last
      subst last
      exact ⟨mem_cons_self, by simp [badId]⟩
    cases later : clearIn aid rest with
    | found entries =>
      rw [later] at ended
      cases ended
    | ended =>
      obtain ⟨last, none⟩ := ih later
      refine ⟨mem_cons_of_mem _ last, ?_⟩
      split
      · exact none
      · simp [none, Ne.symm other]
    | passed =>
      rw [later] at ended
      cases ended

theorem clearIn_passed (passed : clearIn aid entries = .passed) : 0 ∉ entries ∧ aid ∉ entries := by
  induction entries with
  | nil => simp
  | cons x rest ih =>
    rw [clearIn] at passed
    split at passed
    · cases passed
    rename_i other
    split at passed
    · cases passed
    rename_i more
    cases later : clearIn aid rest with
    | found entries =>
      rw [later] at passed
      cases passed
    | ended =>
      rw [later] at passed
      cases passed
    | passed =>
      obtain ⟨last, none⟩ := ih later
      simp [last, none, Ne.symm more, Ne.symm other]

theorem bury_blocks {blocks blocks' before after : List (List Id)} {l l' : List Id} {aid : Id}
    (packed : Slots.Packed 0 blocks) (split : blocks = before ++ l :: after) (found : clearIn aid l = .found l')
    (split' : blocks' = before ++ l' :: after ∨ blocks' = before ++ after ∧ ∀ x ∈ l', x = badId ∨ x = 0)
    (alive : aid ≠ badId) (more : aid ≠ 0) :
    Slots.Packed 0 blocks' ∧ (Slots.all badId 0 blocks).Perm (aid :: Slots.all badId 0 blocks') := by
  obtain ⟨xs, zs, rfl, rfl, inside⟩ := clearIn_found found
  rw [split] at packed ⊢
  obtain ⟨packed', perm⟩ := packed.bury (by decide) inside alive more
  rcases split' with rfl | ⟨rfl, empty⟩
  · exact ⟨packed', perm⟩
  have nothing : Slots.all badId 0 (before ++ (xs ++ badId :: zs) :: after) = Slots.all badId 0 (before ++ after) := by
    rw [Slots.all_middle, Slots.shown_empty empty, nil_append]
    exact List.flatMap_append.symm
  rw [← nothing]
  exact ⟨packed'.erase, perm⟩

theorem firstSlot_absent {slot r : Option Nat} (done : firstSlot aid i slot entries = .ok r) : aid ∉ listed entries := by
  unfold listed
  induction entries generalizing i slot with
  | nil => simp [Slots.shown]
  | cons x rest ih =>
    rw [firstSlot] at done
    rw [Slots.shown]
    split at done
    · cases done
    rename_i other
    split at done
    · rename_i dead
      rw [if_pos dead]
      exact ih done
    rename_i alive
    rw [if_neg alive]
    split at done
    · rename_i last
      simp [last]
    · rename_i more
      rw [if_neg more, mem_cons, not_or]
      exact ⟨Ne.symm other, ih done⟩

theorem firstSlot_behind {aid : Id} {slot r : Option Nat} {front entries : List Id} (inside : 0 ∉ front)
    (before : ∀ i, slot = some i → Usable (front ++ entries) i)
    (done : firstSlot aid front.length slot entries = .ok r) :
    (r = none → 0 ∉ front ++ entries) ∧ ∀ i, r = some i → Usable (front ++ entries) i := by
  induction entries generalizing slot front with
  | nil =>
    cases done
    exact ⟨fun _ => by simpa using inside, before⟩
  | cons x rest ih =>
    rw [firstSlot] at done
    have shift : front ++ x :: rest = (front ++ [x]) ++ rest := by simp
    have length : front.length + 1 = (front ++ [x]).length := by simp
    split at done
    · cases done
    split at done
    · rename_i dead
      subst dead
      rw [shift] at before ⊢
      rw [length] at done
      refine ih (by simp [inside, badId]) ?_ done
      intro i same
      cases same
      exact ⟨front, badId, rest, by simp, rfl, inside, .inl rfl⟩
    split at done
    · rename_i last
      subst last
      cases done
      constructor
      · intro none
        cases slot <;> cases none
      intro i same
      cases slot with
      | some j => exact before i same
      | none =>
        cases same
        exact ⟨front, 0, rest, rfl, rfl, inside, .inr rfl⟩
    · rename_i more
      rw [shift] at before ⊢
      rw [length] at done
      exact ih (by simp [inside, Ne.symm more]) before done

theorem firstSlot_ok {r : Option Nat} (done : firstSlot aid 0 none entries = .ok r) :
    aid ∉ listed entries ∧ (r = none → 0 ∉ entries) ∧ ∀ i, r = some i → Usable entries i := by
  obtain ⟨full, usable⟩ := @firstSlot_behind aid none r [] entries (by simp) (by simp) done
  exact ⟨firstSlot_absent done, full, usable⟩

theorem contSlot_absent {nptr : Nat} {place : Option (Nat × Nat)}
    (done : contSlot aid nptr i place entries = .ok r) : aid ∉ listed entries := by
  unfold listed
  induction entries generalizing i place with
  | nil => simp [Slots.shown]
  | cons x rest ih =>
    rw [contSlot] at done
    rw [Slots.shown]
    split at done
    · cases done
    rename_i other
    split at done
    · rename_i dead
      rw [if_pos dead]
      exact ih done
    rename_i alive
    rw [if_neg alive]
    split at done
    · rename_i last
      simp [last]
    · rename_i more
      rw [if_neg more, mem_cons, not_or]
      exact ⟨Ne.symm other, ih done⟩

theorem contSlot_some {nptr : Nat} {p : Nat × Nat} (done : contSlot aid nptr i (some p) entries = .ok r) : r = some p := by
  induction entries generalizing i with
  | nil =>
    cases done
    rfl
  | cons x rest ih =>
    rw [contSlot] at done
    split at done
    · cases done
    split at done
    · exact ih done
    split at done
    · cases done
      rfl
    · exact ih done

theorem contSlot_behind {aid : Id} {nptr : Nat} {r : Option (Nat × Nat)} {front entries : List Id} (inside : 0 ∉ front)
    (done : contSlot aid nptr front.length none entries = .ok r) :
    (r = none ∧ 0 ∉ front ++ entries) ∨ ∃ i, r = some (nptr, i) ∧ Usable (front ++ entries) i := by
  induction entries generalizing front with
  | nil =>
    cases done
    exact .inl ⟨rfl, by simpa using inside⟩
  | cons x rest ih =>
    rw [contSlot] at done
    have shift : front ++ x :: rest = (front ++ [x]) ++ rest := by simp
    have length : front.length + 1 = (front ++ [x]).length := by simp
    split at done
    · cases done
    split at done
    · rename_i dead
      subst dead
      exact .inr ⟨front.length, contSlot_some done, front, badId, rest, rfl, rfl, inside, .inl rfl⟩
    split at done
    · rename_i last
      subst last
      cases done
      exact .inr ⟨front.length, rfl, front, 0, rest, rfl, rfl, inside, .inr rfl⟩
    rename_i more
    rw [shift]
    rw [length] at done
    exact ih (by simp [inside, Ne.symm more]) done

theorem slotFrom_ok {db : PrDb} {fuel last last' : Nat} {place : Option (Nat × Nat)} {a : Slot}
    {cells : List Nat} (linked : Linked db.load Slot.next a cells)
    (done : db.slotFrom aid fuel place last (db.load a) = .ok (r, last')) :
    last' = cells.getLastD last ∧ (∀ c ∈ cells, aid ∉ listed (db.cont c).entries) ∧ (∀ p, place = some p → r = some p) ∧
      (place = none → (r = none ∧ ∀ c ∈ cells, 0 ∉ (db.cont c).entries) ∨
        ∃ c ∈ cells, ∃ i, r = some (c, i) ∧ Usable (db.cont c).entries i) := by
  induction cells generalizing fuel place last a with
  | nil =>
    cases fuel with
    | zero => cases done
    | succ fuel =>
      have stop : db.load a = 0 := linked
      rw [PrDb.slotFrom, if_pos stop] at done
      cases done
      exact ⟨rfl, by simp, fun _ => id, fun none => .inl ⟨none, by simp⟩⟩
  | cons c cells ih =>
    cases fuel with
    | zero => cases done
    | succ fuel =>
      rw [PrDb.slotFrom, linked.1, if_neg linked.2.1] at done
      obtain ⟨-, done⟩ := ensure_then.mp done
      obtain ⟨place', scan, done⟩ := except_bind_eq_ok.mp done
      rw [cont_next] at done
      obtain ⟨end_, absent, kept, fresh⟩ := ih linked.2.2 done
      rw [getLastD_cons]
      refine ⟨end_, ?_, ?_, ?_⟩
      · intro d inside
        rcases List.mem_cons.mp inside with rfl | later
        · exact contSlot_absent scan
        · exact absent d later
      · rintro p rfl
        exact kept p (contSlot_some scan)
      rintro rfl
      rcases @contSlot_behind _ _ _ [] _ (by simp) scan with ⟨none, full⟩ | ⟨i, some, usable⟩
      · rcases fresh none with ⟨none', full'⟩ | ⟨d, inside, later⟩
        · refine .inl ⟨none', fun d inside => ?_⟩
          rcases List.mem_cons.mp inside with rfl | later
          · exact full
          · exact full' d later
        · exact .inr ⟨d, mem_cons_of_mem _ inside, later⟩
      · exact .inr ⟨c, mem_cons_self, i, kept _ some, usable⟩

namespace PrDb

variable (db : PrDb) (conts : Nat → List Nat)

def slots (b : Nat) : List (List Id) := (db.entry b).entries :: (conts b).map fun c => (db.cont c).entries

def ids (b : Nat) : List Id := Slots.all badId 0 (db.slots conts b)

end PrDb

/-- The list of an entry is well formed; with `labels` its continuation blocks also carry its id. -/
structure ListOK (labels : Prop) (db : PrDb) (conts : Nat → List Nat) (b : Nat) : Prop where
  packed : Slots.Packed 0 (db.slots conts b)
  main : (db.entry b).entries.length = prSize
  sizes : ∀ c ∈ conts b, (db.cont c).entries.length = coSize
  once : (db.ids conts b).Nodup
  count : (db.entry b).count = (db.ids conts b).length
  named : labels → ∀ c ∈ conts b, (db.cont c).id = (db.entry b).id

def PrEntry.rest (e : PrEntry) : PrEntry := { e with next := 0, entries := [], count := 0 }

structure ListStep (db : PrDb) (role : Nat → Role) (conts : Nat → List Nat) (loc : Nat) (db' : PrDb)
    (role' : Nat → Role) (conts' : Nat → List Nat) (free' : List Nat) : Prop where
  roles : Roles db' role' conts' free'
  live : ∀ b, role' b = .entry ↔ role b = .entry
  loose : ∀ b, role b = .loose → role' b = .loose ∧ db'.block b = db.block b
  used : ∀ b, role' b = .loose → role b = .loose
  lists : ∀ b ≠ loc, role b = .entry → conts' b = conts b
  entry : ∀ b ≠ loc, role b = .entry → db'.entry b = db.entry b
  cont : ∀ e ≠ loc, ∀ c, role c = .cont e → db'.cont c = db.cont c
  rest : (db'.entry loc).rest = (db.entry loc).rest
  nameHash : db'.header.nameHash = db.header.nameHash
  idHash : db'.header.idHash = db.header.idHash
  orphan : db'.header.orphan = db.header.orphan
  eofPtr : db.header.eofPtr ≤ db'.header.eofPtr

variable {db' : PrDb} {conts' : Nat → List Nat}

namespace ListStep

variable {db : PrDb} {role : Nat → Role} {conts : Nat → List Nat} {free : List Nat} {loc : Nat}

variable (roles : Roles db role conts free)
include roles

theorem putEntry (here : role loc = .entry) {e : PrEntry}
    (rest : e.rest = (db.entry loc).rest) (next : e.next = (db.entry loc).next) :
    ListStep db role conts loc (db.putEntry loc e) role conts free := by
  have flags : e.flags = (db.entry loc).flags := congrArg (fun d => d.flags) rest
  refine ⟨?_, fun _ => Iff.rfl, fun b known => ⟨known, ?_⟩, fun _ => id, fun _ _ _ => rfl, ?_, ?_, ?_, rfl, rfl, rfl,
    Nat.le_refl _⟩
  · apply roles.putEntry here next
    rw [flags]
    exact (roles.entries loc here).2
  · apply update_of_ne
    rintro rfl
    rw [here] at known
    cases known
  · intro b other _
    rw [entry_putEntry, if_neg other]
  · intro a _ c known
    rw [cont_putEntry, if_neg]
    rintro rfl
    rw [here] at known
    cases known
  · rw [entry_putEntry, if_pos rfl]
    exact rest

theorem putCont {c : Nat} (here : role c = .cont loc) {x : ContEntry}
    (next : x.next = (db.cont c).next) (flags : x.flags = prCont) :
    ListStep db role conts loc (db.putCont c x) role conts free := by
  have entry (b : Nat) (known : role b = .entry) : (db.putCont c x).entry b = db.entry b := by
    rw [entry_putCont, if_neg]
    rintro rfl
    rw [here] at known
    cases known
  refine ⟨roles.putCont here next flags, fun _ => Iff.rfl, fun b known => ⟨known, ?_⟩, fun _ => id, fun _ _ _ => rfl, ?_,
    ?_, ?_, rfl, rfl, rfl, Nat.le_refl _⟩
  · apply update_of_ne
    rintro rfl
    rw [here] at known
    cases known
  · exact fun b _ known => entry b known
  · intro a other d known
    rw [cont_putCont, if_neg]
    rintro rfl
    rw [here] at known
    cases known
    exact other rfl
  · rw [entry loc (roles.owner loc c here)]

theorem trans {db'' : PrDb} {role' role'' : Nat → Role}
    {conts'' : Nat → List Nat} {free' free'' : List Nat}
    (first : ListStep db role conts loc db' role' conts' free')
    (second : ListStep db' role' conts' loc db'' role'' conts'' free'') :
    ListStep db role conts loc db'' role'' conts'' free'' := by
  refine ⟨second.roles, ?_, ?_, fun b known => first.used b (second.used b known), ?_, ?_, ?_, second.rest.trans first.rest, second.nameHash.trans first.nameHash,
    second.idHash.trans first.idHash, second.orphan.trans first.orphan, Nat.le_trans first.eofPtr second.eofPtr⟩
  · exact fun b => (second.live b).trans (first.live b)
  · intro b known
    obtain ⟨still, same⟩ := first.loose b known
    obtain ⟨still', same'⟩ := second.loose b still
    exact ⟨still', same'.trans same⟩
  · exact fun b other known => (second.lists b other ((first.live b).mpr known)).trans (first.lists b other known)
  · exact fun b other known => (second.entry b other ((first.live b).mpr known)).trans (first.entry b other known)
  · intro a other c known
    have owner := roles.owner a c known
    have still : role' c = .cont a := by
      rw [← first.roles.onList a c ((first.live a).mpr owner), first.lists a other owner, roles.onList a c owner]
      exact known
    exact (second.cont a other c still).trans (first.cont a other c known)

theorem append (here : role loc = .entry) {x : ContEntry} (next : x.next = 0)
    (flags : x.flags = prCont) {e : PrEntry} (rest : e.rest = (db.entry loc).rest) (same : e.next = (db.entry loc).next)
    (result : db' = if (conts loc).getLastD 0 ≠ 0 then
      ((db.allocBlock.1.putCont ((conts loc).getLastD 0)
        { db.cont ((conts loc).getLastD 0) with next := db.allocBlock.2 }).putCont db.allocBlock.2 x).putEntry loc e
      else (db.allocBlock.1.putCont db.allocBlock.2 x).putEntry loc { e with next := db.allocBlock.2 }) :
    ∃ role' free', ListStep db role conts loc db' role' (update conts loc (conts loc ++ [db.allocBlock.2])) free' ∧
      db'.cont db.allocBlock.2 = x ∧
      (∀ c ∈ conts loc, (db'.cont c).entries = (db.cont c).entries ∧ (db'.cont c).id = (db.cont c).id) ∧
      (db'.entry loc).entries = e.entries ∧ (db'.entry loc).count = e.count := by
  obtain ⟨free', alloc, unused⟩ := roles.allocBlock
  have block : db.allocBlock.1.block = db.block := by
    unfold PrDb.allocBlock
    split <;> rfl
  have header : db.allocBlock.1.header.nameHash = db.header.nameHash ∧
      db.allocBlock.1.header.idHash = db.header.idHash ∧ db.allocBlock.1.header.orphan = db.header.orphan ∧
      db.header.eofPtr ≤ db.allocBlock.1.header.eofPtr := by
    unfold PrDb.allocBlock
    split
    · exact ⟨rfl, rfl, rfl, Nat.le_refl _⟩
    · exact ⟨rfl, rfl, rfl, Nat.le_add_right _ _⟩
  generalize db.allocBlock.1 = db₁ at *
  generalize db.allocBlock.2 = b at *
  have unlike {c : Nat} {r : Role} (known : role c = r) (used : r ≠ .none ∧ r ≠ .free) : c ≠ b := by
    rintro rfl
    rw [known] at unused
    exact unused.elim used.1 used.2
  have other : loc ≠ b := unlike here (by simp)
  have mine (c : Nat) (inside : c ∈ conts loc) : role c = .cont loc ∧ c ≠ b ∧ c ≠ loc := by
    have known := (roles.onList loc c here).mp inside
    refine ⟨known, unlike known (by simp), ?_⟩
    rintro rfl
    rw [here] at known
    cases known
  have fresh : update role b .loose b = .loose := update_self ..
  have here₁ : update role b .loose loc = .entry := by rw [update_of_ne other, here]
  have eflags : e.flags &&& (prFree ||| prCont) = 0 := by
    have equal : e.flags = (db.entry loc).flags := congrArg (fun d => d.flags) rest
    rw [equal]
    exact (roles.entries loc here).2
  have entry₁ : db₁.entry = db.entry := by
    unfold PrDb.entry
    rw [block]
  have cont₁ : db₁.cont = db.cont := by
    unfold PrDb.cont
    rw [block]
  -- what both cases say about the result
  obtain ⟨header', last, away, conted, links, new, main⟩ :
      db'.header = db₁.header ∧ db'.load (slotAfter Slot.next (.next loc) (conts loc)) = b ∧
      (∀ c, c ≠ loc → c ≠ b → c ∉ conts loc → db'.block c = db.block c) ∧
      (∀ c ∈ conts loc, (db'.cont c).entries = (db.cont c).entries ∧ (db'.cont c).id = (db.cont c).id ∧
        (db'.cont c).flags = prCont) ∧
      (∀ c, c = loc ∨ c ∈ conts loc → Slot.next c ≠ slotAfter Slot.next (.next loc) (conts loc) →
        (db'.entry c).next = (db.entry c).next) ∧
      db'.cont b = x ∧ ∃ n, db'.block loc = .entry { e with next := n } := by
    rcases eq_nil_or_concat' (conts loc) with none | ⟨front, q, split⟩
    · rw [none] at result ⊢
      subst result
      refine ⟨rfl, ?_, ?_, by simp, ?_, ?_, b, ?_⟩
      · rw [slotAfter, if_neg (by simp), load_next, entry_putEntry, if_pos rfl]
      · intro c away notB _
        change update (update db₁.block b _) loc _ c = _
        rw [update_of_ne away, update_of_ne notB, block]
      · intro c known slot
        rcases known with rfl | none
        · exact absurd rfl slot
        · cases none
      · rw [if_neg (by simp), cont_putEntry, if_neg (Ne.symm other), cont_putCont, if_pos rfl]
      · exact update_self ..
    have inside : q ∈ conts loc := by simp [split]
    obtain ⟨known, notB, notLoc⟩ := mine q inside
    have last : (conts loc).getLastD 0 = q := by rw [split, getLastD_concat]
    have nonzero : q ≠ 0 := roles.ne_zero (by simp [known])
    have slot : slotAfter Slot.next (.next loc) (conts loc) = .next q := by rw [split, slotAfter_concat]
    rw [last, if_pos nonzero] at result
    subst result
    rw [slot]
    refine ⟨rfl, ?_, ?_, ?_, ?_, ?_, e.next, ?_⟩
    · rw [load_next, entry_putEntry, if_neg notLoc, entry_putCont, if_neg notB, entry_putCont, if_pos rfl]
    · intro c away notB' out
      have notQ : c ≠ q := by
        rintro rfl
        exact out inside
      change update (update (update db₁.block q _) b _) loc _ c = _
      rw [update_of_ne away, update_of_ne notB', update_of_ne notQ, block]
    · intro c member
      obtain ⟨known', notB', notLoc'⟩ := mine c member
      rw [cont_putEntry, if_neg notLoc', cont_putCont, if_neg notB', cont_putCont]
      split
      · rename_i equal
        subst equal
        exact ⟨rfl, rfl, roles.continued loc c known'⟩
      · rw [cont₁]
        exact ⟨rfl, rfl, roles.continued loc c known'⟩
    · intro c known' notSlot
      have notQ : c ≠ q := fun equal => notSlot (by rw [equal])
      rcases known' with rfl | member
      · rw [entry_putEntry, if_pos rfl]
        exact same
      · obtain ⟨-, notB', notLoc'⟩ := mine c member
        rw [entry_putEntry, if_neg notLoc', entry_putCont, if_neg notB', entry_putCont, if_neg notQ, entry₁]
    · rw [cont_putEntry, if_neg (Ne.symm other), cont_putCont, if_pos rfl]
    · exact update_self ..
  have entry' {c : Nat} (notLoc : c ≠ loc) (notB : c ≠ b) (out : c ∉ conts loc) :
      db'.entry c = db.entry c ∧ db'.cont c = db.cont c ∧ (db'.IsEntry c ↔ db.IsEntry c) := by
    unfold PrDb.entry PrDb.cont PrDb.IsEntry
    rw [away c notLoc notB out]
    exact ⟨rfl, rfl, Iff.rfl⟩
  have out {c : Nat} {r : Role} (known : role c = r) (foreign : r ≠ .cont loc) : c ∉ conts loc := by
    intro inside
    exact foreign (known.symm.trans (mine c inside).1)
  obtain ⟨n, main⟩ := main
  have mainEntry : db'.entry loc = { e with next := n } := by
    unfold PrDb.entry
    rw [main]
  have apart {c : Nat} (notLoc : c ≠ loc) (notConts : c ∉ conts loc) (notB : c ≠ b) :
      (db'.entry c).next = (db₁.entry c).next := by
    rw [(entry' notLoc notB notConts).1, entry₁]
  have grown : Roles db' (update (update role b .loose) b (.cont loc))
      (update conts loc (conts loc ++ [b])) free' := by
    apply alloc.appendCont here₁ fresh (by rw [header']) (by rw [header']) last
    · rw [← cont_next, new]
      exact next
    · intro c notB slot
      by_cases known : c = loc ∨ c ∈ conts loc
      · rw [links c known slot, entry₁]
      · rw [not_or] at known
        exact apart known.1 known.2 notB
    · intro c known
      obtain ⟨notB, used⟩ := (update_role (by simp)).mp known
      by_cases equal : c = loc
      · rw [equal, mainEntry]
        exact ⟨⟨_, main⟩, eflags⟩
      · obtain ⟨entry, -, form⟩ := entry' equal notB (out used (by simp))
        rw [form, entry]
        exact roles.entries c used
    · intro c known
      by_cases notB : c = b
      · rw [notB, new]
        exact flags
      obtain ⟨a, used⟩ := known.resolve_right notB
      rw [update_of_ne notB] at used
      by_cases inside : c ∈ conts loc
      · exact (conted c inside).2.2
      have notLoc : c ≠ loc := by
        rintro rfl
        rw [here] at used
        cases used
      rw [(entry' notLoc notB inside).2.1]
      exact roles.continued a c used
    · intro c known
      obtain ⟨notB, used⟩ := (update_role (by simp)).mp known
      have notLoc : c ≠ loc := by
        rintro rfl
        rw [here] at used
        cases used
      rw [(entry' notLoc notB (out used (by simp))).1]
      exact roles.unused c used
  refine ⟨_, free', ⟨grown, ?_, ?_, ?_, ?_, ?_, ?_, ?_, ?_, ?_, ?_, ?_⟩, new, ?_, ?_, ?_⟩
  · intro c
    by_cases notB : c = b
    · rw [notB, update_self]
      refine iff_of_false (by simp) ?_
      rcases unused with known | known <;> simp [known]
    · rw [update_of_ne notB, update_of_ne notB]
  · intro c known
    have notB := unlike known (by simp)
    have notLoc : c ≠ loc := by
      rintro rfl
      rw [here] at known
      cases known
    rw [update_of_ne notB, update_of_ne notB]
    exact ⟨known, away c notLoc notB (out known (by simp))⟩
  · intro c known
    by_cases notB : c = b
    · rw [notB, update_self] at known
      cases known
    · rwa [update_of_ne notB, update_of_ne notB] at known
  · exact fun c notLoc _ => update_of_ne notLoc ..
  · exact fun c notLoc known => (entry' notLoc (unlike known (by simp)) (out known (by simp))).1
  · intro a notLoc c known
    have apart' : c ≠ loc := by
      rintro rfl
      rw [here] at known
      cases known
    exact (entry' apart' (unlike known (by simp)) (out known (by simpa using notLoc))).2.1
  · rw [mainEntry]
    exact rest
  · rw [header', header.1]
  · rw [header', header.2.1]
  · rw [header', header.2.2.1]
  · rw [header']
    exact header.2.2.2
  · exact fun c inside => ⟨(conted c inside).1, (conted c inside).2.1⟩
  · rw [mainEntry]
  · rw [mainEntry]

end ListStep

theorem set_usable {entries : List Id} {i : Nat} {aid : Id} (usable : Usable entries i) :
    ∃ xs y zs, entries = xs ++ y :: zs ∧ entries.set i aid = xs ++ aid :: zs ∧ 0 ∉ xs ∧ (y = badId ∨ y = 0) := by
  obtain ⟨xs, y, zs, rfl, rfl, inside, free⟩ := usable
  exact ⟨xs, y, zs, rfl, set_append, inside, free⟩

theorem slots_congr {db : PrDb} {conts : Nat → List Nat} {b : Nat}
    (main : (db'.entry b).entries = (db.entry b).entries) (lists : conts' b = conts b)
    (conted : ∀ c ∈ conts b, (db'.cont c).entries = (db.cont c).entries) : db'.slots conts' b = db.slots conts b := by
  unfold PrDb.slots
  rw [main, lists]
  congr 1
  exact map_congr_left conted

theorem ListOK.congr {labels : Prop} {db : PrDb} {conts : Nat → List Nat} {b : Nat} (ok : ListOK labels db conts b)
    (main : (db'.entry b).entries = (db.entry b).entries) (count : (db'.entry b).count = (db.entry b).count)
    (id : (db'.entry b).id = (db.entry b).id) (lists : conts' b = conts b)
    (conted : ∀ c ∈ conts b, (db'.cont c).entries = (db.cont c).entries ∧ (db'.cont c).id = (db.cont c).id) :
    ListOK labels db' conts' b ∧ db'.ids conts' b = db.ids conts b := by
  have slots : db'.slots conts' b = db.slots conts b := slots_congr main lists fun c inside => (conted c inside).1
  have ids : db'.ids conts' b = db.ids conts b := by
    unfold PrDb.ids
    rw [slots]
  refine ⟨⟨?_, ?_, ?_, ?_, ?_, ?_⟩, ids⟩
  · rw [slots]
    exact ok.packed
  · rw [main]
    exact ok.main
  · intro c inside
    rw [lists] at inside
    rw [(conted c inside).1]
    exact ok.sizes c inside
  · rw [ids]
    exact ok.once
  · rw [ids, count]
    exact ok.count
  · intro marked c inside
    rw [lists] at inside
    rw [(conted c inside).2, id]
    exact ok.named marked c inside

def Extends (db : PrDb) (conts : Nat → List Nat) (loc : Nat) (aid : Id) (db' : PrDb) (conts' : Nat → List Nat) : Prop :=
  ∀ {labels : Prop}, ListOK labels db conts loc → aid ≠ badId → aid ≠ 0 →
    aid ∉ db.ids conts loc ∧ ListOK labels db' conts' loc ∧ (db'.ids conts' loc).Perm (aid :: db.ids conts loc)

theorem extends_of_fill {db : PrDb} {conts : Nat → List Nat} {loc : Nat} {aid : Id} {before after : List (List Id)}
    {l : List Id} {i : Nat} (absent : aid ∉ db.ids conts loc) (slots : db.slots conts loc = before ++ l :: after)
    (slots' : db'.slots conts loc = before ++ l.set i aid :: after) (usable : Usable l i)
    (main : (db'.entry loc).entries.length = (db.entry loc).entries.length)
    (sizes : ∀ c ∈ conts loc, (db'.cont c).entries.length = (db.cont c).entries.length)
    (count : (db'.entry loc).count = (db.entry loc).count + 1) (id : (db'.entry loc).id = (db.entry loc).id)
    (named : ∀ c ∈ conts loc, (db'.cont c).id = (db.cont c).id) : Extends db conts loc aid db' conts := by
  intro _ ok alive more
  obtain ⟨xs, y, zs, rfl, set, inside, free⟩ := @set_usable l i aid usable
  have packed := ok.packed
  rw [slots] at packed
  rw [set] at slots'
  obtain ⟨packed', perm⟩ := packed.fill (by decide) inside free alive more
  rw [← slots, ← slots'] at perm
  change (db'.ids conts loc).Perm (aid :: db.ids conts loc) at perm
  refine ⟨absent, ⟨?_, ?_, ?_, ?_, ?_, ?_⟩, perm⟩
  · rw [slots']
    exact packed'
  · rw [main]
    exact ok.main
  · intro c member
    rw [sizes c member]
    exact ok.sizes c member
  · rw [perm.nodup_iff, nodup_cons]
    exact ⟨absent, ok.once⟩
  · rw [count, ok.count, perm.length_eq, length_cons]
    omega
  · intro marked c member
    rw [named c member, id]
    exact ok.named marked c member

theorem mem_ids {db : PrDb} {conts : Nat → List Nat} {b : Nat} {aid : Id} :
    aid ∈ db.ids conts b ↔ aid ∈ listed (db.entry b).entries ∨ ∃ c ∈ conts b, aid ∈ listed (db.cont c).entries := by
  unfold PrDb.ids PrDb.slots Slots.all listed
  simp

theorem addToEntry_step {db : PrDb} {role : Nat → Role} {conts : Nat → List Nat} {free : List Nat} {loc : Nat}
    (roles : Roles db role conts free) (here : role loc = .entry)
    (done : db.addToEntry (db.entry loc) loc aid = .ok db') :
    (db.entry loc).id ≠ aid ∧ ∃ role' conts' free', ListStep db role conts loc db' role' conts' free' ∧
      Extends db conts loc aid db' conts' := by
  obtain ⟨different, done⟩ := ensure_then.mp done
  obtain ⟨slot, first, done⟩ := except_bind_eq_ok.mp done
  obtain ⟨⟨place, last⟩, second, done⟩ := except_bind_eq_ok.mp done
  refine ⟨different, ?_⟩
  have linked := roles.contLists loc here
  obtain ⟨absent, full, usable⟩ := firstSlot_ok first
  obtain ⟨end_, absent', kept, fresh⟩ := slotFrom_ok linked second
  have out : aid ∉ db.ids conts loc := by
    rw [mem_ids]
    rintro (inside | ⟨c, inside, later⟩)
    · exact absent inside
    · exact absent' c inside later
  cases slot with
  | some i =>
    -- a slot of the entry itself
    cases kept (0, i) rfl
    cases done
    refine ⟨role, conts, free, ListStep.putEntry roles here rfl rfl, ?_⟩
    have apart : ∀ c ∈ conts loc, c ≠ loc := by
      rintro c inside rfl
      rw [roles.onList _ _ here, here] at inside
      cases inside
    apply @extends_of_fill _ _ _ _ _ [] _ _ _ out rfl _ (usable i rfl)
    · simp
    · intro c inside
      rw [cont_putEntry, if_neg (apart c inside)]
    · rw [entry_putEntry, if_pos rfl]
    · rw [entry_putEntry, if_pos rfl]
    · intro c inside
      rw [cont_putEntry, if_neg (apart c inside)]
    · unfold PrDb.slots
      rw [entry_putEntry, if_pos rfl]
      congr 1
      apply map_congr_left
      intro c inside
      rw [cont_putEntry, if_neg (apart c inside)]
  | none =>
    rcases fresh rfl with ⟨none, full'⟩ | ⟨c, inside, i, some, usable'⟩
    · -- every slot is in use
      subst none
      obtain ⟨e, isE⟩ : ∃ e : PrEntry, e = { db.entry loc with count := (db.entry loc).count + 1 } := ⟨_, rfl⟩
      obtain ⟨x, isX⟩ : ∃ x : ContEntry,
          x = { flags := prCont, id := (db.entry loc).id, entries := aid :: List.replicate (coSize - 1) 0 } := ⟨_, rfl⟩
      have result : db' = if (conts loc).getLastD 0 ≠ 0 then
          ((db.allocBlock.1.putCont ((conts loc).getLastD 0)
            { db.cont ((conts loc).getLastD 0) with next := db.allocBlock.2 }).putCont db.allocBlock.2 x).putEntry loc e
          else (db.allocBlock.1.putCont db.allocBlock.2 x).putEntry loc { e with next := db.allocBlock.2 } := by
        rw [← end_, ← db.cont_allocBlock, isE, isX]
        rcases alloc : db.allocBlock with ⟨db₁, b⟩
        rw [alloc] at done
        dsimp only at done ⊢
        split at done
        · rename_i more
          cases done
          rw [if_pos more]
        · rename_i first
          cases done
          rw [if_neg first]
      obtain ⟨role', free', step, new, old, main, count⟩ := ListStep.append roles here (x := x) (e := e) (by rw [isX])
        (by rw [isX]) (by rw [isE]; rfl) (by rw [isE]) result
      refine ⟨role', _, free', step, fun ok alive more => ?_⟩
      have lists : update conts loc (conts loc ++ [db.allocBlock.2]) loc = conts loc ++ [db.allocBlock.2] :=
        update_self ..
      have slots : db'.slots (update conts loc (conts loc ++ [db.allocBlock.2])) loc =
          db.slots conts loc ++ [aid :: List.replicate (coSize - 1) 0] := by
        unfold PrDb.slots
        rw [lists, main, map_append, map_singleton, new, cons_append, isE, isX]
        congr 2
        exact map_congr_left fun c inside => (old c inside).1
      have ids : (db'.ids (update conts loc (conts loc ++ [db.allocBlock.2])) loc) = db.ids conts loc ++ [aid] := by
        unfold PrDb.ids Slots.all
        rw [slots, flatMap_append]
        congr 1
        rw [flatMap_singleton, Slots.shown, if_neg alive, if_neg more, Slots.shown_stop]
      have id : (db'.entry loc).id = (db.entry loc).id := congrArg (fun e => e.id) step.rest
      refine ⟨out, ⟨?_, ?_, ?_, ?_, ?_, ?_⟩, ?_⟩
      · rw [slots]
        apply Slots.Packed.append
        · intro m inside
          rcases List.mem_cons.mp inside with rfl | later
          · exact full rfl
          · obtain ⟨c, member, rfl⟩ := List.mem_map.mp later
            exact full' c member
        · exact ⟨[aid], coSize - 1, rfl, by simpa using Ne.symm more⟩
      · rw [main, isE]
        exact ok.main
      · intro c inside
        rw [lists, mem_append, mem_singleton] at inside
        rcases inside with inside | rfl
        · rw [(old c inside).1]
          exact ok.sizes c inside
        · rw [new, isX]
          rfl
      · rw [ids, nodup_append]
        refine ⟨ok.once, nodup_singleton _, ?_⟩
        rintro x inside y member rfl
        rw [List.mem_singleton.mp member] at inside
        exact out inside
      · rw [ids, count, isE, length_append, Int.natCast_add, ← ok.count]
        rfl
      · intro marked c inside
        rw [lists, mem_append, mem_singleton] at inside
        rw [id]
        rcases inside with inside | rfl
        · rw [(old c inside).2]
          exact ok.named marked c inside
        · rw [new, isX]
      · rw [ids]
        exact perm_append_singleton ..
    · -- a slot of a continuation block
      subst some
      have known : role c = .cont loc := (roles.onList loc c here).mp inside
      have other : c ≠ loc := by
        rintro rfl
        rw [here] at known
        cases known
      have nonzero : c ≠ 0 := roles.ne_zero (by simp [known])
      change (if c = 0 then _ else Except.ok _) = _ at done
      rw [if_neg nonzero] at done
      cases done
      have first : ListStep db role conts loc (db.putEntry loc { db.entry loc with count := (db.entry loc).count + 1 }) role
        conts free := ListStep.putEntry roles here rfl rfl
      have second := @ListStep.putCont _ _ _ _ loc first.roles _ known
        (x := { (db.putEntry loc { db.entry loc with count := (db.entry loc).count + 1 }).cont c with
          entries := ((db.putEntry loc { db.entry loc with count := (db.entry loc).count + 1 }).cont c).entries.set i aid })
        rfl (first.roles.continued loc c known)
      refine ⟨role, conts, free, first.trans roles second, ?_⟩
      obtain ⟨before, after, split⟩ := append_of_mem inside
      have once := (roles.contLists loc here).nodup
      rw [split, nodup_append, nodup_cons] at once
      have away (d : Nat) (member : d ∈ conts loc) : d ≠ loc := by
        rintro rfl
        have used := (roles.onList _ _ here).mp member
        rw [here] at used
        cases used
      generalize isFirst : db.putEntry loc { db.entry loc with count := (db.entry loc).count + 1 } = db₁ at *
      have cont₁ (d : Nat) (member : d ∈ conts loc) : db₁.cont d = db.cont d := by
        rw [← isFirst, cont_putEntry, if_neg (away d member)]
      have main : (db₁.putCont c { db₁.cont c with entries := (db₁.cont c).entries.set i aid }).entry loc =
          { db.entry loc with count := (db.entry loc).count + 1 } := by
        rw [entry_putCont, if_neg (Ne.symm other), ← isFirst, entry_putEntry, if_pos rfl]
      have others (d : Nat) (apart : d ≠ c) (member : d ∈ conts loc) :
          (db₁.putCont c { db₁.cont c with entries := (db₁.cont c).entries.set i aid }).cont d = db.cont d := by
        rw [cont_putCont, if_neg apart, cont₁ d member]
      have this : (db₁.putCont c { db₁.cont c with entries := (db₁.cont c).entries.set i aid }).cont c =
          { db.cont c with entries := (db.cont c).entries.set i aid } := by
        rw [cont_putCont, if_pos rfl, cont₁ c inside]
      generalize db₁.putCont c { db₁.cont c with entries := (db₁.cont c).entries.set i aid } = db₂ at *
      have slots : db.slots conts loc = ((db.entry loc).entries :: before.map fun d => (db.cont d).entries) ++
          (db.cont c).entries :: after.map fun d => (db.cont d).entries := by
        unfold PrDb.slots
        rw [split, map_append, map_cons, cons_append]
      apply extends_of_fill out slots _ usable'
      · rw [main]
      · intro d member
        by_cases apart : d = c
        · rw [apart, this, length_set]
        · rw [others d apart member]
      · rw [main]
      · rw [main]
      · intro d member
        by_cases apart : d = c
        · rw [apart, this]
        · rw [others d apart member]
      · have front : (before.map fun d => (db₂.cont d).entries) = before.map fun d => (db.cont d).entries := by
          apply map_congr_left
          intro d member
          rw [others d (once.2.2 d member c mem_cons_self) (by simp [split, member])]
        have back : (after.map fun d => (db₂.cont d).entries) = after.map fun d => (db.cont d).entries := by
          apply map_congr_left
          intro d member
          rw [others d (fun same => once.2.1.1 (same ▸ member)) (by simp [split, member])]
        unfold PrDb.slots
        rw [split, map_append, map_cons, cons_append, front, back, main, this]

end OpenAFS.Ptserver
