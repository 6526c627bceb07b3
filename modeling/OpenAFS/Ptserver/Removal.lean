import OpenAFS.Ptserver.Lists

namespace OpenAFS.Ptserver

open Function (update_self update_of_ne)
open Lib List PrDb

def PrEntry.less (e : PrEntry) : PrEntry := { e with count := e.count - 1 }

def PrDb.shrink (db : PrDb) (loc hloc c : Nat) (entries : List Id) : PrDb :=
  if ∀ x ∈ entries, x = badId ∨ x = 0 then
    if hloc = 0 then (db.freeBlock c).putEntry loc { (db.entry loc).less with next := (db.cont c).next }
    else ((db.putCont hloc { db.cont hloc with next := (db.cont c).next }).freeBlock c).putEntry loc (db.entry loc).less
  else (db.putCont c { db.cont c with entries := entries }).putEntry loc (db.entry loc).less

variable {db db' : PrDb} {aid bid : Id} {loc : Nat} {conts : Nat → List Nat} {role : Nat → Role} {free : List Nat}

theorem removeFrom_ok {fuel hloc : Nat} {a : Slot} {cells : List Nat} (linked : Linked db.load Slot.next a cells)
    (done : db.removeFrom aid bid loc (db.entry loc) fuel hloc (db.load a) = .ok db') :
    ∃ before c after entries, cells = before ++ c :: after ∧ clearIn aid (db.cont c).entries = .found entries ∧
      db' = db.shrink loc (before.getLastD hloc) c entries := by
  induction cells generalizing fuel hloc a with
  | nil =>
    cases fuel with
    | zero => cases done
    | succ fuel =>
      have stop : db.load a = 0 := linked
      rw [PrDb.removeFrom, if_pos stop] at done
      cases done
  | cons c cells ih =>
    cases fuel with
    | zero => cases done
    | succ fuel =>
      rw [PrDb.removeFrom, linked.1, if_neg linked.2.1] at done
      obtain ⟨-, done⟩ := ensure_then.mp done
      cases scan : clearIn aid (db.cont c).entries with
      | found entries =>
        rw [scan] at done
        refine ⟨[], c, cells, entries, rfl, scan, ?_⟩
        unfold PrDb.shrink
        dsimp only at done
        split at done
        · rename_i empty
          rw [if_pos empty]
          split at done
          · rename_i first
            cases done
            rw [getLastD_nil, if_pos first]
            rfl
          rename_i later
          cases done
          rw [getLastD_nil, if_neg later]
          rfl
        · rename_i rest
          cases done
          rw [if_neg rest]
          rfl
      | ended =>
        rw [scan] at done
        cases done
      | passed =>
        rw [scan] at done
        rw [db.cont_next] at done
        obtain ⟨before, d, after, entries, split, found, result⟩ := ih linked.2.2 done
        refine ⟨c :: before, d, after, entries, by rw [split]; rfl, found, ?_⟩
        rw [getLastD_cons]
        exact result

theorem removeFrom_finds {fuel hloc : Nat} {tentry : PrEntry} {a : Slot}
    {cells : List Nat} (linked : Linked db.load Slot.next a cells) (enough : cells.length < fuel)
    (named : ∀ c ∈ cells, (db.cont c).id = bid ∧ (db.cont c).flags = prCont)
    (packed : Slots.Packed 0 (cells.map fun c => (db.cont c).entries))
    (inside : ∃ c ∈ cells, aid ∈ listed (db.cont c).entries) :
    ∃ db', db.removeFrom aid bid loc tentry fuel hloc (db.load a) = .ok db' := by
  induction cells generalizing fuel hloc a with
  | nil =>
    obtain ⟨c, none, -⟩ := inside
    cases none
  | cons c cells ih =>
    rw [length_cons] at enough
    obtain ⟨fuel, rfl⟩ : ∃ m, fuel = m + 1 := ⟨fuel - 1, by omega⟩
    obtain ⟨id, flags⟩ := named c mem_cons_self
    rw [PrDb.removeFrom, linked.1, if_neg linked.2.1]
    simp only [bind, Except.bind]
    rw [ensure, if_pos ⟨id, by rw [flags]; decide⟩]
    cases scan : clearIn aid (db.cont c).entries with
    | found entries =>
      dsimp only
      split
      · split
        · exact ⟨_, rfl⟩
        · exact ⟨_, rfl⟩
      · exact ⟨_, rfl⟩
    | ended =>
      obtain ⟨end_, out⟩ := clearIn_ended scan
      have none : cells.map (fun c => (db.cont c).entries) = [] := @Slots.Packed.last _ 0 [] _ _ packed end_
      obtain ⟨d, member, listed⟩ := inside
      rw [List.map_eq_nil_iff.mp none, mem_singleton] at member
      rw [member] at listed
      exact absurd listed out
    | passed =>
      rw [db.cont_next]
      apply ih linked.2.2 (by omega)
      · exact fun d later => named d (mem_cons_of_mem _ later)
      · exact @Slots.Packed.erase _ 0 [] _ _ packed
      obtain ⟨d, member, listed⟩ := inside
      rcases List.mem_cons.mp member with rfl | later
      · exact absurd (Slots.mem_shown listed).1 (clearIn_passed scan).2
      · exact ⟨d, later, listed⟩

def Shrinks (db : PrDb) (conts : Nat → List Nat) (loc : Nat) (aid : Id) (db' : PrDb) (conts' : Nat → List Nat) : Prop :=
  ∀ {labels : Prop}, ListOK labels db conts loc → aid ≠ badId → aid ≠ 0 →
    ListOK labels db' conts' loc ∧ (db.ids conts loc).Perm (aid :: db'.ids conts' loc)

theorem shrinks_of_slots {conts' : Nat → List Nat}
    (slots : ∀ {labels : Prop}, ListOK labels db conts loc → aid ≠ badId → aid ≠ 0 → Slots.Packed 0 (db'.slots conts' loc) ∧
      (db.ids conts loc).Perm (aid :: db'.ids conts' loc))
    (main : (db'.entry loc).entries.length = (db.entry loc).entries.length)
    (old : ∀ c ∈ conts' loc, c ∈ conts loc ∧ (db'.cont c).entries.length = (db.cont c).entries.length ∧
      (db'.cont c).id = (db.cont c).id)
    (count : (db'.entry loc).count = (db.entry loc).count - 1) (id : (db'.entry loc).id = (db.entry loc).id) :
    Shrinks db conts loc aid db' conts' := by
  intro _ ok alive more
  obtain ⟨packed, perm⟩ := slots ok alive more
  refine ⟨⟨packed, ?_, ?_, ?_, ?_, ?_⟩, perm⟩
  · rw [main]
    exact ok.main
  · intro c inside
    rw [(old c inside).2.1]
    exact ok.sizes c (old c inside).1
  · have once := perm.nodup_iff.mp ok.once
    exact (List.nodup_cons.mp once).2
  · rw [count, ok.count, perm.length_eq, length_cons]
    omega
  · intro marked c inside
    rw [(old c inside).2.2, id]
    exact ok.named marked c (old c inside).1

variable (roles : Roles db role conts free)
include roles

theorem ListStep.release (here : role loc = .entry) {before after : List Nat} {c : Nat}
    (split : conts loc = before ++ c :: after) {e : PrEntry} (rest : e.rest = (db.entry loc).rest)
    (chained : e.next = (db.entry loc).next)
    (result : db' = if before.getLastD 0 = 0 then (db.freeBlock c).putEntry loc { e with next := (db.cont c).next } else
        ((db.putCont (before.getLastD 0)
          { db.cont (before.getLastD 0) with next := (db.cont c).next }).freeBlock c).putEntry loc e) :
    ∃ role' free', ListStep db role conts loc db' role' (Function.update conts loc (before ++ after)) free' ∧
      (∀ d ∈ before ++ after, (db'.cont d).entries = (db.cont d).entries ∧ (db'.cont d).id = (db.cont d).id) ∧
      (db'.entry loc).entries = e.entries ∧ (db'.entry loc).count = e.count := by
  have linked := roles.contLists loc here
  have once := linked.nodup
  rw [split] at once
  have mine (d : Nat) (inside : d ∈ before ++ c :: after) : role d = .cont loc ∧ d ≠ loc := by
    rw [← split] at inside
    have known := (roles.onList loc d here).mp inside
    refine ⟨known, ?_⟩
    rintro rfl
    rw [here] at known
    cases known
  have apart (d : Nat) (inside : d ∈ before ++ after) : d ≠ c := by
    rw [← filter_ne_of_nodup once, mem_filter, decide_eq_true_eq] at inside
    exact inside.2
  obtain ⟨gone, notLoc⟩ := mine c (by simp)
  -- what both cases say about the result
  obtain ⟨header, freed, slot, away, conted, links, n, main⟩ :
      db'.header = { db.header with freePtr := c } ∧
      db'.block c = .entry { next := db.header.freePtr, flags := prFree } ∧
      db'.load (slotAfter Slot.next (.next loc) before) = (db.entry c).next ∧
      (∀ d, d ≠ loc → d ≠ c → d ∉ before → db'.block d = db.block d) ∧
      (∀ d ∈ before, (db'.cont d).entries = (db.cont d).entries ∧ (db'.cont d).id = (db.cont d).id ∧
        (db'.cont d).flags = prCont) ∧
      (∀ d, d = loc ∨ d ∈ before → Slot.next d ≠ slotAfter Slot.next (.next loc) before →
        (db'.entry d).next = (db.entry d).next) ∧
      ∃ n, db'.block loc = .entry { e with next := n } := by
    rcases eq_nil_or_concat' before with rfl | ⟨front, q, rfl⟩
    · rw [getLastD_nil, if_pos rfl] at result
      subst result
      refine ⟨rfl, ?_, ?_, ?_, by simp, ?_, _, update_self ..⟩
      · exact (update_of_ne notLoc ..).trans (update_self ..)
      · rw [slotAfter, load_next, entry_putEntry, if_pos rfl, db.cont_next]
      · intro d away notC _
        exact (update_of_ne away ..).trans (update_of_ne notC ..)
      intro d known other
      rcases known with rfl | none
      · exact absurd rfl other
      · cases none
    have inside : q ∈ front ++ [q] := by simp
    obtain ⟨known, apartQ⟩ := mine q (mem_append_left _ inside)
    have notC : q ≠ c := apart q (mem_append_left _ inside)
    have nonzero : q ≠ 0 := roles.ne_zero (by simp [known])
    rw [getLastD_concat, if_neg nonzero] at result
    subst result
    rw [slotAfter_concat]
    refine ⟨rfl, ?_, ?_, ?_, ?_, ?_, e.next, update_self ..⟩
    · exact (update_of_ne notLoc ..).trans (update_self ..)
    · rw [load_next, entry_putEntry, if_neg apartQ, PrDb.freeBlock, entry_putEntry, if_neg notC,
        entry_header, entry_putCont, if_pos rfl, db.cont_next]
    · intro d away notC' out
      have notQ : d ≠ q := fun same => out (same ▸ inside)
      exact (update_of_ne away ..).trans
        ((update_of_ne notC' ..).trans (update_of_ne notQ ..))
    · intro d member
      obtain ⟨known', away⟩ := mine d (mem_append_left _ member)
      rw [cont_putEntry, if_neg away, PrDb.freeBlock, cont_putEntry,
        if_neg (apart d (mem_append_left _ member)), cont_header, cont_putCont]
      split
      · rename_i same
        subst same
        exact ⟨rfl, rfl, roles.continued loc d known'⟩
      · exact ⟨rfl, rfl, roles.continued loc d known'⟩
    · intro d known' other
      have notQ : d ≠ q := fun same => other (by rw [same])
      rcases known' with rfl | member
      · rw [entry_putEntry, if_pos rfl]
        exact chained
      · obtain ⟨-, away⟩ := mine d (mem_append_left _ member)
        rw [entry_putEntry, if_neg away, PrDb.freeBlock, entry_putEntry,
          if_neg (apart d (mem_append_left _ member)), entry_header, entry_putCont, if_neg notQ]
  have kept {d : Nat} (away' : d ≠ loc) (notC : d ≠ c) (out : d ∉ before) :
      db'.entry d = db.entry d ∧ db'.cont d = db.cont d ∧ (db'.IsEntry d ↔ db.IsEntry d) := by
    unfold PrDb.entry PrDb.cont PrDb.IsEntry
    rw [away d away' notC out]
    exact ⟨rfl, rfl, Iff.rfl⟩
  have unlike {d : Nat} {r : Role} (known : role d = r) (foreign : r ≠ .cont loc) : d ≠ c ∧ d ∉ before := by
    constructor
    · rintro rfl
      exact foreign (known.symm.trans gone)
    · intro inside
      exact foreign (known.symm.trans (mine d (mem_append_left _ inside)).1)
  have mainEntry : db'.entry loc = { e with next := n } := by
    unfold PrDb.entry
    rw [main]
  have freedEntry : db'.entry c = { next := db.header.freePtr, flags := prFree } := by
    unfold PrDb.entry
    rw [freed]
  have notEntry {d e : Nat} (known : role d = .cont e) : d ≠ loc := by
    rintro rfl
    rw [here] at known
    cases known
  refine ⟨_, _, ⟨roles.releaseCont here split ?_ ?_ ?_ slot ?_ ?_ ?_ ?_, ?_, ?_, ?_, ?_, ?_, ?_, ?_, ?_, ?_, ?_, ?_⟩, ?_, ?_, ?_⟩
  · rw [header]
  · rw [header]
  · rw [freedEntry]
  · intro d notC other
    by_cases known : d = loc ∨ d ∈ before
    · exact links d known other
    · rw [not_or] at known
      rw [(kept known.1 notC known.2).1]
  · intro d known
    by_cases same : d = loc
    · rw [same, mainEntry]
      refine ⟨⟨_, main⟩, ?_⟩
      rw [show ({ e with next := n } : PrEntry).flags = (db.entry loc).flags from congrArg (fun d => d.flags) rest]
      exact (roles.entries loc here).2
    · obtain ⟨entry, -, form⟩ := kept same (unlike known (by simp)).1 (unlike known (by simp)).2
      rw [form, entry]
      exact roles.entries d known
  · intro e d known notC
    by_cases inside : d ∈ before
    · exact (conted d inside).2.2
    · rw [(kept (notEntry known) notC inside).2.1]
      exact roles.continued e d known
  · rintro d (known | rfl)
    · have notLoc' : d ≠ loc := by
        rintro rfl
        rw [here] at known
        cases known
      rw [(kept notLoc' (unlike known (by simp)).1 (unlike known (by simp)).2).1]
      exact roles.unused d known
    · rw [freedEntry]
  · intro d
    by_cases same : d = c
    · rw [same, update_self, gone]
      simp
    · rw [update_of_ne same]
  · intro d known
    have other := unlike known (by simp)
    have notLoc' : d ≠ loc := by
      rintro rfl
      rw [here] at known
      cases known
    rw [update_of_ne other.1]
    exact ⟨known, away d notLoc' other.1 other.2⟩
  · exact fun d known => ((update_role (by simp)).mp known).2
  · exact fun d other _ => update_of_ne other ..
  · exact fun d other known => (kept other (unlike known (by simp)).1 (unlike known (by simp)).2).1
  · intro e other d known
    have foreign := unlike known (by simpa using other)
    exact (kept (notEntry known) foreign.1 foreign.2).2.1
  · rw [mainEntry]
    exact rest
  · rw [header]
  · rw [header]
  · rw [header]
  · rw [header]
  · intro d inside
    by_cases early : d ∈ before
    · exact ⟨(conted d early).1, (conted d early).2.1⟩
    have known := mine d (by
      rw [mem_append, mem_cons]
      rcases List.mem_append.mp inside with first | last
      · exact .inl first
      · exact .inr (.inr last))
    rw [(kept known.2 (apart d inside) early).2.1]
    exact ⟨rfl, rfl⟩
  · rw [mainEntry]
  · rw [mainEntry]

theorem shrink_step (here : role loc = .entry) {before after : List Nat} {c : Nat} {entries : List Id}
    (split : conts loc = before ++ c :: after) (found : clearIn aid (db.cont c).entries = .found entries) :
    ∃ role' conts' free', ListStep db role conts loc (db.shrink loc (before.getLastD 0) c entries) role' conts' free' ∧
      Shrinks db conts loc aid (db.shrink loc (before.getLastD 0) c entries) conts' := by
  have once := (roles.contLists loc here).nodup
  rw [split, nodup_append, nodup_cons] at once
  have slots : db.slots conts loc = ((db.entry loc).entries :: before.map fun d => (db.cont d).entries) ++
      (db.cont c).entries :: after.map fun d => (db.cont d).entries := by
    unfold PrDb.slots
    rw [split, map_append, map_cons, cons_append]
  by_cases empty : ∀ x ∈ entries, x = badId ∨ x = 0
  · -- the block goes to the free list
    have result : db.shrink loc (before.getLastD 0) c entries = _ := if_pos empty
    obtain ⟨role', free', step, old, main, count⟩ :=
      ListStep.release roles here split (e := (db.entry loc).less) rfl rfl result
    refine ⟨role', _, free', step, ?_⟩
    generalize db.shrink loc (before.getLastD 0) c entries = db' at *
    have lists : Function.update conts loc (before ++ after) loc = before ++ after := update_self ..
    apply shrinks_of_slots
    · intro _ ok alive more
      refine bury_blocks ok.packed slots found ?_ alive more
      refine .inr ⟨?_, empty⟩
      unfold PrDb.slots
      rw [lists, main, cons_append, ← map_append]
      congr 1
      exact map_congr_left fun d inside => (old d inside).1
    · rw [main]
      rfl
    · intro d inside
      rw [lists] at inside
      refine ⟨?_, congrArg List.length (old d inside).1, (old d inside).2⟩
      rw [split, mem_append, mem_cons]
      rcases List.mem_append.mp inside with first | last
      · exact .inl first
      · exact .inr (.inr last)
    · exact count
    · exact congrArg (fun e => e.id) step.rest
  -- the block is kept
  have inside : c ∈ conts loc := by simp [split]
  have known : role c = .cont loc := (roles.onList loc c here).mp inside
  have away (d : Nat) (member : d ∈ conts loc) : d ≠ loc := by
    rintro rfl
    have used := (roles.onList _ _ here).mp member
    rw [here] at used
    cases used
  have result : db.shrink loc (before.getLastD 0) c entries =
      (db.putCont c { db.cont c with entries := entries }).putEntry loc (db.entry loc).less := if_neg empty
  have first : ListStep db role conts loc (db.putCont c { db.cont c with entries := entries }) role conts free :=
    ListStep.putCont roles known rfl (roles.continued loc c known)
  have same : (db.putCont c { db.cont c with entries := entries }).entry loc = db.entry loc := by
    rw [entry_putCont, if_neg (Ne.symm (away c inside))]
  have second : ListStep (db.putCont c { db.cont c with entries := entries }) role conts loc
      ((db.putCont c { db.cont c with entries := entries }).putEntry loc (db.entry loc).less) role conts free := by
    apply ListStep.putEntry first.roles here
    · rw [same]
      rfl
    · rw [same]
      rfl
  rw [result]
  refine ⟨role, conts, free, first.trans roles second, ?_⟩
  have main : ((db.putCont c { db.cont c with entries := entries }).putEntry loc (db.entry loc).less).entry loc =
      (db.entry loc).less := by
    rw [entry_putEntry, if_pos rfl]
  have this : ((db.putCont c { db.cont c with entries := entries }).putEntry loc (db.entry loc).less).cont c =
      { db.cont c with entries := entries } := by
    rw [cont_putEntry, if_neg (away c inside), cont_putCont, if_pos rfl]
  have others (d : Nat) (apart : d ≠ c) (member : d ∈ conts loc) :
      ((db.putCont c { db.cont c with entries := entries }).putEntry loc (db.entry loc).less).cont d = db.cont d := by
    rw [cont_putEntry, if_neg (away d member), cont_putCont, if_neg apart]
  generalize (db.putCont c { db.cont c with entries := entries }).putEntry loc (db.entry loc).less = db' at *
  apply shrinks_of_slots
  · intro _ ok alive more
    refine bury_blocks ok.packed slots found ?_ alive more
    left
    have front : (before.map fun d => (db'.cont d).entries) = before.map fun d => (db.cont d).entries := by
      apply map_congr_left
      intro d member
      rw [others d (once.2.2 d member c mem_cons_self) (by simp [split, member])]
    have back : (after.map fun d => (db'.cont d).entries) = after.map fun d => (db.cont d).entries := by
      apply map_congr_left
      intro d member
      rw [others d (fun same => once.2.1.1 (same ▸ member)) (by simp [split, member])]
    unfold PrDb.slots
    rw [split, map_append, map_cons, cons_append, front, back, main, this]
    rfl
  · rw [main]
    rfl
  · intro d member
    refine ⟨member, ?_⟩
    by_cases apart : d = c
    · rw [apart, this]
      refine ⟨?_, rfl⟩
      obtain ⟨xs, zs, old, new, -⟩ := clearIn_found found
      rw [old, new, length_append, length_append, length_cons, length_cons]
    · rw [others d apart member]
      exact ⟨rfl, rfl⟩
  · rw [main]
    rfl
  · rw [main]
    rfl

theorem removeFromEntry_step (here : role loc = .entry) (found : db.findByID bid = .ok loc)
    (done : db.removeFromEntry aid bid = .ok db') :
    aid ≠ bid ∧ ∃ role' conts' free', ListStep db role conts loc db' role' conts' free' ∧
      Shrinks db conts loc aid db' conts' := by
  obtain ⟨different, done⟩ := ensure_then.mp done
  obtain ⟨temp, found', done⟩ := except_bind_eq_ok.mp done
  cases found.symm.trans found'
  obtain ⟨-, done⟩ := ensure_then.mp done
  refine ⟨different, ?_⟩
  dsimp only at done
  cases scan : clearIn aid (db.entry loc).entries with
  | found entries =>
    rw [scan] at done
    cases done
    have away (c : Nat) (member : c ∈ conts loc) : c ≠ loc := by
      rintro rfl
      have used := (roles.onList _ _ here).mp member
      rw [here] at used
      cases used
    refine ⟨role, conts, free, ListStep.putEntry roles here rfl rfl, ?_⟩
    apply shrinks_of_slots
    · intro _ ok alive more
      refine @bury_blocks _ _ [] _ _ _ _ ok.packed rfl scan ?_ alive more
      left
      unfold PrDb.slots
      rw [entry_putEntry, if_pos rfl]
      congr 1
      apply map_congr_left
      intro c inside
      rw [cont_putEntry, if_neg (away c inside)]
    · rw [entry_putEntry, if_pos rfl]
      obtain ⟨xs, zs, old, new, -⟩ := clearIn_found scan
      rw [old, new, length_append, length_append, length_cons, length_cons]
    · intro c inside
      rw [cont_putEntry, if_neg (away c inside)]
      exact ⟨inside, rfl, rfl⟩
    · rw [entry_putEntry, if_pos rfl]
    · rw [entry_putEntry, if_pos rfl]
  | ended =>
    rw [scan] at done
    cases done
  | passed =>
    rw [scan] at done
    obtain ⟨before, c, after, entries, split, hit, rfl⟩ := removeFrom_ok (roles.contLists loc here) done
    exact shrink_step roles here split hit

theorem removeFromEntry_finds (here : role loc = .entry) (ok : ListOK True db conts loc)
    (found : db.findByID (db.entry loc).id = .ok loc) (different : aid ≠ (db.entry loc).id)
    (listed : aid ∈ db.ids conts loc) (enough : (conts loc).length < db.fuel) :
    ∃ db', db.removeFromEntry aid (db.entry loc).id = .ok db' := by
  have nonzero : loc ≠ 0 := roles.ne_zero (by simp [here])
  unfold PrDb.removeFromEntry
  simp only [bind, Except.bind, found]
  rw [ensure, if_pos different, ensure, if_pos nonzero]
  cases scan : clearIn aid (db.entry loc).entries with
  | found entries => exact ⟨_, rfl⟩
  | ended =>
    obtain ⟨end_, out⟩ := clearIn_ended scan
    have none : (conts loc).map (fun c => (db.cont c).entries) = [] := @Slots.Packed.last _ 0 [] _ _ ok.packed end_
    rcases mem_ids.mp listed with main | ⟨c, inside, -⟩
    · exact absurd main out
    · rw [List.map_eq_nil_iff.mp none] at inside
      cases inside
  | passed =>
    apply removeFrom_finds (roles.contLists loc here) enough
    · exact fun c inside => ⟨ok.named trivial c inside, roles.continued loc c ((roles.onList loc c here).mp inside)⟩
    · exact @Slots.Packed.erase _ 0 [] _ _ ok.packed
    · rcases mem_ids.mp listed with main | later
      · exact absurd (Slots.mem_shown main).1 (clearIn_passed scan).2
      · exact later

end OpenAFS.Ptserver
