import OpenAFS.Dir.Rebuild
import OpenAFS.Lib.FirstFit

namespace OpenAFS.Dir

open Lib List

structure Filled (d : DirFile) (bins : List Nat) : Prop where
  pgcount : pgcount d = bins.length
  bits : ∀ p < bins.length, ∀ b < epp, bitAt d p b = decide (b < bins.getD p 0)

variable {d : DirFile}

theorem firstFit_front {i n f : Nat} (pos : 1 ≤ n) (bits : ∀ b < epp, bitAt d i b = decide (b < f)) :
    firstFit d i n = if f + n ≤ epp then some f else none := by
  split
  · rename_i fits
    rw [firstFit, find?_range_eq_some]
    refine ⟨?_, List.mem_range.mpr (by omega), fun j early => ?_⟩
    · rw [all_eq_true]
      intro k inside
      rw [bits (f + k) (by have := List.mem_range.mp inside; omega)]
      simp
    rw [Bool.not_eq_true', all_eq_false]
    refine ⟨0, List.mem_range.mpr pos, ?_⟩
    rw [Nat.add_zero, bits j (by omega)]
    simpa using early
  · rename_i full
    rw [firstFit, find?_eq_none]
    intro j inside
    have small := List.mem_range.mp inside
    rw [all_eq_true, not_forall]
    refine ⟨0, fun free => ?_⟩
    have clear := free (List.mem_range.mpr pos)
    rw [Nat.add_zero, bits j (by omega)] at clear
    simp only [Bool.not_eq_true', decide_eq_false_iff_not] at clear
    omega

variable {pages : Nat}

theorem findBlobsFrom_here {junk : Page} {n fuel i f : Nat} {used : Nat → Prop}
    (opened : Space (openPage junk i d) pages used) (inside : i < pages) (check : maxPages ≤ i ∨ n ≤ alloMap d i)
    (pos : 1 ≤ n) (bits : ∀ b < epp, bitAt (openPage junk i d) i b = decide (b < f)) (fits : f + n ≤ epp) :
    findBlobsFrom junk n (fuel + 1) i d = (setBits i f n (changeAlloMap i
      (byteAt (openPage junk i d) (alloMapAt i) - .ofNat n) (openPage junk i d)), some (f + i * epp)) := by
  rw [findBlobsFrom, if_pos check]
  dsimp only
  rw [hasPage_of_length opened.length inside, Bool.not_true, if_neg Bool.false_ne_true, firstFit_front pos bits, if_pos fits]
  rfl

theorem Filled.take {before rest : List Nat} {f n : Nat} {used : Nat → Prop} {byte : UInt8}
    (filled : Filled d (before ++ f :: rest)) (fits : f + n ≤ epp) (pos : 1 ≤ n)
    (taken : Space (setBits before.length f n (changeAlloMap before.length byte d)) (before ++ f :: rest).length used) :
    Filled (setBits before.length f n (changeAlloMap before.length byte d)) (before ++ (f + n) :: rest) := by
  constructor
  · rw [taken.pgcount]
    simp only [length_append, length_cons]
  intro p inside b small
  rw [length_append, length_cons] at inside
  have old := filled.bits p (by rwa [length_append, length_cons]) b small
  rw [bitAt_setBits (by unfold mapBits epp at *; omega) (by unfold mapBits epp at *; omega), bitAt_changeAlloMap small, old]
  rcases Nat.lt_trichotomy p before.length with early | rfl | late
  · have other : ¬ before.length = p := by omega
    rw [getD_append _ _ _ _ early, getD_append _ _ _ _ early]
    simp only [other, false_and, decide_false, Bool.or_false]
  · rw [getD_append_right _ _ _ _ (Nat.le_refl _), getD_append_right _ _ _ _ (Nat.le_refl _), Nat.sub_self]
    simp only [getD_cons_zero, true_and, ← Bool.decide_or, decide_eq_decide]
    omega
  · have other : ¬ before.length = p := by omega
    obtain ⟨k, same⟩ : ∃ k, p - before.length = k + 1 := ⟨p - before.length - 1, by omega⟩
    rw [getD_append_right _ _ _ _ (by omega), getD_append_right _ _ _ _ (by omega), same]
    simp only [getD_cons_succ, other, false_and, decide_false, Bool.or_false]

theorem free_front {i f : Nat} (bits : ∀ b < epp, bitAt d i b = decide (b < f)) (le : f ≤ epp) :
    free d i = epp - f := by
  have split := Nat.count_add (fun b => bitAt d i b = false) f (epp - f)
  have none : Nat.count (fun b => bitAt d i b = false) f = 0 := by
    rw [Nat.count_iff_forall_not]
    intro b early
    rw [bits b (by omega)]
    simpa using early
  have all : Nat.count (fun k => bitAt d i (f + k) = false) (epp - f) = epp - f := by
    rw [Nat.count_iff_forall]
    intro k early
    rw [bits (f + k) (by omega)]
    simp
  have whole : f + (epp - f) = epp := by omega
  rw [whole, none, all, Nat.zero_add] at split
  exact split

theorem findBlobsFrom_filled {junk : Page} {n fuel : Nat} {before rest rest' : List Nat} {d : DirFile} {used : Nat → Prop}
    (space : Space d (before ++ rest).length used) (filled : Filled d (before ++ rest)) (pos : 1 ≤ n) (small : n < epp)
    (left : before.length + fuel = bigMaxPages) (packed : pack epp 1 n fuel rest = some rest') :
    (findBlobsFrom junk n fuel before.length d).2.isSome ∧
      Filled (findBlobsFrom junk n fuel before.length d).1 (before ++ rest') := by
  induction fuel generalizing before rest rest' with
  | zero => cases packed
  | succ fuel ih =>
    cases rest with
    | nil =>
      rw [pack, if_pos (by omega)] at packed
      cases packed
      rw [append_nil] at space filled
      have check : maxPages ≤ before.length ∨ n ≤ alloMap d before.length := by
        by_cases early : before.length < maxPages
        · have map := space.allo before.length early
          rw [if_neg (Nat.lt_irrefl _)] at map
          omega
        · omega
      obtain ⟨grown, -, fresh⟩ := openPage_new space junk (by omega)
      have one : ∀ b < epp, bitAt (openPage junk before.length d) before.length b = decide (b < 1) := by
        intro b inside
        rw [fresh b inside, decide_eq_decide]
        omega
      have length : (before ++ [1]).length = before.length + 1 := length_append
      have opened : Filled (openPage junk before.length d) (before ++ [1]) := by
        refine ⟨by rw [grown.pgcount, length], fun p inside b low => ?_⟩
        rw [length] at inside
        rcases Nat.lt_succ_iff_lt_or_eq.mp inside with early | rfl
        · have old := filled.bits p early b low
          rw [getD_append _ _ _ _ early, ← old, Bool.eq_iff_iff, grown.bits p (by omega) b low, space.bits p early b low]
        · rw [getD_append_right _ _ _ _ (Nat.le_refl _), Nat.sub_self, getD_cons_zero]
          exact one b low
      have clear : ∀ k < n, bitAt (openPage junk before.length d) before.length (1 + k) = false := by
        intro k inside
        rw [one (1 + k) (by omega)]
        simp
      have taken := grown.take (Nat.lt_succ_self _) (by omega : 1 + n ≤ epp) clear
      rw [findBlobsFrom_here grown (Nat.lt_succ_self _) check pos one (by omega)]
      exact ⟨rfl, opened.take (by omega) pos (by rwa [length])⟩
    | cons f rest =>
      have inside : before.length < (before ++ f :: rest).length := by
        rw [length_append, length_cons]
        omega
      have bits : ∀ b < epp, bitAt d before.length b = decide (b < f) := by
        intro b low
        rw [filled.bits _ inside b low, getD_append_right _ _ _ _ (Nat.le_refl _), Nat.sub_self, getD_cons_zero]
      have same := openPage_of_lt space junk inside
      rw [pack] at packed
      split at packed
      · rename_i fits
        cases packed
        have check : maxPages ≤ before.length ∨ n ≤ alloMap d before.length := by
          by_cases early : before.length < maxPages
          · have map := space.allo before.length early
            rw [if_pos inside, free_front bits (by omega)] at map
            omega
          · omega
        have clear : ∀ k < n, bitAt d before.length (f + k) = false := by
          intro k low
          rw [bits (f + k) (by omega)]
          simp
        have taken := space.take inside fits clear
        rw [findBlobsFrom_here (by rwa [same]) inside check pos (by rwa [same]) fits, same]
        exact ⟨rfl, filled.take fits pos taken⟩
      · rename_i full
        obtain ⟨rest'', later, rfl⟩ := Option.map_eq_some_iff.mp packed
        have shift : before ++ f :: rest = before ++ [f] ++ rest := by simp
        have length : (before ++ [f]).length = before.length + 1 := length_append
        have go := @ih (before ++ [f]) rest rest'' (by rwa [← shift]) (by rwa [← shift]) (by omega) later
        rw [length, append_assoc, singleton_append] at go
        rw [findBlobsFrom]
        split
        · dsimp only
          rw [same, hasPage_of_length space.length inside, Bool.not_true, if_neg Bool.false_ne_true,
            firstFit_front pos bits, if_neg full]
          exact go
        · exact go

theorem findBlobs_filled {junk : Page} {n : Nat} {bins bins' : List Nat} {d : DirFile} {used : Nat → Prop}
    (space : Space d bins.length used) (filled : Filled d bins) (pos : 1 ≤ n) (small : n < epp)
    (packed : pack epp 1 n bigMaxPages bins = some bins') :
    (findBlobs junk n d).2.isSome ∧ Filled (findBlobs junk n d).1 bins' := by
  rw [findBlobs, hasPage_of_length space.length space.some, Bool.not_true, if_neg Bool.false_ne_true]
  exact @findBlobsFrom_filled junk n bigMaxPages [] bins bins' d used space filled pos small (Nat.zero_add _) packed

theorem create_map {beyond : Beyond} {junk : Page} {name : Name} {fid : Fid} {d' d₁ : DirFile} {blob x : Nat}
    (absent : Dir.findItem beyond d name.val = some none) (blobs : findBlobs junk (nameBlobs name.val) d = (d₁, some blob))
    (outside : ∀ y, InRun blob (nameBlobs name.val) y → ¬ HeaderBlob y)
    (call : create beyond junk name.val fid d = some (d', .ok)) (map : MapByte x) : byteAt d' x = byteAt d₁ x := by
  have bounds := size_bounds name
  have bucket : dirHash name.val < nHashEnt := dirHash_lt _
  have hash : ¬ HashByte x := fun hash => not_mapByte_of_hash hash map
  have away : x < 32 * blob ∨ 32 * (blob + nameBlobs name.val) ≤ x := by
    by_contra touched
    refine not_mapByte_of_blob (outside (x / 32) ?_) map
    unfold InRun
    omega
  rw [create, if_neg name.property.1, absent, Option.map_some] at call
  simp only [blobs] at call
  split at call
  · cases call
  split at call
  · cases call
  cases call
  rw [byteAt_putShort_of_outside, byteAt_putShort_of_outside, byteAt_putEntry_of_outside away]
  all_goals
    simp only [HashByte, hashTableAt, nHashEnt, nextAt] at *
    omega

theorem Filled.congr {d' : DirFile} {bins : List Nat} (filled : Filled d bins)
    (same : ∀ x, MapByte x → byteAt d' x = byteAt d x) : Filled d' bins := by
  constructor
  · rw [← filled.pgcount]
    apply shortAt_congr
    all_goals
      apply same
      simp only [MapByte, pgcountAt, pageSize]
      omega
  intro p inside b small
  rw [← filled.bits p inside b small]
  apply bitAt_congr
  apply same
  simp only [MapByte, freebitmapAt, pageSize, epp] at *
  omega

theorem Filled.create {d : DirFile} {pages : Nat} {es : List Entry} {bins bins' : List Nat} {name : Name} (filled : Filled d bins)
    (valid : Valid d pages es) (fresh : ∀ e ∈ es, e.name ≠ name)
    (packed : pack epp 1 (nameBlobs name.val) bigMaxPages bins = some bins') (beyond : Beyond) (junk : Page) (fid : Fid) :
    ∃ d' pages' blob, create beyond junk name.val fid d = some (d', .ok) ∧ Valid d' pages' (⟨blob, name, fid⟩ :: es) ∧
      Filled d' bins' := by
  have bounds := size_bounds name
  have absent : Dir.findItem beyond d name.val = some none := by
    rcases valid.findItem name beyond with ⟨absent, -⟩ | ⟨e, inside, same, -⟩
    · exact absent
    · exact absurd same (fresh e inside)
  have count : pages = bins.length := by rw [← valid.space.pgcount, filled.pgcount]
  have space := valid.space
  rw [count] at space
  obtain ⟨place, taken⟩ := @findBlobs_filled junk _ _ _ _ _ space filled bounds.1 (by unfold epp; omega) packed
  obtain ⟨d', pages', es', code, call, valid', made⟩ := valid.create junk fid absent fresh
  cases made with
  | full none =>
    rw [none] at place
    cases place
  | ok blob found =>
    refine ⟨d', pages', blob, call, valid', taken.congr fun x map => ?_⟩
    refine create_map absent (Prod.ext rfl found) (fun y inside => ?_) call map
    exact (valid'.space.within y ⟨⟨blob, name, fid⟩, mem_cons_self, inside⟩).2

theorem makeDir_filled (beyond : Beyond) (junk : Page) (me parent : Fid) (old : DirFile) :
    ∃ d pages, makeDir beyond junk me parent old = some d ∧
      Valid d pages [⟨14, dotdotName, parent⟩, ⟨13, dotName, me⟩] ∧ Filled d [15] := by
  have empty : Filled (emptyDir junk old) [13] := by
    refine ⟨(valid_emptyDir junk old).space.pgcount, fun p inside b small => ?_⟩
    rw [Nat.lt_one_iff.mp inside]
    exact bitAt_emptyDir junk old small
  obtain ⟨d, pages, blob, first, valid, filled⟩ := @Filled.create _ _ _ _ _ dotName empty (valid_emptyDir junk old) nofun rfl
    beyond junk me
  have names : dotName ≠ dotdotName := by decide
  obtain ⟨d', pages', blob', second, -, filled'⟩ := @Filled.create _ _ _ _ _ dotdotName filled valid
    (fun e inside => by rw [List.mem_singleton.mp inside]; exact names) rfl beyond junk parent
  obtain ⟨made, pages'', makes, valid''⟩ := makeDir_valid beyond junk me parent old
  have firstCall : create beyond junk dot me (emptyDir junk old) = some (d, .ok) := first
  have secondCall : create beyond junk dotdot parent d = some (d', .ok) := second
  have same : makeDir beyond junk me parent old = some d' := by
    rw [makeDir, firstCall, Option.bind_some, secondCall]
    rfl
  rw [makes] at same
  cases same
  exact ⟨_, _, makes, valid'', filled'⟩

def nameOf (beyond : Beyond) (d : DirFile) (b : Nat) : List UInt8 := cString beyond d (nameAt b)

def copies (beyond : Beyond) (d : DirFile) (cells : List Nat) : List Nat :=
  cells.filter fun b => nameOf beyond d b ≠ dot ∧ nameOf beyond d b ≠ dotdot

/-- Behind the two dots first fit finds room for the blobs of all other entries. -/
def LeavesRoom (beyond : Beyond) (d : DirFile) : Prop :=
  (packAll epp 1 bigMaxPages ((copies beyond d (reachable d)).map (blobsOf beyond d)) [15]).isSome

def Distinct (beyond : Beyond) (d : DirFile) : Prop := ((reachable d).map (nameOf beyond d)).Nodup

theorem packAll_append {capacity fresh limit : Nat} {first second bins bins' : List Nat} :
    packAll capacity fresh limit (first ++ second) bins = some bins' ↔
      ∃ middle, packAll capacity fresh limit first bins = some middle ∧
        packAll capacity fresh limit second middle = some bins' := by
  rw [packAll, foldlM_append]
  exact Option.bind_eq_some_iff

def reportAt (beyond : Beyond) (d : DirFile) (b : Nat) : Report := ⟨nameOf beyond d b, fidAt d b⟩

def Added (beyond : Beyond) (d : DirFile) (cells : List Nat) (new : List Entry) : Prop :=
  new.map Entry.report = ((copies beyond d cells).map (reportAt beyond d)).reverse

def Target (d : DirFile) (es : List Entry) (bins : List Nat) : Prop := (∃ pages, Valid d pages es) ∧ Filled d bins

theorem CellOK.passes {beyond : Beyond} {d : DirFile} {i pages b : Nat} (cell : CellOK beyond d i (pages * epp) b)
    (some : b ≠ 0) : Passes d pages b := ⟨some, cell.below, cell.there⟩

theorem CellOK.tname {s : Salvaging} {d : DirFile} {i maxents b : Nat} (cell : CellOK s.beyondFrom d i maxents b) :
    tname s d b = nameOf s.beyondFrom d b := by
  rw [Dir.tname, nameOf, take_of_length_le]
  exact Nat.le_of_lt_succ cell.short

theorem salvageChain_target {s : Salvaging} {d : DirFile} {pages i fuel a : Nat} {cells bins bins' : List Nat}
    {es : List Entry} {target : DirFile} (linked : Linked (shortAt d) nextAt a cells)
    (good : ∀ b ∈ cells, CellOK s.beyondFrom d i (pages * epp) b) (enough : cells.length < fuel)
    (once : ((copies s.beyondFrom d cells).map (nameOf s.beyondFrom d)).Nodup)
    (fresh : ∀ b ∈ copies s.beyondFrom d cells, ∀ e ∈ es, e.name.val ≠ nameOf s.beyondFrom d b)
    (packed : packAll epp 1 bigMaxPages ((copies s.beyondFrom d cells).map (blobsOf s.beyondFrom d)) bins = some bins')
    (old : Target target es bins) : ∃ target' new, salvageChain s d pages i fuel (shortAt d a) target = some target' ∧
      Added s.beyondFrom d cells new ∧ Target target' (new ++ es) bins' := by
  induction cells generalizing fuel a bins es target with
  | nil =>
    obtain ⟨fuel, rfl⟩ : ∃ k, fuel = k + 1 := ⟨fuel - 1, by omega⟩
    have stop : shortAt d a = 0 := linked
    cases packed
    refine ⟨target, [], ?_, rfl, old⟩
    rw [stop]
    exact salvageChain_stops (.nothing fun passes => passes.some rfl)
  | cons b cells ih =>
    obtain ⟨here, some, later⟩ := linked
    rw [length_cons] at enough
    obtain ⟨fuel, rfl⟩ : ∃ k, fuel = k + 1 := ⟨fuel - 1, by omega⟩
    have cell := good b mem_cons_self
    have passes := cell.passes some
    have good' := fun c inside => good c (mem_cons_of_mem _ inside)
    rw [here]
    by_cases named : nameOf s.beyondFrom d b ≠ dot ∧ nameOf s.beyondFrom d b ≠ dotdot
    · have split : copies s.beyondFrom d (b :: cells) = b :: copies s.beyondFrom d cells := by
        rw [copies, filter_cons_of_pos (by simpa using named)]
        rfl
      rw [split, map_cons] at once packed
      rw [split] at fresh
      obtain ⟨new, rest⟩ := List.nodup_cons.mp once
      obtain ⟨middle, first, packed⟩ := Option.bind_eq_some_iff.mp packed
      obtain ⟨⟨pages', valid⟩, filled⟩ := old
      let name : Name := ⟨Dir.tname s d b, by rw [cell.tname]; exact cell.named, tname_length s d b, zero_not_mem_tname s d b⟩
      have size : blobsOf s.beyondFrom d b = nameBlobs name.val := by
        change _ = nameBlobs (Dir.tname s d b)
        rw [cell.tname]
        rfl
      rw [size] at first
      obtain ⟨target', pages'', blob, call, valid', filled'⟩ := @Filled.create _ _ _ _ _ name filled valid
        (fun e inside same => fresh b mem_cons_self e inside ((congrArg Subtype.val same).trans cell.tname))
        first s.beyondTo (s.junk i b) (fidAt d b)
      have undotted : ¬ IsDots s d b := by
        rw [IsDots, cell.tname, not_or]
        exact named
      have turn : Turn s d pages i b target target' := .created passes undotted call
      rw [salvageChain_turn turn]
      obtain ⟨last, more, walked, added, after⟩ := @ih fuel (nextAt b) middle (⟨blob, name, fidAt d b⟩ :: es) target' later
        good' (by omega) rest (fun c inside e known => by
          rcases List.mem_cons.mp known with rfl | known
          · intro same
            apply new
            change Dir.tname s d b = _ at same
            rw [← cell.tname, same]
            exact mem_map_of_mem inside
          · exact fresh c (mem_cons_of_mem _ inside) e known) packed ⟨⟨pages'', valid'⟩, filled'⟩
      refine ⟨last, more ++ [⟨blob, name, fidAt d b⟩], walked, ?_, ?_⟩
      · rw [Added, map_append, added, split, map_cons, map_nil, map_cons, reverse_cons]
        simp only [Entry.report, reportAt, ← cell.tname, name]
      · rwa [append_assoc, singleton_append]
    · have split : copies s.beyondFrom d (b :: cells) = copies s.beyondFrom d cells := by
        rw [copies, filter_cons_of_neg (by simpa using named)]
        rfl
      have dotted : IsDots s d b := by
        rw [IsDots, cell.tname]
        by_contra neither
        exact named (not_or.mp neither)
      rw [split] at once packed fresh
      rw [salvageChain_turn (.dots passes dotted)]
      obtain ⟨last, more, walked, added, after⟩ := @ih fuel (nextAt b) bins es target later good' (by omega) once fresh packed old
      refine ⟨last, more, walked, ?_, after⟩
      rw [Added, split]
      exact added

theorem copies_append (beyond : Beyond) (d : DirFile) (first second : List Nat) :
    copies beyond d (first ++ second) = copies beyond d first ++ copies beyond d second := filter_append ..

variable {cellsOf : Nat → List Nat}

theorem salvageChains_target {s : Salvaging} {made : DirFile} {n : Nat} {bins bins' : List Nat}
    {es : List Entry} (checked : Checked s.beyondFrom d (computeUsedPages d) cellsOf) (within : n ≤ nHashEnt)
    (once : ((copies s.beyondFrom d ((List.range n).flatMap cellsOf)).map (nameOf s.beyondFrom d)).Nodup)
    (fresh : ∀ b ∈ copies s.beyondFrom d ((List.range n).flatMap cellsOf), ∀ e ∈ es, e.name.val ≠ nameOf s.beyondFrom d b)
    (packed : packAll epp 1 bigMaxPages
      ((copies s.beyondFrom d ((List.range n).flatMap cellsOf)).map (blobsOf s.beyondFrom d)) bins = some bins')
    (old : Target made es bins) : ∃ target new, salvageChains s d 65536 n made = some target ∧
      Added s.beyondFrom d ((List.range n).flatMap cellsOf) new ∧ Target target (new ++ es) bins' := by
  induction n generalizing bins' with
  | zero =>
    cases packed
    exact ⟨made, [], rfl, rfl, old⟩
  | succ n ih =>
    rw [range_succ, flatMap_append, flatMap_singleton, copies_append] at *
    rw [map_append] at once packed
    obtain ⟨middle, first, last⟩ := packAll_append.mp packed
    obtain ⟨onceFirst, onceLast, apart⟩ := List.nodup_append.mp once
    obtain ⟨target, new, walked, added, between⟩ := ih (by omega) onceFirst
      (fun b inside => fresh b (mem_append_left _ inside)) first
    have linked := checked.chains n within
    have fresh' : ∀ b ∈ copies s.beyondFrom d (cellsOf n), ∀ e ∈ new ++ es, e.name.val ≠ nameOf s.beyondFrom d b := by
      intro b inside e known
      rcases List.mem_append.mp known with recent | before
      · have listed := mem_map_of_mem (f := Entry.report) recent
        rw [added, mem_reverse] at listed
        obtain ⟨c, member, same⟩ := List.mem_map.mp listed
        rw [show e.name.val = nameOf s.beyondFrom d c from (congrArg Report.name same).symm]
        exact apart _ (mem_map_of_mem member) _ (mem_map_of_mem inside)
      · exact fresh b (mem_append_right _ inside) e before
    obtain ⟨target', more, walked', added', after⟩ := salvageChain_target linked (checked.cells n within)
      (length_chain_lt linked) onceLast fresh' last between
    refine ⟨target', more ++ new, ?_, ?_, ?_⟩
    · rw [salvageChains_succ, walked, Option.bind_some, walked']
    · rw [Added, map_append, added', added, copies_append, map_append, reverse_append]
    · rwa [append_assoc]

theorem find?_map_eq_some {α β : Type} {p : α → Bool} {f : α → β} {l : List α} {v : β}
    (only : ∀ a ∈ l, ∀ b ∈ l, p a = true → p b = true → a = b) :
    (l.find? p).map f = some v ↔ ∃ a ∈ l, p a = true ∧ f a = v := by
  rw [Option.map_eq_some_iff]
  constructor
  · rintro ⟨a, found, rfl⟩
    exact ⟨a, mem_of_find?_eq_some found, find?_some found, rfl⟩
  rintro ⟨a, inside, here, rfl⟩
  obtain ⟨b, found⟩ := Option.isSome_iff_exists.mp (List.find?_isSome.mpr ⟨a, inside, here⟩)
  refine ⟨b, found, congrArg f ?_⟩
  exact only b (mem_of_find?_eq_some found) a inside (find?_some found) here

theorem Checked.lookup_iff {beyond : Beyond}
    (checked : Checked beyond d pages cellsOf) (distinct : Distinct beyond d) (name : List UInt8) (fid : Fid) :
    Dir.lookup beyond name d = some (some fid) ↔ ∃ b ∈ reachable d, reportAt beyond d b = ⟨name, fid⟩ := by
  have member : ∀ b, b ∈ cellsOf (dirHash name) → b ∈ reachable d := fun b inside =>
    checked.mem_reachable.mpr ⟨_, dirHash_lt _, inside⟩
  rw [checked.lookup, Option.some_inj, find?_map_eq_some]
  · constructor
    · rintro ⟨b, inside, here, rfl⟩
      refine ⟨b, member b inside, ?_⟩
      rw [reportAt, nameOf, ← of_decide_eq_true here]
    rintro ⟨b, inside, same⟩
    cases same
    obtain ⟨i, small, known⟩ := checked.mem_reachable.mp inside
    have bucket := (checked.cells i small b known).bucket
    exact ⟨b, by rwa [nameOf, bucket], decide_eq_true rfl, rfl⟩
  · intro a inside b inside' here there
    refine inj_on_of_nodup_map distinct (member a inside) (member b inside') ?_
    exact (of_decide_eq_true here).symm.trans (of_decide_eq_true there)

theorem Valid.lookup_find {es : List Entry} (valid : Valid d pages es) (beyond : Beyond)
    (name : List UInt8) : Dir.lookup beyond name d =
      some (((chainOf es (dirHash name)).find? fun c => name = Dir.cString beyond d (nameAt c)).map (fidAt d)) := by
  apply lookup_eq (valid.threads.chains _ (dirHash_lt name)) (hasPage_of_length valid.space.length valid.space.some)
  intro c inside
  obtain ⟨e, known, -, rfl⟩ := mem_chainOf.mp inside
  apply hasPage_of_length valid.space.length
  have low := (valid.blob known (covers_blob e)).1
  unfold epp at *
  omega

theorem Valid.lookup_iff {es : List Entry} (valid : Valid d pages es) (beyond : Beyond)
    (name : List UInt8) (fid : Fid) :
    Dir.lookup beyond name d = some (some fid) ↔ ∃ e ∈ es, e.report = ⟨name, fid⟩ := by
  rw [valid.lookup_find, Option.some_inj, find?_map_eq_some]
  · constructor
    · rintro ⟨b, inside, here, rfl⟩
      obtain ⟨e, known, -, rfl⟩ := mem_chainOf.mp inside
      refine ⟨e, known, ?_⟩
      rw [Entry.report, (valid.threads.holds e known).fid, of_decide_eq_true here, valid.cString known]
    rintro ⟨e, known, same⟩
    cases same
    refine ⟨e.blob, mem_chainOf.mpr ⟨e, known, rfl, rfl⟩, ?_, (valid.threads.holds e known).fid⟩
    rw [valid.cString known]
    exact decide_eq_true rfl
  · intro a inside b inside' here there
    obtain ⟨e, known, -, rfl⟩ := mem_chainOf.mp inside
    obtain ⟨f, known', -, rfl⟩ := mem_chainOf.mp inside'
    rw [valid.cString known] at here
    rw [valid.cString known'] at there
    have same : e.name = f.name := Subtype.ext ((of_decide_eq_true here).symm.trans (of_decide_eq_true there))
    rw [valid.threads.alone known known' same.symm]

theorem lookup_copied {s : Salvaging} {target : DirFile} {pages' : Nat} {new : List Entry}
    (checked : Checked s.beyondFrom d pages cellsOf) (distinct : Distinct s.beyondFrom d)
    (added : Added s.beyondFrom d (reachable d) new)
    (valid : Valid target pages' (new ++ [⟨14, dotdotName, s.parent⟩, ⟨13, dotName, s.me⟩])) (beyond : Beyond)
    (name : List UInt8) : Dir.lookup beyond name target =
      if name = dot then some (some s.me) else if name = dotdot then some (some s.parent)
      else Dir.lookup s.beyondFrom name d := by
  have listed : ∀ report, (∃ e ∈ new, e.report = report) ↔
      ∃ b ∈ reachable d, (report.name ≠ dot ∧ report.name ≠ dotdot) ∧ reportAt s.beyondFrom d b = report := by
    intro report
    rw [← mem_map, added, mem_reverse, mem_map]
    simp only [copies, mem_filter, decide_eq_true_eq]
    constructor
    · rintro ⟨b, ⟨inside, named⟩, rfl⟩
      exact ⟨b, inside, named, rfl⟩
    · rintro ⟨b, inside, named, rfl⟩
      exact ⟨b, ⟨inside, named⟩, rfl⟩
  have found : ∀ fid, Dir.lookup beyond name target = some (some fid) ↔ (name = dot ∧ fid = s.me) ∨
      (name = dotdot ∧ fid = s.parent) ∨ (name ≠ dot ∧ name ≠ dotdot) ∧ Dir.lookup s.beyondFrom name d = some (some fid) := by
    intro fid
    rw [valid.lookup_iff, checked.lookup_iff distinct]
    constructor
    · rintro ⟨e, inside, same⟩
      rcases List.mem_append.mp inside with copied | old
      · obtain ⟨b, member, named, here⟩ := (listed _).mp ⟨e, copied, same⟩
        exact .inr (.inr ⟨named, b, member, here⟩)
      rcases List.mem_cons.mp old with rfl | last
      · cases same
        exact .inr (.inl ⟨rfl, rfl⟩)
      · cases List.mem_singleton.mp last
        cases same
        exact .inl ⟨rfl, rfl⟩
    · rintro (⟨rfl, rfl⟩ | ⟨rfl, rfl⟩ | ⟨named, b, member, here⟩)
      · exact ⟨_, mem_append_right _ (mem_cons_of_mem _ mem_cons_self), rfl⟩
      · exact ⟨_, mem_append_right _ mem_cons_self, rfl⟩
      · obtain ⟨e, copied, same⟩ := (listed ⟨name, fid⟩).mpr ⟨b, member, named, here⟩
        exact ⟨e, mem_append_left _ copied, same⟩
  split
  · rename_i here
    exact (found s.me).mpr (.inl ⟨here, rfl⟩)
  rename_i undotted
  split
  · rename_i up
    exact (found s.parent).mpr (.inr (.inl ⟨up, rfl⟩))
  rename_i undotdotted
  simp only [undotted, undotdotted, false_and, false_or, ne_eq, not_false_eq_true, true_and] at found
  rw [valid.lookup_find, checked.lookup] at *
  simp only [Option.some_inj] at found ⊢
  exact Option.ext found

/-- `DirSalvage` of a directory that `DirOK` accepts, with distinct names that first fit has room for. -/
theorem dirSalvage_preserves {s : Salvaging} {d : DirFile} (ok : dirOK s.beyondFrom d = .ok ())
    (distinct : Distinct s.beyondFrom d) (room : LeavesRoom s.beyondFrom d) (old : DirFile) :
    ∃ target, (∃ fuel, dirSalvage s d fuel old = some (target, .ok)) ∧ ∀ beyond, dirOK beyond target = .ok () ∧
      ∀ name, lookup beyond name target = if name = dot then some (some s.me)
        else if name = dotdot then some (some s.parent) else lookup s.beyondFrom name d := by
  obtain ⟨cellsOf, checked⟩ := checked_of_dirOK ok
  have all := reachable_eq checked.chains
  obtain ⟨bins, packed⟩ := Option.isSome_iff_exists.mp room
  obtain ⟨made, pages, makes, valid, filled⟩ := makeDir_filled s.beyondTo s.junkMade s.me s.parent old
  have fresh : ∀ b ∈ copies s.beyondFrom d (reachable d), ∀ e ∈ [(⟨14, dotdotName, s.parent⟩ : Entry), ⟨13, dotName, s.me⟩],
      e.name.val ≠ nameOf s.beyondFrom d b := by
    intro b inside e known
    have named := of_decide_eq_true (List.mem_filter.mp inside).2
    rcases List.mem_cons.mp known with rfl | last
    · exact named.2.symm
    · cases List.mem_singleton.mp last
      exact named.1.symm
  have once : ((copies s.beyondFrom d (reachable d)).map (nameOf s.beyondFrom d)).Nodup :=
    distinct.sublist (List.filter_sublist.map _)
  rw [all] at packed once fresh
  obtain ⟨target, new, walked, added, ⟨pages', after⟩, -⟩ := salvageChains_target checked (Nat.le_refl _) once fresh
    packed ⟨⟨pages, valid⟩, filled⟩
  rw [← all] at added
  refine ⟨target, ⟨65536, ?_⟩, fun beyond => ⟨?_, fun name => lookup_copied checked distinct added after beyond name⟩⟩
  · rw [dirSalvage, makes, Option.bind_some, checked.there 0 checked.nonempty, Bool.not_true, if_neg Bool.false_ne_true]
    exact Option.map_eq_some_iff.mpr ⟨target, walked, rfl⟩
  · exact after.dirOK beyond (mem_append_right _ (mem_cons_of_mem _ mem_cons_self))
      (mem_append_right _ mem_cons_self)

def oneFile : DirFile := [ [0, 1, 4, 210, 48, 0xff, 0xff], zeros 25, [48], List.replicate 127 64,
    zeros 92, [0, 13], zeros 42, [0, 14], zeros 58, [0, 15], zeros 58,
    [1, 0, 0, 0, 0, 0, 0, 1, 0, 0, 0, 1, 46], zeros 19,
    [1, 0, 0, 0, 0, 0, 0, 1, 0, 0, 0, 1, 46, 46], zeros 18,
    [1, 0, 0, 0, 0, 0, 0, 2, 0, 0, 0, 7, 98], zeros (pageSize - 493)
  ].flatten

def oneFileSalvaging : Salvaging := ⟨fun _ => [], fun _ => [], blankPage, fun _ _ => blankPage, ⟨3, 5⟩, ⟨1, 1⟩⟩

theorem dirSalvage_preserves_oneFile : ∃ target, (∃ fuel, dirSalvage oneFileSalvaging oneFile fuel [] = some (target, .ok)) ∧
    ∀ beyond, dirOK beyond target = .ok () ∧ ∀ name, lookup beyond name target = if name = dot then some (some ⟨3, 5⟩)
      else if name = dotdot then some (some ⟨1, 1⟩) else lookup (fun _ => []) name oneFile := by
  have cells : reachable oneFile = [13, 14, 15] := by decide +kernel
  refine @dirSalvage_preserves oneFileSalvaging oneFile (by decide +kernel) ?_ ?_ []
  · rw [Distinct, cells]
    decide +kernel
  · rw [LeavesRoom, cells]
    decide +kernel

end OpenAFS.Dir
