import OpenAFS.Dir.Salvage

namespace OpenAFS.Dir

open Lib List

theorem require_eq_ok {c : Prop} [Decidable c] : require c = .ok () ↔ c := by
  unfold require
  split <;> simp [*]

theorem require_then {c : Prop} [Decidable c] {α : Type} {rest : Unit → Except Stop α} {a : α} :
    (require c).bind rest = .ok a ↔ c ∧ rest () = .ok a := by
  rw [except_bind_eq_ok]
  constructor
  · rintro ⟨⟨⟩, here, later⟩
    exact ⟨require_eq_ok.mp here, later⟩
  · rintro ⟨here, later⟩
    exact ⟨(), require_eq_ok.mpr here, later⟩

def eaBit (eaMap : List UInt8) (x : Nat) : Bool := (byteAt eaMap (x / 8)).toBitVec.getLsbD (x % 8)

theorem eaBit_initEaMap {usedPages x : Nat} (room : x < 8 * eaSize) :
    eaBit (initEaMap usedPages) x = true ↔ x < epp * usedPages ∧ HeaderBlob x := by
  have byte : byteAt (initEaMap usedPages) (x / 8) = if x / 8 < usedPages * (epp / 8) then
      if x / 8 = 0 then 0xff else if x / 8 = 1 then 0x1f else if x / 8 % 8 = 0 then 1 else 0 else 0 := by
    rw [initEaMap, byteAt, getD_eq_getElem _ _ (by rw [length_map, length_range]; omega), getElem_map, getElem_range]
  have all : ∀ c < 8, (0xff : UInt8).toBitVec.getLsbD c = true := by decide
  have low : ∀ c < 8, (0x1f : UInt8).toBitVec.getLsbD c = true ↔ c < 5 := by decide
  have one : ∀ c < 8, (1 : UInt8).toBitVec.getLsbD c = true ↔ c = 0 := by decide
  have none : ∀ c < 8, (0 : UInt8).toBitVec.getLsbD c = false := by decide
  have bit := Nat.mod_lt x (by decide : 0 < 8)
  rw [eaBit, byte]
  unfold HeaderBlob epp dhe
  split
  · split
    · simp only [all _ bit, true_iff]
      omega
    split
    · rw [low _ bit]
      omega
    split
    · rw [one _ bit]
      omega
    · simp only [none _ bit, Bool.false_eq_true, false_iff]
      omega
  · simp only [none _ bit, Bool.false_eq_true, false_iff]
    omega

variable {eaMap eaMap' : List UInt8} {b i maxents fuel pages : Nat} {beyond : Beyond} {d : DirFile} {w w' : Walk}
  {es : List Entry}

theorem eaBit_markBlob (marked : markBlob eaMap b = .ok eaMap') (x : Nat) :
    b < 8 * eaSize ∧ eaBit eaMap' x = (eaBit eaMap x || decide (b = x)) := by
  unfold markBlob at marked
  split at marked
  · rename_i room
    cases marked
    refine ⟨by omega, ?_⟩
    rw [eaBit, byteAt_pwrite]
    by_cases here : b / 8 = x / 8
    · rw [if_pos (by simp [here]), here, Nat.sub_self]
      change (byteAt eaMap (x / 8) ||| bitMask b).toBitVec.getLsbD (x % 8) = _
      rw [bit_or_mask, eaBit]
      congr 1
      simp only [decide_eq_decide]
      omega
    · have other : b ≠ x := by
        rintro rfl
        exact here rfl
      rw [if_neg (by simp only [length_singleton]; omega), eaBit]
      simp [other]
  · cases marked

theorem markRun_succ {entry k : Nat} : markRun entry (k + 1) eaMap = .ok eaMap' ↔
      ∃ middle, markRun entry k eaMap = .ok middle ∧ markBlob middle (entry + k) = .ok eaMap' := by
  unfold markRun
  rw [range_succ, foldlM_append]
  refine except_bind_eq_ok.trans (exists_congr fun middle => and_congr_right fun _ => ?_)
  refine except_bind_eq_ok.trans ?_
  constructor
  · rintro ⟨last, here, ⟨⟩⟩
    exact here
  · exact fun here => ⟨eaMap', here, rfl⟩

theorem eaBit_markRun {entry k : Nat} (marked : markRun entry k eaMap = .ok eaMap')
    (x : Nat) : (k = 0 ∨ entry + k ≤ 8 * eaSize) ∧ (eaBit eaMap' x = true ↔ eaBit eaMap x = true ∨ InRun entry k x) := by
  induction k generalizing eaMap' with
  | zero =>
    cases marked
    have none : ¬ InRun entry 0 x := by
      unfold InRun
      omega
    simp [none]
  | succ k ih =>
    obtain ⟨middle, earlier, last⟩ := markRun_succ.mp marked
    obtain ⟨room, bit⟩ := eaBit_markBlob last x
    refine ⟨.inr (by omega), ?_⟩
    rw [bit, Bool.or_eq_true, (ih earlier).2, decide_eq_true_eq, or_assoc]
    refine or_congr_right ?_
    unfold InRun
    omega

theorem markRun_isOk {entry k : Nat} {eaMap : List UInt8} (room : entry + k ≤ 8 * eaSize) :
    ∃ eaMap', markRun entry k eaMap = .ok eaMap' := by
  induction k with
  | zero => exact ⟨eaMap, rfl⟩
  | succ k ih =>
    obtain ⟨middle, earlier⟩ := ih (by omega)
    exact ⟨_, markRun_succ.mpr ⟨middle, earlier, if_pos (by omega)⟩⟩

structure CellOK (beyond : Beyond) (d : DirFile) (i maxents b : Nat) : Prop where
  below : b < maxents
  there : hasPage d (b / epp) = true
  named : cString beyond d (nameAt b) ≠ []
  flag : byteAt d (flagAt b) = fFirst
  short : (cString beyond d (nameAt b)).length < 256
  room : b + nameBlobs (cString beyond d (nameAt b)) ≤ 8 * eaSize
  bucket : dirHash (cString beyond d (nameAt b)) = i
  dot : b = 13 → cString beyond d (nameAt b) = dot
  dotdot : b = 14 → cString beyond d (nameAt b) = dotdot

def CellsCover (beyond : Beyond) (d : DirFile) (cells : List Nat) (x : Nat) : Prop :=
  ∃ b ∈ cells, InRun b (nameBlobs (cString beyond d (nameAt b))) x

structure Walked (beyond : Beyond) (d : DirFile) (w : Walk) (cells : List Nat) (w' : Walk) : Prop where
  entcount : w'.entcount = w.entcount + cells.length
  eaMap : ∀ x, eaBit w'.eaMap x = true ↔ eaBit w.eaMap x = true ∨ CellsCover beyond d cells x
  havedot : w'.havedot = true ↔ w.havedot = true ∨ 13 ∈ cells
  havedotdot : w'.havedotdot = true ↔ w.havedotdot = true ∨ 14 ∈ cells

theorem Walked.nil (beyond : Beyond) (d : DirFile) (w : Walk) : Walked beyond d w [] w := by
  constructor <;> simp [CellsCover]

theorem Walked.append {w'' : Walk} {cells cells' : List Nat}
    (first : Walked beyond d w cells w') (second : Walked beyond d w' cells' w'') :
    Walked beyond d w (cells ++ cells') w'' := by
  constructor
  · rw [second.entcount, first.entcount, length_append, Nat.add_assoc]
  · intro x
    rw [second.eaMap, first.eaMap, or_assoc]
    simp only [CellsCover, mem_append, or_and_right, exists_or]
  · rw [second.havedot, first.havedot, mem_append, or_assoc]
  · rw [second.havedotdot, first.havedotdot, mem_append, or_assoc]

theorem walked_one (marked : markRun b (nameBlobs (cString beyond d (nameAt b))) w.eaMap = .ok eaMap) :
    Walked beyond d w [b] ⟨w.entcount + 1, eaMap, w.havedot || b = 13, w.havedotdot || b = 14⟩ := by
  refine ⟨rfl, ?_, ?_, ?_⟩
  · intro x
    simpa only [CellsCover, mem_singleton, exists_eq_left] using (eaBit_markRun marked x).2
  · rw [Bool.or_eq_true, decide_eq_true_eq, mem_singleton, eq_comm (a := b)]
  · rw [Bool.or_eq_true, decide_eq_true_eq, mem_singleton, eq_comm (a := b)]

theorem walkChain_cell (some : b ≠ 0) (ok : walkChain beyond d i maxents (fuel + 1) b w = .ok w') :
    CellOK beyond d i maxents b ∧ w.entcount + 1 < maxents ∧ ∃ middle, Walked beyond d w [b] middle ∧
        walkChain beyond d i maxents fuel (shortAt d (nextAt b)) middle = .ok w' := by
  rw [walkChain, if_neg some] at ok
  obtain ⟨below, ok⟩ := require_then.mp ok
  obtain ⟨there, ok⟩ := require_then.mp ok
  obtain ⟨count, ok⟩ := require_then.mp ok
  obtain ⟨named, ok⟩ := require_then.mp ok
  obtain ⟨flag, ok⟩ := require_then.mp ok
  obtain ⟨short, ok⟩ := require_then.mp ok
  obtain ⟨eaMap, marked, ok⟩ := except_bind_eq_ok.mp ok
  obtain ⟨bucket, ok⟩ := require_then.mp ok
  obtain ⟨dot, ok⟩ := require_then.mp ok
  obtain ⟨dotdot, ok⟩ := require_then.mp ok
  have room : b + nameBlobs (cString beyond d (nameAt b)) ≤ 8 * eaSize := by
    rcases (eaBit_markRun marked 0).1 with none | room
    · unfold nameBlobs at none
      omega
    · exact room
  exact ⟨⟨below, there, named, flag, short, room, bucket, dot, dotdot⟩, count, _, walked_one marked, ok⟩

theorem walkChain_step (some : b ≠ 0) (cell : CellOK beyond d i maxents b) (count : w.entcount + 1 < maxents) :
    ∃ middle, Walked beyond d w [b] middle ∧ ∀ fuel w', walkChain beyond d i maxents fuel (shortAt d (nextAt b)) middle = .ok w' →
      walkChain beyond d i maxents (fuel + 1) b w = .ok w' := by
  obtain ⟨eaMap, marked⟩ := @markRun_isOk _ _ w.eaMap cell.room
  refine ⟨_, walked_one marked, fun fuel w' later => ?_⟩
  rw [walkChain, if_neg some]
  apply require_then.mpr ⟨cell.below, _⟩
  apply require_then.mpr ⟨cell.there, _⟩
  apply require_then.mpr ⟨count, _⟩
  apply require_then.mpr ⟨cell.named, _⟩
  apply require_then.mpr ⟨cell.flag, _⟩
  apply require_then.mpr ⟨cell.short, _⟩
  apply except_bind_eq_ok.mpr ⟨eaMap, marked, _⟩
  apply require_then.mpr ⟨cell.bucket, _⟩
  apply require_then.mpr ⟨cell.dot, _⟩
  exact require_then.mpr ⟨cell.dotdot, later⟩

theorem walkChain_cells {a : Nat} (ok : walkChain beyond d i maxents fuel (shortAt d a) w = .ok w') :
    ∃ cells, Linked (shortAt d) nextAt a cells ∧ (∀ b ∈ cells, CellOK beyond d i maxents b) ∧ Walked beyond d w cells w' := by
  induction fuel generalizing a w with
  | zero => cases ok
  | succ fuel ih =>
    by_cases stop : shortAt d a = 0
    · rw [walkChain, if_pos stop] at ok
      cases ok
      exact ⟨[], stop, fun _ none => absurd none not_mem_nil, .nil ..⟩
    obtain ⟨cell, -, middle, first, later⟩ := walkChain_cell stop ok
    obtain ⟨cells, linked, all, rest⟩ := ih later
    refine ⟨shortAt d a :: cells, ⟨rfl, stop, linked⟩, ?_, first.append rest⟩
    intro b inside
    rcases List.mem_cons.mp inside with rfl | tail
    · exact cell
    · exact all b tail

theorem walkChain_ok {beyond : Beyond} {d : DirFile} {i maxents fuel a : Nat} {w : Walk} {cells : List Nat}
    (linked : Linked (shortAt d) nextAt a cells) (all : ∀ b ∈ cells, CellOK beyond d i maxents b)
    (count : w.entcount + cells.length < maxents) (enough : cells.length < fuel) :
    ∃ w', walkChain beyond d i maxents fuel (shortAt d a) w = .ok w' ∧ Walked beyond d w cells w' := by
  induction cells generalizing fuel a w with
  | nil =>
    obtain ⟨fuel, rfl⟩ : ∃ k, fuel = k + 1 := ⟨fuel - 1, by omega⟩
    have stop : shortAt d a = 0 := linked
    exact ⟨w, by rw [walkChain, if_pos stop], .nil ..⟩
  | cons b cells ih =>
    obtain ⟨fuel, rfl⟩ : ∃ k, fuel = k + 1 := ⟨fuel - 1, by omega⟩
    obtain ⟨here, some, later⟩ := linked
    rw [length_cons] at count enough
    obtain ⟨middle, first, turn⟩ := walkChain_step some (all b mem_cons_self) (w := w) (by omega)
    have counted : middle.entcount = w.entcount + 1 := first.entcount
    obtain ⟨w', ok, rest⟩ := @ih fuel (nextAt b) middle later (fun c inside => all c (mem_cons_of_mem _ inside))
      (by omega) (by omega)
    exact ⟨w', by rw [here]; exact turn fuel w' ok, first.append rest⟩

theorem walks_cells {is : List Nat}
    (ok : is.foldlM (fun w i => walkChain beyond d i maxents fuel (shortAt d (hashTableAt i)) w) w = .ok w') :
    ∃ cellsOf : Nat → List Nat,
      (∀ i ∈ is, Linked (shortAt d) nextAt (hashTableAt i) (cellsOf i) ∧ ∀ b ∈ cellsOf i, CellOK beyond d i maxents b) ∧
      Walked beyond d w (is.flatMap cellsOf) w' := by
  induction is generalizing w with
  | nil =>
    cases ok
    exact ⟨fun _ => [], fun _ none => absurd none not_mem_nil, .nil ..⟩
  | cons i is ih =>
    obtain ⟨middle, here, later⟩ := except_foldlM_cons.mp ok
    obtain ⟨cells, linked, all, first⟩ := walkChain_cells here
    obtain ⟨cellsOf, rest, walked⟩ := ih later
    -- a chain walked twice is the same chain
    have same : ∀ j ∈ is, j = i → cellsOf j = cells := by
      rintro j inside rfl
      exact (rest j inside).1.unique linked
    refine ⟨fun j => if j = i then cells else cellsOf j, ?_, ?_⟩
    · intro j inside
      dsimp only
      split
      · rename_i equal
        exact equal ▸ ⟨linked, all⟩
      · rename_i other
        exact rest j ((List.mem_cons.mp inside).resolve_left other)
    have tail : is.flatMap (fun j => if j = i then cells else cellsOf j) = is.flatMap cellsOf := by
      apply flatMap_congr
      intro j inside
      split
      · rename_i equal
        exact (same j inside equal).symm
      · rfl
    rw [flatMap_cons, if_pos rfl, tail]
    exact first.append walked

theorem walks_ok {beyond : Beyond} {d : DirFile} {maxents : Nat} {is : List Nat} {w : Walk} {cellsOf : Nat → List Nat}
    (chains : ∀ i ∈ is, Linked (shortAt d) nextAt (hashTableAt i) (cellsOf i) ∧ ∀ b ∈ cellsOf i, CellOK beyond d i maxents b)
    (count : w.entcount + (is.flatMap cellsOf).length < maxents) :
    ∃ w', is.foldlM (fun w i => walkChain beyond d i maxents (maxents + 1) (shortAt d (hashTableAt i)) w) w = .ok w' ∧
      Walked beyond d w (is.flatMap cellsOf) w' := by
  induction is generalizing w with
  | nil => exact ⟨w, rfl, .nil ..⟩
  | cons i is ih =>
    obtain ⟨linked, all⟩ := chains i mem_cons_self
    rw [flatMap_cons, length_append] at count
    obtain ⟨middle, here, first⟩ := @walkChain_ok _ _ _ _ (maxents + 1) _ w _ linked all (by omega) (by omega)
    have counted := first.entcount
    obtain ⟨w', later, rest⟩ := ih (w := middle) (fun j inside => chains j (mem_cons_of_mem _ inside)) (by omega)
    refine ⟨w', except_foldlM_cons.mpr ⟨middle, here, later⟩, ?_⟩
    exact first.append rest

theorem comparePage_eq_ok : comparePage d eaMap i = .ok () ↔ hasPage d i = true ∧ epp * (i + 1) ≤ 8 * eaSize ∧
      ∀ b < epp, bitAt d i b = eaBit eaMap (epp * i + b) := by
  have place : ∀ j < epp / 8, ∀ c < 8, eaBit eaMap (epp * i + (8 * j + c)) =
      (byteAt eaMap (i * (epp / 8) + j)).toBitVec.getLsbD c := by
    intro j small c bit
    rw [eaBit]
    unfold epp at *
    congr 1
    · congr 2
      omega
    · omega
  have bits : ∀ j < epp / 8, ∀ c < 8, bitAt d i (8 * j + c) = (byteAt d (freebitmapAt i + j)).toBitVec.getLsbD c := by
    intro j small c bit
    rw [bitAt]
    congr 1
    · congr 2
      omega
    · omega
  refine require_then.trans (and_congr_right fun _ => ?_)
  rw [except_forM_eq_ok]
  constructor
  · intro all
    constructor
    · have last := all (epp / 8 - 1) (List.mem_range.mpr (by decide))
      split at last
      · cases last
      · rename_i room
        unfold epp at *
        omega
    intro b small
    obtain ⟨j, c, bit, rfl⟩ : ∃ j c, c < 8 ∧ b = 8 * j + c := ⟨b / 8, b % 8, by omega, by omega⟩
    have inside : j < epp / 8 := by
      unfold epp at *
      omega
    have here := all j (List.mem_range.mpr inside)
    split at here
    · cases here
    · rw [place j inside c bit, bits j inside c bit, require_eq_ok.mp here]
  · rintro ⟨room, same⟩ j inside
    have small := List.mem_range.mp inside
    rw [if_neg (by unfold epp at *; omega), require_eq_ok]
    rw [← UInt8.toBitVec_inj]
    apply BitVec.eq_of_getLsbD_eq
    intro c bit
    rw [← place j small c bit, ← bits j small c bit, same _ (by unfold epp at *; omega)]

theorem checkPage_eq_ok : checkPage d i = .ok () ↔ hasPage d i = true ∧ shortAt d (tagAt i) = 1234 ∧
      (i < maxPages → (epp - (List.range epp).countP (bitAt d i)) % 256 = alloMap d i % 256) := by
  refine require_then.trans (and_congr_right fun _ => ?_)
  refine require_then.trans (and_congr_right fun _ => ?_)
  exact require_eq_ok

theorem checkAlloMap_behind {d : DirFile} {i n up : Nat} (some : 1 ≤ i) (behind : ∀ p, i ≤ p → p < i + n → alloMap d p = epp) :
    checkAlloMap d (List.range' i n) up true = .ok up := by
  induction n generalizing i with
  | zero => rfl
  | succ n ih =>
    have here := behind i (Nat.le_refl _) (by omega)
    rw [range'_succ, checkAlloMap, here]
    simp only [if_neg (by omega : ¬ i = 0), Nat.lt_irrefl, if_false, if_true, ne_eq, not_true_eq_false]
    exact ih (by omega) fun p after before => behind p (by omega) (by omega)

theorem checkAlloMap_ok {d : DirFile} {pages i n up : Nat} (some : 1 ≤ pages) (begun : i ≤ pages)
    (used : ∀ p, i ≤ p → p < i + n → p < pages → alloMap d p < epp)
    (first : alloMap d 0 ≤ epp - (13 + 2)) (behind : ∀ p, i ≤ p → p < i + n → pages ≤ p → alloMap d p = epp) :
    ∃ up', checkAlloMap d (List.range' i n) up false = .ok up' ∧ up' ≤ up + (pages - i) := by
  induction n generalizing i up with
  | zero => exact ⟨up, rfl, by omega⟩
  | succ n ih =>
    rw [range'_succ, checkAlloMap]
    by_cases old : i < pages
    · have few := used i (Nat.le_refl _) (by omega) old
      have fits : ¬ (if i = 0 then epp - (13 + 2) else epp) < alloMap d i := by
        split
        · rename_i zero
          rw [zero]
          omega
        · omega
      obtain ⟨up', ok, bound⟩ := @ih (i + 1) (up + 1) (by omega) (fun p after before => used p (by omega) (by omega))
        (fun p after before => behind p (by omega) (by omega))
      refine ⟨up', ?_, by omega⟩
      rw [if_neg fits, if_neg Bool.false_ne_true, if_neg (by omega)]
      exact ok
    · have here := behind i (Nat.le_refl _) (by omega) (by omega)
      have later := @checkAlloMap_behind d (i + 1) n up (by omega) fun p after before =>
        behind p (by omega) (by omega) (by omega)
      refine ⟨up, ?_, by omega⟩
      rw [here]
      simp only [if_neg (by omega : ¬ i = 0), Nat.lt_irrefl, if_false, if_true, Bool.false_eq_true]
      exact later

theorem free_eq (d : DirFile) (i : Nat) : epp - (List.range epp).countP (bitAt d i) = free d i := by
  have both := length_eq_countP_add_countP (bitAt d i) (l := List.range epp)
  have clear : (List.range epp).countP (fun b => !bitAt d i b) = free d i := by
    congr 1
    funext b
    simp
  rw [length_range] at both
  simp only [Bool.not_eq_true, Bool.decide_eq_false] at both
  omega

theorem free_le {p n : Nat} (small : n ≤ epp) (set : ∀ b < n, bitAt d p b = true) : free d p ≤ epp - n := by
  have split := Nat.count_add (fun b => bitAt d p b = false) n (epp - n)
  have none : Nat.count (fun b => bitAt d p b = false) n = 0 := by
    rw [Nat.count_iff_forall_not]
    intro b early
    rw [set b early]
    decide
  have rest : Nat.count (fun k => bitAt d p (n + k) = false) (epp - n) ≤ epp - n := Nat.count_le _
  have whole : n + (epp - n) = epp := by omega
  rw [whole, none] at split
  unfold free
  omega

theorem Valid.cellOK (valid : Valid d pages es) (beyond : Beyond)
    {me parent : Fid} (here : (⟨13, dotName, me⟩ : Entry) ∈ es) (up : (⟨14, dotdotName, parent⟩ : Entry) ∈ es)
    {e : Entry} (inside : e ∈ es) : CellOK beyond d e.bucket (pages * epp) e.blob := by
  have name := valid.cString inside beyond
  have fits := valid.fits e inside
  have low := (valid.blob inside (covers_blob e)).1
  have most := valid.space.most
  refine ⟨by rwa [Nat.mul_comm], hasPage_of_length valid.space.length (by unfold epp at *; omega), ?_, ?_, ?_, ?_, ?_, ?_, ?_⟩
  · rw [name]
    exact e.name.property.1
  · exact (valid.threads.holds e inside).flag
  · have short := e.name.property.2.1
    rw [name]
    omega
  · rw [name]
    unfold Entry.size eaSize bigMaxPages epp at *
    omega
  · rw [name]
    rfl
  · intro first
    have same := valid.unique inside here (covers_blob e) (by rw [first]; exact covers_blob _)
    rw [name, same]
    rfl
  · intro second
    have same := valid.unique inside up (covers_blob e) (by rw [second]; exact covers_blob _)
    rw [name, same]
    rfl

theorem flatMap_chainOf (es : List Entry) : (List.range nHashEnt).flatMap (chainOf es) = (enumerated es).map Entry.blob := by
  rw [enumerated, map_flatMap]
  rfl

theorem Valid.length_lt (valid : Valid d pages es) : ((enumerated es).map Entry.blob).length < pages * epp := by
  have entries : es.Nodup := List.Nodup.of_map _ valid.threads.names
  have blobs : ((enumerated es).map Entry.blob).Nodup := by
    apply (nodup_enumerated entries).map_on
    intro e inside f inside' same
    exact valid.unique (mem_enumerated.mp inside) (mem_enumerated.mp inside') (covers_blob e)
      (by rw [same]; exact covers_blob f)
  have known : ∀ b ∈ (enumerated es).map Entry.blob, b < epp * pages ∧ ¬ HeaderBlob b := by
    intro b inside
    obtain ⟨e, member, rfl⟩ := List.mem_map.mp inside
    exact valid.blob (mem_enumerated.mp member) (covers_blob e)
  have once : (0 :: (enumerated es).map Entry.blob).Nodup := by
    rw [nodup_cons]
    exact ⟨fun zero => (known 0 zero).2 (.inl rfl), blobs⟩
  have some := valid.space.some
  have length := length_le_of_nodup once (n := epp * pages) (by
    intro b inside
    rcases List.mem_cons.mp inside with rfl | member
    · unfold epp
      omega
    · exact (known b member).1)
  rw [length_cons, Nat.mul_comm] at length
  omega

theorem Valid.dirOK (valid : Valid d pages es) (beyond : Beyond)
    {me parent : Fid} (here : (⟨13, dotName, me⟩ : Entry) ∈ es) (up : (⟨14, dotdotName, parent⟩ : Entry) ∈ es) :
    Dir.dirOK beyond d = .ok () := by
  have space := valid.space
  have some := space.some
  have most := space.most
  have there : ∀ p < pages, hasPage d p = true := fun p inside => hasPage_of_length space.length inside
  have counted : computeUsedPages d = pages := by
    rw [computeUsedPages, space.pgcount, if_pos (by omega)]
  -- the header and the two dots take the first 15 blobs
  have first : alloMap d 0 ≤ epp - (13 + 2) := by
    rw [space.allo 0 (by decide), if_pos (by omega)]
    apply free_le (by decide)
    intro b small
    rw [space.bits 0 some b (by unfold epp; omega)]
    by_cases header : b < 13
    · exact .inl (.inr (by unfold dhe; omega))
    right
    by_cases dot : b = 13
    · exact ⟨_, here, by rw [dot]; exact covers_blob _⟩
    · have dotdot : b = 14 := by omega
      exact ⟨_, up, by rw [dotdot]; exact covers_blob _⟩
  obtain ⟨used, alloOk, usedLe⟩ := @checkAlloMap_ok d pages 0 maxPages 0 some (Nat.zero_le _)
    (fun p _ early inside => by
      rw [space.allo p (by omega), if_pos inside]
      exact free_lt space inside)
    first
    (fun p _ early behind => by rw [space.allo p (by omega), if_neg (by omega)])
  have pagesOk : ∀ i ∈ List.range pages, checkPage d i = .ok () := by
    intro i inside
    have known := List.mem_range.mp inside
    refine checkPage_eq_ok.mpr ⟨there i known, space.tag i known, fun early => ?_⟩
    rw [free_eq, space.allo i early, if_pos known]
  have chains : ∀ i ∈ List.range nHashEnt, Linked (shortAt d) nextAt (hashTableAt i) (chainOf es i) ∧
      ∀ b ∈ chainOf es i, CellOK beyond d i (pages * epp) b := by
    intro i inside
    refine ⟨valid.threads.chains i (List.mem_range.mp inside), fun b member => ?_⟩
    obtain ⟨e, known, rfl, rfl⟩ := mem_chainOf.mp member
    exact valid.cellOK beyond here up known
  obtain ⟨w, walkOk, walked⟩ := walks_ok chains (w := ⟨0, initEaMap pages, false, false⟩) (by
    rw [flatMap_chainOf, Nat.zero_add]
    exact valid.length_lt)
  rw [flatMap_chainOf] at walked
  have dots : w.havedot = true ∧ w.havedotdot = true := by
    rw [walked.havedot, walked.havedotdot]
    exact ⟨.inr (List.mem_map.mpr ⟨_, mem_enumerated.mpr here, rfl⟩), .inr (List.mem_map.mpr ⟨_, mem_enumerated.mpr up, rfl⟩)⟩
  have mapsOk : ∀ i ∈ List.range pages, comparePage d w.eaMap i = .ok () := by
    intro i inside
    have known := List.mem_range.mp inside
    refine comparePage_eq_ok.mpr ⟨there i known, by unfold eaSize bigMaxPages epp at *; omega, fun b small => ?_⟩
    have cover : CellsCover beyond d ((enumerated es).map Entry.blob) (epp * i + b) ↔ Covered es (epp * i + b) := by
      constructor
      · rintro ⟨c, member, run⟩
        obtain ⟨e, listed, rfl⟩ := List.mem_map.mp member
        have old := mem_enumerated.mp listed
        rw [valid.cString old] at run
        exact ⟨e, old, run⟩
      · rintro ⟨e, old, run⟩
        refine ⟨e.blob, List.mem_map.mpr ⟨e, mem_enumerated.mpr old, rfl⟩, ?_⟩
        rw [valid.cString old]
        exact run
    rw [Bool.eq_iff_iff, space.bits i known b small, walked.eaMap, cover,
      eaBit_initEaMap (by unfold eaSize bigMaxPages epp at *; omega)]
    have low : epp * i + b < epp * pages := by
      unfold epp at *
      omega
    simp only [low, true_and]
  apply require_then.mpr ⟨there 0 some, _⟩
  apply require_then.mpr ⟨space.tag 0 some, _⟩
  apply except_bind_eq_ok.mpr ⟨used, alloOk, _⟩
  rw [counted]
  apply require_then.mpr ⟨by omega, _⟩
  apply except_bind_eq_ok.mpr ⟨(), except_forM_eq_ok.mpr pagesOk, _⟩
  apply except_bind_eq_ok.mpr ⟨w, walkOk, _⟩
  apply require_then.mpr ⟨dots, _⟩
  exact except_forM_eq_ok.mpr mapsOk

def KeepsDots (_ : DirState) : DirCall → Prop
  | .create .. => True
  | .delete _ name => name ≠ dotName ∧ name ≠ dotdotName

instance (s : DirState) (call : DirCall) : Decidable (KeepsDots s call) := by
  cases call <;> simp only [KeepsDots] <;> infer_instance

def DirState.Dotted (s : DirState) : Prop := ∃ pages es me parent, Valid s.file pages es ∧
  (⟨13, dotName, me⟩ : Entry) ∈ es ∧ (⟨14, dotdotName, parent⟩ : Entry) ∈ es

theorem DirState.Dotted.step {s s' : DirState} {call : DirCall} (dotted : s.Dotted) (met : KeepsDots s call)
    (taken : s.step call = some s') : s'.Dotted := by
  obtain ⟨pages, es, me, parent, valid, here, up⟩ := dotted
  cases call with
  | create beyond junk name fid =>
    obtain ⟨⟨d, code⟩, call, rfl⟩ := Option.map_eq_some_iff.mp taken
    rcases valid.findItem name beyond with ⟨absent, fresh⟩ | ⟨e, inside, same, before, after, -, found⟩
    · obtain ⟨d', pages', es', code', call', after, made⟩ := valid.create junk fid absent fresh
      rw [call] at call'
      cases call'
      refine ⟨pages', es', me, parent, after, ?_⟩
      cases made with
      | ok blob _ => exact ⟨mem_cons_of_mem _ here, mem_cons_of_mem _ up⟩
      | full _ => exact ⟨here, up⟩
    · rw [Dir.create, if_neg name.property.1, found] at call
      cases call
      exact ⟨pages, es, me, parent, valid, here, up⟩
  | delete beyond name =>
    obtain ⟨⟨d, code⟩, call, rfl⟩ := Option.map_eq_some_iff.mp taken
    rcases valid.findItem name beyond with ⟨absent, -⟩ | ⟨e, inside, rfl, before, after, split, found⟩
    · rw [Dir.delete, absent] at call
      cases call
      exact ⟨pages, es, me, parent, valid, here, up⟩
    obtain ⟨d', call', after'⟩ := valid.delete inside split found
    rw [call] at call'
    cases call'
    refine ⟨pages, _, me, parent, after', ?_, ?_⟩
    all_goals
      rw [mem_filter]
      simp only [ne_eq, decide_not, Bool.not_eq_true', decide_eq_false_iff_not, here, up, true_and]
      rintro rfl
    · exact met.1 rfl
    · exact met.2 rfl

/-- In every run from `MakeDir` on in which the two dots are not deleted, `DirOK` returns 1. -/
theorem dirOK_built {s : DirState} (reached : directory.ReachWhere KeepsDots s) (beyond : Beyond) :
    dirOK beyond s.file = .ok () := by
  have dotted : s.Dotted := reached.invariant (fun s start => by
    obtain ⟨beyond, junk, me, parent, old, made, -⟩ := start
    obtain ⟨d, pages, made', valid⟩ := makeDir_valid beyond junk me parent old
    rw [made] at made'
    cases made'
    exact ⟨pages, _, me, parent, valid, by simp, by simp⟩)
    fun _ _ _ dotted met taken => dotted.step met taken
  obtain ⟨pages, es, me, parent, valid, here, up⟩ := dotted
  exact valid.dirOK beyond here up

def dottedRun : DirState := (directory.runWhere KeepsDots freshDir createThenDelete).get (by decide +kernel)

theorem dirOK_built_dottedRun : dirOK (fun _ => []) dottedRun.file = .ok () := by
  have ran : directory.runWhere KeepsDots freshDir createThenDelete = some dottedRun := (Option.some_get _).symm
  exact dirOK_built (Machine.ReachWhere.runWhere (.start freshDir_start) ran) _

end OpenAFS.Dir
