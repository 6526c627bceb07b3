import OpenAFS.Dir.CheckSound

namespace OpenAFS.Dir

open Lib List

variable {beyond : Beyond} {d : DirFile}

structure HeadersOK (d : DirFile) : Prop where
  first : hasPage d 0 = true
  tag : shortAt d (tagAt 0) = 1234
  alloMap : ∃ up, checkAlloMap d (List.range maxPages) 0 false = .ok up ∧ up ≤ computeUsedPages d
  pages : ∀ i < computeUsedPages d, checkPage d i = .ok ()

structure Markable (beyond : Beyond) (d : DirFile) (maxents b : Nat) : Prop where
  below : b < maxents
  there : hasPage d (b / epp) = true
  named : cString beyond d (nameAt b) ≠ []
  flag : byteAt d (flagAt b) = fFirst
  short : (cString beyond d (nameAt b)).length < 256

def ChainOK (beyond : Beyond) (d : DirFile) (i maxents : Nat) (cells : List Nat) : Prop :=
  Linked (shortAt d) nextAt (hashTableAt i) cells ∧ ∀ c ∈ cells, CellOK beyond d i maxents c

def Leads (d : DirFile) : Nat → List Nat → Nat → Prop
  | a, [], b => shortAt d a = b ∧ b ≠ 0
  | a, c :: before, b => shortAt d a = c ∧ c ≠ 0 ∧ Leads d (nextAt c) before b

def OverrunFrom (beyond : Beyond) (d : DirFile) (i maxents entcount a : Nat) : Prop :=
  ∃ before b, Leads d a before b ∧ (∀ c ∈ before, CellOK beyond d i maxents c) ∧ Markable beyond d maxents b ∧
    entcount + before.length + 1 < maxents ∧ 8 * eaSize < b + blobsOf beyond d b

def Overrun (beyond : Beyond) (d : DirFile) (maxents : Nat) : Prop :=
  ∃ i < nHashEnt, ∃ cellsOf : Nat → List Nat, (∀ j < i, ChainOK beyond d j maxents (cellsOf j)) ∧
    OverrunFrom beyond d i maxents ((List.range i).flatMap cellsOf).length (hashTableAt i)

/-- A directory of more pages than the map has room for, whose first pages agree with its entries. -/
def ComparedTooFar (beyond : Beyond) (d : DirFile) (pages : Nat) : Prop :=
  bigMaxPages < pages ∧ ∃ cellsOf : Nat → List Nat, (∀ i < nHashEnt, ChainOK beyond d i (pages * epp) (cellsOf i)) ∧
    ((List.range nHashEnt).flatMap cellsOf).length < pages * epp ∧
    13 ∈ (List.range nHashEnt).flatMap cellsOf ∧ 14 ∈ (List.range nHashEnt).flatMap cellsOf ∧
    ∀ i < bigMaxPages, ∀ b < epp, bitAt d i b = true ↔
      HeaderBlob (epp * i + b) ∨ CellsCover beyond d ((List.range nHashEnt).flatMap cellsOf) (epp * i + b)

theorem require_then_outside {c : Prop} [Decidable c] {α : Type} {rest : Unit → Except Stop α} :
    (require c).bind rest = .error .outside ↔ c ∧ rest () = .error .outside := by
  unfold require
  split <;> simp [Except.bind, *]

variable {eaMap : List UInt8} {i maxents fuel b page : Nat} {w w' : Walk}

theorem markRun_error {entry k : Nat} {stop : Stop} (failed : markRun entry k eaMap = .error stop) : stop = .outside := by
  induction k with
  | zero => cases failed
  | succ k ih =>
    unfold markRun at failed ih
    rw [range_succ, foldlM_append] at failed
    rcases except_bind_eq_error.mp failed with earlier | ⟨middle, -, last⟩
    · exact ih earlier
    rw [foldlM_cons] at last
    rcases except_bind_eq_error.mp last with here | ⟨_, _, none⟩
    · unfold markBlob at here
      split at here
      · cases here
      · cases here
        rfl
    · cases none

theorem markRun_outside {entry k : Nat} (some : 0 < k) : markRun entry k eaMap = .error .outside ↔ 8 * eaSize < entry + k := by
  constructor
  · intro failed
    by_contra room
    obtain ⟨eaMap', marked⟩ := @markRun_isOk entry k eaMap (by omega)
    rw [failed] at marked
    cases marked
  intro tooFar
  cases marked : markRun entry k eaMap with
  | ok eaMap' =>
    have room := (eaBit_markRun marked 0).1
    omega
  | error stop => rw [markRun_error marked]

theorem walkChain_markable (some : b ≠ 0) (markable : Markable beyond d maxents b)
    (count : w.entcount + 1 < maxents) : walkChain beyond d i maxents (fuel + 1) b w =
      (markRun b (blobsOf beyond d b) w.eaMap).bind fun eaMap =>
        (require (dirHash (cString beyond d (nameAt b)) = i)).bind fun _ =>
          (require (b = 13 → cString beyond d (nameAt b) = dot)).bind fun _ =>
            (require (b = 14 → cString beyond d (nameAt b) = dotdot)).bind fun _ =>
              walkChain beyond d i maxents fuel (shortAt d (nextAt b))
                ⟨w.entcount + 1, eaMap, w.havedot || b = 13, w.havedotdot || b = 14⟩ := by
  rw [walkChain, if_neg some]
  simp only [require, if_pos markable.below, if_pos markable.there, if_pos count, if_pos markable.named,
    if_pos markable.flag, if_pos markable.short]
  rfl

theorem blobsOf_some (beyond : Beyond) (d : DirFile) (b : Nat) : 0 < blobsOf beyond d b := by
  unfold blobsOf nameBlobs
  omega

theorem CellOK.markable (cell : CellOK beyond d i maxents b) : Markable beyond d maxents b :=
  ⟨cell.below, cell.there, cell.named, cell.flag, cell.short⟩

theorem walkChain_outside {a : Nat} (enough : maxents < fuel + w.entcount) :
    walkChain beyond d i maxents fuel (shortAt d a) w = .error .outside ↔ OverrunFrom beyond d i maxents w.entcount a := by
  induction fuel generalizing a w with
  | zero =>
    constructor
    · intro failed
      cases failed
    · rintro ⟨before, b, -, -, -, count, -⟩
      omega
  | succ fuel ih =>
    by_cases stop : shortAt d a = 0
    · rw [walkChain, if_pos stop]
      constructor
      · intro failed
        cases failed
      rintro ⟨before, b, leads, -⟩
      cases before with
      | nil => exact absurd (leads.1.symm.trans stop) leads.2
      | cons c before => exact absurd (leads.1.symm.trans stop) leads.2.1
    constructor
    · intro failed
      rw [walkChain, if_neg stop] at failed
      obtain ⟨below, failed⟩ := require_then_outside.mp failed
      obtain ⟨there, failed⟩ := require_then_outside.mp failed
      obtain ⟨count, failed⟩ := require_then_outside.mp failed
      obtain ⟨named, failed⟩ := require_then_outside.mp failed
      obtain ⟨flag, failed⟩ := require_then_outside.mp failed
      obtain ⟨short, failed⟩ := require_then_outside.mp failed
      rcases except_bind_eq_error.mp failed with here | ⟨eaMap, marked, failed⟩
      · refine ⟨[], shortAt d a, ⟨rfl, stop⟩, fun _ none => absurd none not_mem_nil, ⟨below, there, named, flag, short⟩, count, ?_⟩
        exact (markRun_outside (blobsOf_some beyond d _)).mp here
      obtain ⟨bucket, failed⟩ := require_then_outside.mp failed
      obtain ⟨dot, failed⟩ := require_then_outside.mp failed
      obtain ⟨dotdot, failed⟩ := require_then_outside.mp failed
      have room : shortAt d a + nameBlobs (cString beyond d (nameAt (shortAt d a))) ≤ 8 * eaSize := by
        rcases (eaBit_markRun marked 0).1 with none | room
        · unfold nameBlobs at none
          omega
        · exact room
      obtain ⟨before, b, leads, all, markable, counted, tooFar⟩ := (ih (by dsimp only; omega)).mp failed
      refine ⟨shortAt d a :: before, b, ⟨rfl, stop, leads⟩, ?_, markable, ?_, tooFar⟩
      · intro c inside
        rcases List.mem_cons.mp inside with rfl | later
        · exact ⟨below, there, named, flag, short, room, bucket, dot, dotdot⟩
        · exact all c later
      · rw [length_cons]
        dsimp only at counted
        omega
    · rintro ⟨before, b, leads, all, markable, count, tooFar⟩
      cases before with
      | nil =>
        rw [leads.1, walkChain_markable leads.2 markable (by simpa using count),
          (markRun_outside (blobsOf_some beyond d b)).mpr tooFar]
        rfl
      | cons c before =>
        obtain ⟨here, some, later⟩ := leads
        have cell := all c mem_cons_self
        rw [length_cons] at count
        obtain ⟨eaMap, marked⟩ := @markRun_isOk c (blobsOf beyond d c) w.eaMap cell.room
        rw [here, walkChain_markable some cell.markable (by omega), marked]
        simp only [Except.bind, require, if_pos cell.bucket, if_pos cell.dot, if_pos cell.dotdot]
        apply (ih (by dsimp only; omega)).mpr
        refine ⟨before, b, later, fun c' inside => all c' (mem_cons_of_mem _ inside), markable, ?_, tooFar⟩
        dsimp only
        omega

theorem walkChain_count (ok : walkChain beyond d i maxents fuel b w = .ok w')
    (few : w.entcount < maxents) : w'.entcount < maxents := by
  induction fuel generalizing b w with
  | zero => cases ok
  | succ fuel ih =>
    by_cases stop : b = 0
    · rw [walkChain, if_pos stop] at ok
      cases ok
      exact few
    obtain ⟨-, count, middle, first, later⟩ := walkChain_cell stop ok
    refine ih later ?_
    rw [first.entcount]
    exact count

theorem walks_count {n : Nat}
    (ok : (List.range n).foldlM (fun w i => walkChain beyond d i maxents fuel (shortAt d (hashTableAt i)) w) w = .ok w')
    (few : w.entcount < maxents) : w'.entcount < maxents := by
  induction n generalizing w' with
  | zero =>
    cases ok
    exact few
  | succ n ih =>
    rw [range_succ, foldlM_append] at ok
    obtain ⟨middle, earlier, last⟩ := except_bind_eq_ok.mp ok
    obtain ⟨_, here, ⟨⟩⟩ := except_bind_eq_ok.mp last
    exact walkChain_count here (ih earlier)

def walks (beyond : Beyond) (d : DirFile) (maxents n : Nat) (w : Walk) : Except Stop Walk :=
  (List.range n).foldlM (fun w i => walkChain beyond d i maxents (maxents + 1) (shortAt d (hashTableAt i)) w) w

theorem walks_outside (none : w.entcount = 0) :
    walks beyond d maxents nHashEnt w = .error .outside ↔ Overrun beyond d maxents := by
  refine except_foldlM_range_error.trans ?_
  constructor
  · rintro ⟨i, small, w', ok, failed⟩
    obtain ⟨cellsOf, all, walked⟩ := walks_cells ok
    refine ⟨i, small, cellsOf, fun j before => all j (List.mem_range.mpr before), ?_⟩
    have tooFar := (walkChain_outside (by omega)).mp failed
    rwa [walked.entcount, none, Nat.zero_add] at tooFar
  rintro ⟨i, small, cellsOf, all, tooFar⟩
  obtain ⟨before, b, leads, passed, markable, count, behind⟩ := tooFar
  have few : w.entcount + ((List.range i).flatMap cellsOf).length < maxents := by omega
  obtain ⟨w', ok, walked⟩ := walks_ok (fun j inside => all j (List.mem_range.mp inside)) few
  refine ⟨i, small, w', ok, (walkChain_outside (by omega)).mpr ?_⟩
  rw [walked.entcount, none, Nat.zero_add]
  exact ⟨before, b, leads, passed, markable, count, behind⟩

theorem comparePage_outside : comparePage d eaMap i = .error .outside ↔ hasPage d i = true ∧ bigMaxPages ≤ i := by
  refine require_then_outside.trans (and_congr_right fun _ => ?_)
  rw [except_forM_range_error]
  constructor
  · rintro ⟨j, small, -, failed⟩
    split at failed
    · rename_i tooFar
      unfold eaSize bigMaxPages epp at *
      omega
    · unfold require at failed
      split at failed <;> cases failed
  · intro beyond
    refine ⟨0, by decide, fun _ none => absurd none (Nat.not_lt_zero _), if_pos ?_⟩
    unfold eaSize bigMaxPages epp at *
    omega

theorem checkPage_inside : checkPage d i ≠ .error .outside := by
  intro failed
  obtain ⟨-, failed⟩ := require_then_outside.mp failed
  obtain ⟨-, failed⟩ := require_then_outside.mp failed
  dsimp only [require] at failed
  split at failed <;> cases failed

theorem checkAlloMap_inside {is : List Nat} {up : Nat} {k : Bool} : checkAlloMap d is up k ≠ .error .outside := by
  induction is generalizing up k with
  | nil => nofun
  | cons i is ih =>
    intro failed
    rw [checkAlloMap] at failed
    generalize (if i = 0 then epp - (13 + 2) else epp) = most at failed
    split at failed
    · cases failed
    split at failed
    · split at failed
      · cases failed
      · exact ih failed
    · split at failed
      · exact ih failed
      · exact ih failed

theorem bit_of_walked {cells : List Nat} {pages x : Nat} (walked : Walked beyond d w cells w')
    (fresh : w.eaMap = initEaMap pages) (inside : x < epp * pages) (room : x < 8 * eaSize) :
    eaBit w'.eaMap x = true ↔ HeaderBlob x ∨ CellsCover beyond d cells x := by
  rw [walked.eaMap, fresh, eaBit_initEaMap room]
  simp only [inside, true_and]

def freshWalk (d : DirFile) : Walk := ⟨0, initEaMap (computeUsedPages d), false, false⟩

theorem freshWalk_eaMap (d : DirFile) : (freshWalk d).eaMap = initEaMap (computeUsedPages d) := by
  rw [freshWalk]

theorem dirOK_outside : dirOK beyond d = .error .outside ↔ HeadersOK d ∧
    (walks beyond d (computeUsedPages d * epp) nHashEnt (freshWalk d) = .error .outside ∨
      ∃ w, walks beyond d (computeUsedPages d * epp) nHashEnt (freshWalk d) = .ok w ∧ (w.havedot = true ∧ w.havedotdot = true) ∧
          (List.range (computeUsedPages d)).forM (comparePage d w.eaMap) = .error .outside) := by
  constructor
  · intro failed
    obtain ⟨first, failed⟩ := require_then_outside.mp failed
    obtain ⟨tag, failed⟩ := require_then_outside.mp failed
    rcases except_bind_eq_error.mp failed with absurd | ⟨up, alloMap, failed⟩
    · exact (checkAlloMap_inside absurd).elim
    obtain ⟨most, failed⟩ := require_then_outside.mp failed
    rcases except_bind_eq_error.mp failed with absurd | ⟨_, pages, failed⟩
    · obtain ⟨i, -, -, outside⟩ := except_forM_range_error.mp absurd
      exact (checkPage_inside outside).elim
    refine ⟨⟨first, tag, ⟨up, alloMap, most⟩, fun i small => except_forM_eq_ok.mp pages i (List.mem_range.mpr small)⟩, ?_⟩
    rcases except_bind_eq_error.mp failed with walk | ⟨w, walk, failed⟩
    · exact .inl walk
    · obtain ⟨dots, failed⟩ := require_then_outside.mp failed
      exact .inr ⟨w, walk, dots, failed⟩
  · rintro ⟨⟨first, tag, ⟨up, alloMap, most⟩, pages⟩, outcome⟩
    refine require_then_outside.mpr ⟨first, ?_⟩
    refine require_then_outside.mpr ⟨tag, ?_⟩
    refine except_bind_eq_error.mpr (.inr ⟨up, alloMap, ?_⟩)
    refine require_then_outside.mpr ⟨most, ?_⟩
    refine except_bind_eq_error.mpr (.inr ⟨(), ?_, ?_⟩)
    · exact except_forM_eq_ok.mpr fun i inside => pages i (List.mem_range.mp inside)
    refine except_bind_eq_error.mpr ?_
    rcases outcome with walk | ⟨w, walk, dots, compared⟩
    · exact .inl walk
    · exact .inr ⟨w, walk, require_then_outside.mpr ⟨dots, compared⟩⟩

theorem comparedTooFar_iff (headers : HeadersOK d) : ComparedTooFar beyond d (computeUsedPages d) ↔
    ∃ w, walks beyond d (computeUsedPages d * epp) nHashEnt (freshWalk d) = .ok w ∧ (w.havedot = true ∧ w.havedotdot = true) ∧
        (List.range (computeUsedPages d)).forM (comparePage d w.eaMap) = .error .outside := by
  have room : ∀ i < bigMaxPages, ∀ b < epp, epp * i + b < 8 * eaSize := by
    intro i small b inPage
    unfold eaSize bigMaxPages epp at *
    omega
  constructor
  · rintro ⟨more, cellsOf, chains, few, dot, dotdot, maps⟩
    have none : (freshWalk d).entcount = 0 := rfl
    obtain ⟨w, ok, walked⟩ := @walks_ok beyond d (computeUsedPages d * epp) (List.range nHashEnt) (freshWalk d) cellsOf
      (fun i inside => chains i (List.mem_range.mp inside)) (by omega)
    refine ⟨w, ok, ⟨walked.havedot.mpr (.inr dot), walked.havedotdot.mpr (.inr dotdot)⟩, ?_⟩
    refine except_forM_range_error.mpr ⟨bigMaxPages, more, ?_, comparePage_outside.mpr ⟨?_, Nat.le_refl _⟩⟩
    · intro i small
      refine comparePage_eq_ok.mpr ⟨(checkPage_eq_ok.mp (headers.pages i (by omega))).1, ?_, ?_⟩
      · unfold eaSize bigMaxPages epp at *
        omega
      · intro b inPage
        rw [Bool.eq_iff_iff, maps i small b inPage,
          bit_of_walked walked (freshWalk_eaMap d) (by unfold epp at *; omega) (room i small b inPage)]
    · exact (checkPage_eq_ok.mp (headers.pages _ more)).1
  · rintro ⟨w, ok, ⟨dot, dotdot⟩, failed⟩
    obtain ⟨i, small, same, outside⟩ := except_forM_range_error.mp failed
    have behind := (comparePage_outside.mp outside).2
    obtain ⟨cellsOf, all, walked⟩ := walks_cells ok
    have few := walks_count ok (w := freshWalk d) (by show 0 < _; unfold epp; omega)
    rw [walked.entcount] at few
    refine ⟨by omega, cellsOf, fun i small => all i (List.mem_range.mpr small), by simpa [freshWalk] using few, ?_, ?_, ?_⟩
    · simpa [freshWalk] using walked.havedot.mp dot
    · simpa [freshWalk] using walked.havedotdot.mp dotdot
    · intro j before b inPage
      have compared := comparePage_eq_ok.mp (same j (by omega))
      rw [compared.2.2 b inPage, bit_of_walked walked (freshWalk_eaMap d) (by unfold epp at *; omega) (room j before b inPage)]

/-- `DirOK` indexes its map out of range where the walk meets an entry that goes on behind it, or where the maps of
more pages are compared than it has room for. -/
theorem dirOK_inside_iff : dirOK beyond d ≠ .error .outside ↔
    ¬ (HeadersOK d ∧ (Overrun beyond d (computeUsedPages d * epp) ∨ ComparedTooFar beyond d (computeUsedPages d))) := by
  refine not_congr (dirOK_outside.trans (and_congr_right fun headers => ?_))
  rw [walks_outside rfl, comparedTooFar_iff headers]

def widePage (page : Nat) : List UInt8 :=
  if page = 0 then
    [[3, 255, 4, 210, 49, 0xff, 0x7f], zeros 25, [49], List.replicate 127 63, [255, 191], zeros (pageSize - 162)].flatten
  else if page = bigMaxPages - 1 then
    [[0, 0, 4, 210, 63, 1], zeros (63 * 32 - 6), [1], zeros 11, List.replicate 16 97, zeros 4].flatten
  else [[0, 0, 4, 210, 63, 1], zeros (pageSize - 6)].flatten

def wideDir : DirFile := (List.range (pageSize * bigMaxPages)).map fun x => byteAt (widePage (x / pageSize)) (x % pageSize)

theorem length_wideDir : wideDir.length = pageSize * bigMaxPages := by
  rw [wideDir, length_map, length_range]

theorem byteAt_wideDir {page k : Nat} (small : page < bigMaxPages) (inside : k < pageSize) :
    byteAt wideDir (pageSize * page + k) = byteAt (widePage page) k := by
  have below : pageSize * page + k < pageSize * bigMaxPages := by
    unfold pageSize bigMaxPages at *
    omega
  rw [wideDir, byteAt, getD_eq_getElem _ _ (by rwa [length_map, length_range]), getElem_map,
    getElem_range, Nat.mul_add_div (by decide), Nat.mul_add_mod, Nat.div_eq_of_lt inside, Nat.mod_eq_of_lt inside,
    Nat.add_zero]

theorem hasPage_wideDir (small : page < bigMaxPages) : hasPage wideDir page = true :=
  hasPage_of_length (Nat.le_of_eq length_wideDir.symm) small

theorem shortAt_wideDir {page k : Nat} (small : page < bigMaxPages) (inside : k + 1 < pageSize) :
    shortAt wideDir (pageSize * page + k) = shortAt (widePage page) k := by
  rw [shortAt, Nat.add_assoc, byteAt_wideDir small (by omega), byteAt_wideDir small inside, shortAt]

theorem bitAt_wideDir (small : page < bigMaxPages) (inside : b < epp) : bitAt wideDir page b = bitAt (widePage page) 0 b := by
  have inPage : 5 + b / 8 < pageSize := by
    unfold epp pageSize at *
    omega
  rw [bitAt, freebitmapAt, Nat.add_assoc, byteAt_wideDir small inPage, bitAt]
  rfl

theorem alloMap_wideDir (small : page < maxPages) : alloMap wideDir page = alloMap (widePage 0) page := by
  have here := @byteAt_wideDir 0 (alloMapAt page) (by decide) (by unfold alloMapAt maxPages pageSize at *; omega)
  rw [Nat.mul_zero, Nat.zero_add] at here
  rw [alloMap, here, alloMap]

theorem computeUsedPages_wideDir : computeUsedPages wideDir = bigMaxPages := by
  have count : pgcount wideDir = bigMaxPages := @shortAt_wideDir 0 0 (by decide) (by decide)
  rw [computeUsedPages, count]
  rfl

theorem widePage_tag : shortAt (widePage page) 2 = 1234 := by
  unfold widePage
  split
  · decide +kernel
  · split <;> decide +kernel

theorem widePage_count (early : page < maxPages) :
    epp - (List.range epp).countP (bitAt (widePage page) 0) = alloMap (widePage 0) page := by
  revert page
  decide +kernel

theorem headersOK_wideDir : HeadersOK wideDir := by
  have tag : ∀ i < bigMaxPages, shortAt wideDir (tagAt i) = 1234 := fun i small =>
    (shortAt_wideDir small (by decide)).trans widePage_tag
  refine ⟨hasPage_wideDir (by decide), tag 0 (by decide), ?_, ?_⟩
  · have used : ∀ p < maxPages, alloMap (widePage 0) p < epp := by decide +kernel
    obtain ⟨up, ok, most⟩ := @checkAlloMap_ok wideDir maxPages 0 maxPages 0 (by decide) (Nat.zero_le _)
      (fun p _ early _ => by rw [alloMap_wideDir (by omega)]; exact used p (by omega))
      (by rw [alloMap_wideDir (by decide)]; decide +kernel) (fun p _ early behind => by omega)
    refine ⟨up, ok, ?_⟩
    rw [computeUsedPages_wideDir]
    unfold maxPages bigMaxPages at *
    omega
  · rw [computeUsedPages_wideDir]
    intro i small
    refine checkPage_eq_ok.mpr ⟨hasPage_wideDir small, tag i small, fun early => ?_⟩
    have same : (List.range epp).countP (bitAt wideDir i) = (List.range epp).countP (bitAt (widePage i) 0) :=
      countP_congr fun b inside => by rw [bitAt_wideDir small (List.mem_range.mp inside)]
    rw [alloMap_wideDir early, ← widePage_count early, same]

def lastBlob : Nat := epp * bigMaxPages - 1

theorem cString_wideDir : cString (fun _ => []) wideDir (nameAt lastBlob) = List.replicate 16 97 := by
  apply cString_eq (by decide)
  · intro i inside
    have place : nameAt lastBlob + i = pageSize * (bigMaxPages - 1) + (63 * 32 + 12 + i) := by
      unfold nameAt lastBlob epp bigMaxPages pageSize
      omega
    rw [length_replicate] at inside
    rw [place, byteAt_wideDir (by decide) (by unfold pageSize; omega)]
    have all : ∀ i < 17, byteAt (widePage (bigMaxPages - 1)) (63 * 32 + 12 + i) = byteAt (List.replicate 16 97) i := by
      decide +kernel
    exact all i (by omega)
  · decide
  · rw [length_wideDir]
    decide

theorem overrun_wideDir : Overrun (fun _ => []) wideDir (bigMaxPages * epp) := by
  have first : shortAt wideDir (hashTableAt 0) = lastBlob :=
    (@shortAt_wideDir 0 (hashTableAt 0) (by decide) (by decide)).trans (by decide +kernel)
  have flag : byteAt wideDir (flagAt lastBlob) = fFirst :=
    (@byteAt_wideDir (bigMaxPages - 1) (63 * 32) (by decide) (by decide)).trans (by decide +kernel)
  have markable : Markable (fun _ => []) wideDir (bigMaxPages * epp) lastBlob := by
    refine ⟨by decide, hasPage_wideDir (by decide), ?_, flag, ?_⟩
    all_goals
      rw [cString_wideDir]
      decide
  have behind : 8 * eaSize < lastBlob + blobsOf (fun _ => []) wideDir lastBlob := by
    rw [blobsOf, cString_wideDir]
    decide
  exact ⟨0, by decide, fun _ => [], nofun, [], lastBlob, ⟨first, by decide⟩, nofun, markable, by decide, behind⟩

/-- The two blobs of the name at the end of the last page make `DirOK` write behind its map. -/
theorem dirOK_wideDir : ¬ ∀ beyond d, dirOK beyond d ≠ .error .outside := by
  intro inside
  refine inside (fun _ => []) wideDir (dirOK_outside.mpr ⟨headersOK_wideDir, .inl ?_⟩)
  rw [walks_outside rfl, computeUsedPages_wideDir]
  exact overrun_wideDir

end OpenAFS.Dir
