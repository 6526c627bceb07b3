import OpenAFS.Callback.Shape
import Mathlib.Data.List.Range

namespace OpenAFS.Callback

open Lib List
open Function (update update_self update_of_ne)

/-- Every block is free, in use or, a callback, held by a thread that has not put it on its lists yet; every file entry
is free, on its hash chain or apart. -/
structure Loose (held : List Nat) (whole : Nat → Prop) (s : Package) (l : Lists) : Prop where
  shape : Shape s whole l
  blocks : (l.freeCB ++ (held ++ l.chained)).Perm (List.range' 1 s.nblks)
  files : (l.freeFE ++ (l.apart ++ l.entries)).Perm (List.range' 1 s.nblks)
  nCBs : s.nCBs + l.freeCB.length = s.nblks
  nFEs : s.nFEs + l.freeFE.length = s.nblks
  homes : ∀ cb ∈ l.chained, s.CB.fhead cb ∈ l.entries ∨ s.CB.fhead cb ∈ l.apart
  ncbs : ∀ fe, whole fe → s.FE.ncbs fe = (l.chained.filter fun cb => s.CB.fhead cb = fe).length
  single : ∀ cb ∈ l.chained, ∀ cb' ∈ l.chained, s.CB.fhead cb = s.CB.fhead cb' → s.CB.hhead cb = s.CB.hhead cb' → cb = cb'
  distinct : ∀ fe ∈ l.entries, ∀ fe' ∈ l.entries, s.FE.later fe = false → s.FE.later fe' = false → s.fid fe = s.fid fe' → fe = fe'
  delayed : ∀ cb ∈ l.chained, s.FE.later (s.CB.fhead cb) = true → s.CB.status cb = .delayed
  queues : ∀ cb ∈ l.timed, 1 ≤ s.CB.thead cb ∧ s.CB.thead cb ≤ 128

def Full (s : Package) (l : Lists) : Prop := ∀ fe ∈ l.entries, ∃ cb ∈ l.chained, s.CB.fhead cb = fe

def Lists.cut (l : Lists) (cb : Nat) : Lists := { l with freeCB := cb :: l.freeCB, chained := without l.chained cb }

def Lists.cutFE (l : Lists) (fe : Nat) : Lists := { l with freeFE := fe :: l.freeFE, entries := without l.entries fe }

theorem cbAt_setCb (s : Package) (p q : CbSlot) (v : Nat) : (s.setCb p v).cbAt q = if q = p then v else s.cbAt q := by
  by_cases same : q = p
  · subst same
    rw [if_pos rfl]
    cases q with
    | first fe => exact update_self ..
    | next cb => exact update_self ..
  rw [if_neg same]
  cases p with
  | first fe =>
    cases q with
    | first fe' => exact update_of_ne (fun h => same (by rw [h])) ..
    | next cb => rfl
  | next cb =>
    cases q with
    | first fe' => rfl
    | next cb' => exact update_of_ne (fun h => same (by rw [h])) ..

theorem feAt_setFe (s : Package) (p q : FeSlot) (v : Nat) : (s.setFe p v).feAt q = if q = p then v else s.feAt q := by
  by_cases same : q = p
  · subst same
    rw [if_pos rfl]
    cases q with
    | head hash => exact update_self ..
    | next fe => exact update_self ..
  rw [if_neg same]
  cases p with
  | head hash =>
    cases q with
    | head hash' => exact update_of_ne (fun h => same (by rw [h])) ..
    | next fe => rfl
  | next fe =>
    cases q with
    | head hash => rfl
    | next fe' => exact update_of_ne (fun h => same (by rw [h])) ..

theorem length_without {l : List Nat} {c : Nat} (inside : c ∈ l) (once : l.Nodup) : (without l c).length = l.length - 1 := by
  have same := (perm_cons_without inside once).length_eq
  rw [length_cons] at same
  omega

theorem filter_without (l : List Nat) (c : Nat) (p : Nat → Bool) : (without l c).filter p = without (l.filter p) c := by
  rw [without, without, filter_filter, filter_filter]
  apply filter_congr
  intro d _
  rw [Bool.and_comm]

namespace Loose

variable {held : List Nat} {whole : Nat → Prop} {s : Package} {l : Lists} {cb fe : Nat}

variable (loose : Loose held whole s l)
include loose

theorem once : (l.freeCB ++ (held ++ l.chained)).Nodup :=
  loose.blocks.nodup_iff.mpr nodup_range'

theorem chained_nodup : l.chained.Nodup :=
  loose.once.of_append_right.of_append_right

theorem entries_nodup : l.entries.Nodup :=
  (loose.files.nodup_iff.mpr nodup_range').of_append_right.of_append_right

theorem cb_ne_zero (inside : cb ∈ l.freeCB ++ (held ++ l.chained)) : cb ≠ 0 := by
  have member := loose.blocks.mem_iff.mp inside
  rw [mem_range'_1] at member
  omega

theorem fe_ne_zero (inside : fe ∈ l.freeFE ++ (l.apart ++ l.entries)) : fe ≠ 0 := by
  have member := loose.files.mem_iff.mp inside
  rw [mem_range'_1] at member
  omega

theorem notMem_free (inside : cb ∈ l.chained) : cb ∉ l.freeCB := by
  intro free
  exact (List.nodup_append.mp loose.once).2.2 cb free cb (mem_append_right _ inside) rfl

theorem entry_notMem_free (inside : fe ∈ l.apart ++ l.entries) : fe ∉ l.freeFE := by
  intro free
  exact (List.nodup_append.mp (loose.files.nodup_iff.mpr nodup_range')).2.2 fe free fe inside rfl

theorem apart_notMem_entries (inside : fe ∈ l.apart) : fe ∉ l.entries := by
  intro member
  have once := (loose.files.nodup_iff.mpr nodup_range').of_append_right
  exact (List.nodup_append.mp once).2.2 fe inside fe member rfl

theorem chained_length : l.chained.length ≤ s.nblks := by
  have same := loose.blocks.length_eq
  simp only [length_append, length_range'] at same
  omega

theorem entries_length : l.entries.length ≤ s.nblks := by
  have same := loose.files.length_eq
  simp only [length_append, length_range'] at same
  omega

theorem weaken {fewer : Nat → Prop} (less : ∀ fe, fewer fe → whole fe) : Loose held fewer s l :=
  { loose with
    shape := loose.shape.weaken less
    ncbs := fun fe known => loose.ncbs fe (less fe known) }

theorem around (inside : cb ∈ l.chained) : ∃ before after,
    (l.chained.filter fun c => s.CB.fhead c = s.CB.fhead cb) = before ++ cb :: after ∧
      (∀ c ∈ before, c ∈ l.chained ∧ c ≠ cb) ∧ before.length < s.nblks + 1 := by
  have member : cb ∈ l.chained.filter fun c => s.CB.fhead c = s.CB.fhead cb := by simpa using inside
  obtain ⟨before, after, split⟩ := append_of_mem member
  have once := loose.chained_nodup.filter fun c => s.CB.fhead c = s.CB.fhead cb
  rw [split] at once
  refine ⟨before, after, split, ?_, ?_⟩
  · intro c early
    have within : c ∈ before ++ cb :: after := mem_append_left _ early
    rw [← split] at within
    refine ⟨(List.mem_filter.mp within).1, ?_⟩
    rintro rfl
    exact (List.nodup_append.mp once).2.2 c early c mem_cons_self rfl
  · have shorter := length_filter_le (fun c => decide (s.CB.fhead c = s.CB.fhead cb)) l.chained
    rw [split, length_append, length_cons] at shorter
    have bound := loose.chained_length
    omega

end Loose

def Package.cut (s : Package) (fe : Nat) (cbp : CbSlot) : Package :=
  { (s.setCb cbp (s.CB.cnext (s.cbAt cbp))).freeCB (s.cbAt cbp) with
    FE.ncbs := update s.FE.ncbs fe (s.FE.ncbs fe - 1) }

theorem Loose.cut {held : List Nat} {whole : Nat → Prop} {s : Package} {l : Lists} {cb : Nat}
    {before after : List Nat} (loose : Loose held whole s l) (inside : cb ∈ l.chained)
    (known : whole (s.CB.fhead cb))
    (split : (l.chained.filter fun c => s.CB.fhead c = s.CB.fhead cb) = before ++ cb :: after)
    (early : ∀ c ∈ before, c ∈ l.chained ∧ c ≠ cb) :
    Loose held whole (s.cut (s.CB.fhead cb) (slotAfter .next (.first (s.CB.fhead cb)) before)) (l.cut cb) := by
  have chain := loose.shape.chain known
  rw [split] at chain
  have here : s.cbAt (slotAfter .next (.first (s.CB.fhead cb)) before) = cb := chain.load_slotAfter
  have once := loose.chained_nodup
  -- the slot is not in a free block
  have stays : ∀ c, c ∉ l.chained → c ≠ cb →
      (s.cut (s.CB.fhead cb) (slotAfter .next (.first (s.CB.fhead cb)) before)).CB.cnext c = s.CB.cnext c := by
    intro c outside other
    have elsewhere : CbSlot.next c ≠ slotAfter .next (.first (s.CB.fhead cb)) before := by
      intro same
      rcases @slotAfter_mem _ CbSlot.next (.first (s.CB.fhead cb)) before with first | ⟨d, within, place⟩
      · cases same.trans first
      · cases same.trans place
        exact outside (early c within).1
    have moved := cbAt_setCb s (slotAfter .next (.first (s.CB.fhead cb)) before) (.next c)
      (s.CB.cnext (s.cbAt (slotAfter .next (.first (s.CB.fhead cb)) before)))
    rw [if_neg elsewhere] at moved
    simp only [Package.cut, Package.freeCB, here]
    rw [here] at moved
    rw [update_of_ne other]
    exact moved
  have labels : ∀ c ∈ without l.chained cb,
      (s.cut (s.CB.fhead cb) (slotAfter .next (.first (s.CB.fhead cb)) before)).CB.fhead c = s.CB.fhead c := by
    intro c within
    simp only [Package.cut, Package.freeCB, here]
    rw [update_of_ne (mem_without.mp within).2]
    rfl
  have some : cb ≠ 0 := loose.cb_ne_zero (mem_append_right _ (mem_append_right _ inside))
  refine { loose with
    shape := { loose.shape with freeCB := ?_, chains := ?_ }
    blocks := ?_, nCBs := ?_, homes := ?_, ncbs := ?_, single := ?_, delayed := ?_ }
  · have free : Linked id (s.cut (s.CB.fhead cb) (slotAfter .next (.first (s.CB.fhead cb)) before)).CB.cnext s.CBfree
        l.freeCB := by
      apply loose.shape.freeCB.congr_values
      intro c free
      apply stays
      · exact fun within => loose.notMem_free within free
      · rintro rfl
        exact loose.notMem_free inside free
    have pushed := free_push free some (loose.notMem_free inside)
    simp only [Package.cut, Package.freeCB, here, Function.update_idem] at pushed ⊢
    exact pushed
  · have past : (s.setCb (slotAfter .next (.first (s.CB.fhead cb)) before) (s.CB.cnext cb)).cbAt
        (slotAfter .next (.first (s.CB.fhead cb)) before) = s.cbAt (.next cb) := by
      rw [cbAt_setCb, if_pos rfl]
      rfl
    have unlinked := loose.shape.chains.unlink next_injective first_injective (by rintro c i ⟨⟩) known split past
      (by intro q _ other; rw [cbAt_setCb, if_neg other])
    refine unlinked.congr (fun fe _ => ?_) (fun c within => ?_) labels
    · simp only [Package.cut, here]
      rfl
    · simp only [Package.cut, here]
      exact update_of_ne (mem_without.mp within).2 ..
  · have moved := perm_cons_without inside once
    refine List.Perm.trans ?_ loose.blocks
    change (cb :: l.freeCB ++ (held ++ without l.chained cb)).Perm _
    have front : (cb :: (l.freeCB ++ (held ++ without l.chained cb))).Perm
        (l.freeCB ++ (held ++ cb :: without l.chained cb)) := by
      refine List.perm_middle.symm.trans (List.Perm.append_left _ ?_)
      exact List.perm_middle.symm
    exact front.trans (List.Perm.append_left _ (List.Perm.append_left _ moved))
  · have some' : l.freeCB.length + 1 ≤ s.nblks := by
      have same := loose.blocks.length_eq
      have positive := length_pos_of_mem inside
      simp only [length_append, length_range'] at same
      omega
    have count := loose.nCBs
    simp only [Package.cut, Package.freeCB, Package.setCb, Lists.cut, length_cons]
    omega
  · intro c within
    rw [labels c within]
    exact loose.homes c (mem_without.mp within).1
  · intro fe ok
    have same : ((l.cut cb).chained.filter fun c =>
        (s.cut (s.CB.fhead cb) (slotAfter .next (.first (s.CB.fhead cb)) before)).CB.fhead c = fe) =
        without (l.chained.filter fun c => s.CB.fhead c = fe) cb := by
      rw [← filter_without]
      apply filter_congr
      intro c within
      rw [labels c within]
    rw [same]
    by_cases this : fe = s.CB.fhead cb
    · subst this
      rw [length_without (by simpa using inside) (once.filter _), ← loose.ncbs _ ok]
      exact update_self ..
    rw [without_of_notMem]
    · rw [← loose.ncbs fe ok]
      exact update_of_ne this ..
    · intro member
      simp only [mem_filter, decide_eq_true_eq] at member
      exact this member.2.symm
  · intro c within c' within' sameFile sameHost
    rw [labels c within, labels c' within'] at sameFile
    exact loose.single c (mem_without.mp within).1 c' (mem_without.mp within').1 sameFile sameHost
  · intro c within later
    rw [labels c within] at later
    exact loose.delayed c (mem_without.mp within).1 later

end OpenAFS.Callback
