import OpenAFS.Callback.Blocks

namespace OpenAFS.Callback

open Lib List
open Function (update update_of_ne)

namespace Loose

variable {held : List Nat} {whole : Nat → Prop} {s : Package} {l : Lists} {cb fe : Nat}

theorem tDel (loose : Loose held whole s l) (inside : cb ∈ l.timed) :
    Loose held whole (s.tDel cb) { l with timed := without l.timed cb } :=
  { loose with
    shape := loose.shape.tDel inside
    queues := fun c within => loose.queues c (mem_without.mp within).1 }

theorem hDel (loose : Loose held whole s l) (inside : cb ∈ l.hosted) :
    Loose held whole (s.hDel cb) { l with hosted := without l.hosted cb } :=
  { loose with shape := loose.shape.hDel inside }

theorem bucket_around (loose : Loose held whole s l) (inside : fe ∈ l.entries) : ∃ before after,
    (l.entries.filter fun c => s.hash c = s.hash fe) = before ++ fe :: after ∧
      (∀ c ∈ before, c ∈ l.entries ∧ c ≠ fe) ∧ before.length < s.nblks + 1 := by
  have member : fe ∈ l.entries.filter fun c => s.hash c = s.hash fe := by simpa using inside
  obtain ⟨before, after, split⟩ := append_of_mem member
  have once := loose.entries_nodup.filter fun c => s.hash c = s.hash fe
  rw [split] at once
  refine ⟨before, after, split, ?_, ?_⟩
  · intro c within
    have place : c ∈ before ++ fe :: after := mem_append_left _ within
    rw [← split] at place
    refine ⟨(List.mem_filter.mp place).1, ?_⟩
    rintro rfl
    exact (List.nodup_append.mp once).2.2 c within c mem_cons_self rfl
  · have shorter := length_filter_le (fun c => decide (s.hash c = s.hash fe)) l.entries
    rw [split, length_append, length_cons] at shorter
    have bound := loose.entries_length
    omega

theorem unhash {before after : List Nat} (loose : Loose held whole s l) (inside : fe ∈ l.entries)
    (split : (l.entries.filter fun c => s.hash c = s.hash fe) = before ++ fe :: after) :
    Loose held whole (s.setFe (slotAfter .next (.head (s.hash fe)) before) (s.FE.fnext fe))
      { l with entries := without l.entries fe, apart := fe :: l.apart } := by
  refine { loose with
    shape := { loose.shape with table := ?_ }
    files := ?_, homes := ?_, distinct := ?_ }
  · have past : (s.setFe (slotAfter .next (.head (s.hash fe)) before) (s.FE.fnext fe)).feAt
        (slotAfter .next (.head (s.hash fe)) before) = s.feAt (.next fe) := by
      rw [feAt_setFe, if_pos rfl]
      rfl
    have unlinked := loose.shape.table.unlink fnext_injective head_injective (by rintro c i ⟨⟩)
      (hash_lt s fe) split past (by intro q _ other; rw [feAt_setFe, if_neg other])
    exact unlinked.congr (fun _ _ => rfl) (fun _ _ => rfl) (fun _ _ => rfl)
  · have moved := perm_cons_without inside loose.entries_nodup
    refine List.Perm.trans (List.Perm.append_left _ ?_) loose.files
    exact List.perm_middle.symm.trans (List.Perm.append_left _ moved)
  · intro c within
    by_cases this : s.CB.fhead c = fe
    · exact .inr (this ▸ mem_cons_self)
    · exact (loose.homes c within).imp (fun member => mem_without.mpr ⟨member, this⟩) (mem_cons_of_mem _)
  · intro c within c' within'
    exact loose.distinct c (mem_without.mp within).1 c' (mem_without.mp within').1

theorem freeFE {rest : List Nat} (loose : Loose held whole s { l with apart := fe :: rest })
    (alone : ∀ cb ∈ l.chained, s.CB.fhead cb ≠ fe) :
    Loose held (fun fe' => whole fe' ∧ fe' ≠ fe) (s.freeFE fe)
      { l with freeFE := fe :: l.freeFE, apart := rest } := by
  have place : fe ∈ (fe :: rest) ++ l.entries := mem_append_left _ mem_cons_self
  have some : fe ≠ 0 := loose.fe_ne_zero (mem_append_right _ place)
  have others : ∀ c ∈ l.entries, (s.freeFE fe).fid c = s.fid c ∧ (s.freeFE fe).hash c = s.hash c := by
    intro c within
    have other : c ≠ fe := by
      rintro rfl
      exact loose.apart_notMem_entries (l := { l with apart := c :: rest }) mem_cons_self within
    simp [Package.fid, Package.hash, Package.freeFE, update_of_ne other]
  refine { loose with
    shape := { loose.shape with
      freeFE := ?_
      table := loose.shape.table.congr (fun _ _ => rfl) (fun _ _ => rfl) fun c within => (others c within).2
      chains := fun fe' ok => loose.shape.chains fe' ok.1 }
    files := ?_, nFEs := ?_, homes := ?_, ncbs := fun fe' ok => loose.ncbs fe' ok.1, distinct := ?_ }
  · exact free_push loose.shape.freeFE some (loose.entry_notMem_free (l := { l with apart := fe :: rest }) place)
  · exact List.perm_middle.symm.trans loose.files
  · have room : l.freeFE.length + 1 ≤ s.nblks := by
      have same := loose.files.length_eq
      simp only [length_append, length_cons, length_range'] at same
      omega
    have count := loose.nFEs
    simp only [Package.freeFE, length_cons] at count ⊢
    omega
  · intro c within
    rcases loose.homes c within with listed | apart
    · exact .inl listed
    · exact .inr ((List.mem_cons.mp apart).resolve_left (alone c within))
  · intro c within c' within' here' here'' same
    rw [(others c within).1, (others c' within').1] at same
    exact loose.distinct c within c' within' here' here'' same

theorem fDel (loose : Loose held whole s l) (inside : fe ∈ l.entries) (alone : ∀ cb ∈ l.chained, s.CB.fhead cb ≠ fe) :
    ∃ p, s.fDel fe = some ((s.setFe p (s.FE.fnext fe)).freeFE fe) ∧
      Loose held (fun fe' => whole fe' ∧ fe' ≠ fe) ((s.setFe p (s.FE.fnext fe)).freeFE fe) (l.cutFE fe) := by
  obtain ⟨before, after, split, early, enough⟩ := loose.bucket_around inside
  have chain := loose.shape.bucket (hash_lt s fe)
  rw [split] at chain
  have others : ∀ c ∈ before, decide (c = fe) = false := fun c within => decide_eq_false (early c within).2
  have found := chain.seek_eq others (by simp) enough
  have here : s.feAt (slotAfter .next (.head (s.hash fe)) before) = fe := chain.load_slotAfter
  have some : fe ≠ 0 := loose.fe_ne_zero (mem_append_right _ (mem_append_right _ inside))
  refine ⟨slotAfter .next (.head (s.hash fe)) before, ?_, ?_⟩
  · simp only [Package.fDel, found, Option.bind_eq_bind, Option.bind_some]
    rw [here, if_neg some]
  · exact Loose.freeFE (l := { l with entries := without l.entries fe }) (loose.unhash inside split) alone

end Loose

structure Chains where
  cnext : Nat → Nat
  fhead : Nat → Nat
  FE : FileEntries
  CBfree : Nat
  FEfree : Nat
  hashTable : Nat → Nat
  nCBs : Nat
  nFEs : Nat

def Package.withChains (s : Package) (c : Chains) : Package :=
  { s with
    CB.cnext := c.cnext, CB.fhead := c.fhead, FE := c.FE, CBfree := c.CBfree, FEfree := c.FEfree
    hashTable := c.hashTable, nCBs := c.nCBs, nFEs := c.nFEs }

def Package.toChains (s : Package) : Chains :=
  ⟨s.CB.cnext, s.CB.fhead, s.FE, s.CBfree, s.FEfree, s.hashTable, s.nCBs, s.nFEs⟩

def Lists.drop (l : Lists) (s : Package) (cb : Nat) : Lists :=
  if (without l.chained cb).any fun c => s.CB.fhead c = s.CB.fhead cb then l.cut cb
  else (l.cut cb).cutFE (s.CB.fhead cb)

@[simp] theorem Lists.drop_chained (l : Lists) (s : Package) (cb : Nat) : (l.drop s cb).chained = without l.chained cb := by
  unfold drop
  split <;> rfl

@[simp] theorem Lists.drop_hosted (l : Lists) (s : Package) (cb : Nat) : (l.drop s cb).hosted = l.hosted := by
  unfold drop
  split <;> rfl

@[simp] theorem Lists.drop_timed (l : Lists) (s : Package) (cb : Nat) : (l.drop s cb).timed = l.timed := by
  unfold drop
  split <;> rfl

@[simp] theorem Lists.drop_apart (l : Lists) (s : Package) (cb : Nat) : (l.drop s cb).apart = l.apart := by
  unfold drop
  split <;> rfl

theorem Lists.mem_drop_entries {l : Lists} {s : Package} {cb fe : Nat} : fe ∈ (l.drop s cb).entries ↔
    fe ∈ l.entries ∧ (fe = s.CB.fhead cb → ∃ c ∈ without l.chained cb, s.CB.fhead c = s.CB.fhead cb) := by
  unfold drop
  split
  · rename_i more
    simp only [any_eq_true, decide_eq_true_eq] at more
    exact ⟨fun inside => ⟨inside, fun _ => more⟩, fun both => both.1⟩
  rename_i none
  simp only [any_eq_true, decide_eq_true_eq] at none
  refine mem_without.trans (and_congr_right fun _ => ?_)
  exact ⟨fun other same => absurd same other, fun gone same => none (gone same)⟩

theorem Full.drop {s t : Package} {l : Lists} {cb : Nat} (full : Full s l)
    (labels : t.CB.fhead = update s.CB.fhead cb 0) : Full t (l.drop s cb) := by
  intro fe inside
  obtain ⟨listed, more⟩ := Lists.mem_drop_entries.mp inside
  rw [Lists.drop_chained, labels]
  by_cases this : fe = s.CB.fhead cb
  · obtain ⟨c, within, home⟩ := more this
    refine ⟨c, within, ?_⟩
    rw [update_of_ne (mem_without.mp within).2, this, home]
  obtain ⟨c, within, home⟩ := full fe listed
  have other : c ≠ cb := by
    rintro rfl
    exact this home.symm
  refine ⟨c, mem_without.mpr ⟨within, other⟩, ?_⟩
  rw [update_of_ne other, home]

theorem left_of_split {s : Package} {l : Lists} {cb : Nat} {before after : List Nat} (once : l.chained.Nodup)
    (split : (l.chained.filter fun c => s.CB.fhead c = s.CB.fhead cb) = before ++ cb :: after) :
    (without l.chained cb).filter (fun c => s.CB.fhead c = s.CB.fhead cb) = before ++ after := by
  have once' := once.filter fun c => s.CB.fhead c = s.CB.fhead cb
  rw [filter_without, split]
  rw [split] at once'
  exact filter_ne_of_nodup once'

namespace Loose

variable {held : List Nat} {whole : Nat → Prop} {s : Package} {l : Lists} {cb fe : Nat} {before after : List Nat}

theorem cDelPtr (loose : Loose held (· ∈ l.entries) s l) (inside : cb ∈ l.chained) (home : s.CB.fhead cb ∈ l.entries)
    (split : (l.chained.filter fun c => s.CB.fhead c = s.CB.fhead cb) = before ++ cb :: after)
    (early : ∀ c ∈ before, c ∈ l.chained ∧ c ≠ cb) :
    ∃ c : Chains, s.cDelPtr (s.CB.fhead cb) (slotAfter .next (.first (s.CB.fhead cb)) before) true =
        some (s.withChains c) ∧ c.fhead = update s.CB.fhead cb 0 ∧ c.FE.later = s.FE.later ∧
      c.FE.volid = s.FE.volid ∧ Loose held (· ∈ (l.drop s cb).entries) (s.withChains c) (l.drop s cb) := by
  have cut := loose.cut inside home split early
  have chain := loose.shape.chain home
  rw [split] at chain
  have here : s.cbAt (slotAfter .next (.first (s.CB.fhead cb)) before) = cb := chain.load_slotAfter
  have some' : cb ≠ 0 := loose.cb_ne_zero (mem_append_right _ (mem_append_right _ inside))
  have labels : (s.cut (s.CB.fhead cb) (slotAfter .next (.first (s.CB.fhead cb)) before)).CB.fhead = update s.CB.fhead cb 0 := by
    simp only [Package.cut, Package.freeCB, here]
    rfl
  have count : (s.cut (s.CB.fhead cb) (slotAfter .next (.first (s.CB.fhead cb)) before)).FE.ncbs (s.CB.fhead cb) =
      (before ++ after).length := by
    rw [cut.ncbs _ home, labels, ← left_of_split loose.chained_nodup split]
    congr 1
    apply filter_congr
    intro c within
    rw [update_of_ne (mem_without.mp within).2]
  have rest : (∃ c ∈ without l.chained cb, s.CB.fhead c = s.CB.fhead cb) ↔ before ++ after ≠ [] := by
    rw [← left_of_split loose.chained_nodup split, ne_eq, filter_eq_nil_iff]
    simp only [decide_eq_true_eq, not_forall, not_not, exists_prop]
  have unfolded : s.cDelPtr (s.CB.fhead cb) (slotAfter .next (.first (s.CB.fhead cb)) before) true =
      if (s.cut (s.CB.fhead cb) (slotAfter .next (.first (s.CB.fhead cb)) before)).FE.ncbs (s.CB.fhead cb) = 0 then
        (s.cut (s.CB.fhead cb) (slotAfter .next (.first (s.CB.fhead cb)) before)).fDel (s.CB.fhead cb)
      else some (s.cut (s.CB.fhead cb) (slotAfter .next (.first (s.CB.fhead cb)) before)) := by
    rw [Package.cDelPtr, if_neg (by rw [here]; exact some')]
    simp only [and_true]
    rfl
  rw [unfolded, count]
  by_cases gone : before ++ after = []
  · rw [if_pos (List.length_eq_zero_iff.mpr gone)]
    have alone : ∀ c ∈ (l.cut cb).chained,
        (s.cut (s.CB.fhead cb) (slotAfter .next (.first (s.CB.fhead cb)) before)).CB.fhead c ≠ s.CB.fhead cb := by
      intro c within same
      rw [labels, update_of_ne (mem_without.mp within).2] at same
      exact rest.mp ⟨c, within, same⟩ gone
    obtain ⟨p, done, freed⟩ := cut.fDel home alone
    have dropped : l.drop s cb = (l.cut cb).cutFE (s.CB.fhead cb) := by
      rw [Lists.drop, if_neg]
      simp only [any_eq_true, decide_eq_true_eq]
      exact fun more => rest.mp more gone
    refine ⟨(((s.cut (s.CB.fhead cb) (slotAfter .next (.first (s.CB.fhead cb)) before)).setFe p
      ((s.cut (s.CB.fhead cb) (slotAfter .next (.first (s.CB.fhead cb)) before)).FE.fnext
        (s.CB.fhead cb))).freeFE (s.CB.fhead cb)).toChains, done, labels, rfl, rfl, ?_⟩
    rw [dropped]
    exact freed.weaken fun fe within => mem_without.mp within
  · rw [if_neg (fun zero => gone (List.length_eq_zero_iff.mp zero))]
    have dropped : l.drop s cb = l.cut cb := by
      rw [Lists.drop, if_pos]
      simp only [any_eq_true, decide_eq_true_eq]
      exact rest.mpr gone
    refine ⟨(s.cut (s.CB.fhead cb) (slotAfter .next (.first (s.CB.fhead cb)) before)).toChains, rfl, labels, rfl, rfl, ?_⟩
    rw [dropped]
    exact cut

theorem seek (loose : Loose held whole s l) (known : whole (s.CB.fhead cb))
    (split : (l.chained.filter fun c => s.CB.fhead c = s.CB.fhead cb) = before ++ cb :: after)
    (early : ∀ c ∈ before, c ∈ l.chained ∧ c ≠ cb) (enough : before.length < s.nblks + 1) :
    Lib.seek s.cbAt .next (fun c => decide (c = cb)) (s.nblks + 12) (.first (s.CB.fhead cb)) =
      some (slotAfter .next (.first (s.CB.fhead cb)) before) := by
  have chain := loose.shape.chain known
  rw [split] at chain
  exact chain.seek_eq (fun c within => by simpa using (early c within).2) (by simp) (by omega)

theorem cDel (loose : Loose held (· ∈ l.entries) s l) (inside : cb ∈ l.chained) (home : s.CB.fhead cb ∈ l.entries) :
    ∃ c : Chains, s.cDel cb true = some (s.withChains c) ∧ c.fhead = update s.CB.fhead cb 0 ∧
      c.FE.later = s.FE.later ∧ c.FE.volid = s.FE.volid ∧
      Loose held (· ∈ (l.drop s cb).entries) (s.withChains c) (l.drop s cb) := by
  obtain ⟨before, after, split, early, enough⟩ := loose.around inside
  obtain ⟨c, done, rest⟩ := loose.cDelPtr inside home split early
  refine ⟨c, ?_, rest⟩
  simp only [Package.cDel, loose.seek home split early enough, Option.bind_eq_bind, Option.bind_some]
  exact done

theorem cDel_keep (loose : Loose held whole s l) (inside : cb ∈ l.chained) (known : whole (s.CB.fhead cb)) :
    ∃ c : Chains, s.cDel cb false = some (s.withChains c) ∧ c.fhead = update s.CB.fhead cb 0 ∧
      c.FE.later = s.FE.later ∧ c.FE.volid = s.FE.volid ∧ c.FE.vnode = s.FE.vnode ∧
      Loose held whole (s.withChains c) (l.cut cb) := by
  obtain ⟨before, after, split, early, enough⟩ := loose.around inside
  have cut := loose.cut inside known split early
  have chain := loose.shape.chain known
  rw [split] at chain
  have here : s.cbAt (slotAfter .next (.first (s.CB.fhead cb)) before) = cb := chain.load_slotAfter
  have some' : cb ≠ 0 := loose.cb_ne_zero (mem_append_right _ (mem_append_right _ inside))
  refine ⟨(s.cut (s.CB.fhead cb) (slotAfter .next (.first (s.CB.fhead cb)) before)).toChains, ?_, ?_, rfl, rfl, rfl, cut⟩
  · simp only [Package.cDel, loose.seek known split early enough, Option.bind_eq_bind, Option.bind_some]
    rw [Package.cDelPtr, if_neg (by rw [here]; exact some')]
    simp only [Bool.false_eq_true, and_false, if_false]
    rfl
  · simp only [Package.toChains, Package.cut, Package.freeCB, here]
    rfl

end Loose

end OpenAFS.Callback
