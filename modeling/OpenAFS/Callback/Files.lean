import OpenAFS.Callback.Reclaim

namespace OpenAFS.Callback

open Lib List Option
open Function (update update_of_ne)

theorem Kept.trans {held : List Nat} {s s₁ s₂ : Package} {l l₁ : Lists} (kept : Kept held s₁ l₁ s₂)
    (apart : l₁.apart = l.apart) (full : Full s l → Full s₁ l₁) : Kept held s l s₂ := by
  obtain ⟨l₂, intact, apart', full'⟩ := kept
  exact ⟨l₂, intact, apart'.trans apart, fun before => full' (full before)⟩

namespace Intact

variable {held : List Nat} {s : Package} {l : Lists} {cb fe : Nat}

theorem kept (intact : Intact held s l) : Kept held s l s := ⟨l, intact, rfl, id⟩

theorem findFE (intact : Intact held s l) (fid : AFSFid) : ∃ fe, s.findFE fid = some fe ∧
    ((fe = 0 ∧ ∀ e ∈ l.entries, s.FE.later e = false → s.fid e ≠ fid) ∨
      (fe ≠ 0 ∧ fe ∈ l.entries ∧ s.FE.later fe = false ∧ s.fid fe = fid)) := by
  have chain := intact.loose.shape.bucket (feHash_lt fid.volume fid.unique)
  have short : (l.entries.filter fun e => s.hash e = feHash fid.volume fid.unique).length < s.nblks + 1 := by
    have shorter := length_filter_le (fun e => decide (s.hash e = feHash fid.volume fid.unique)) l.entries
    have bound := intact.loose.entries_length
    omega
  obtain ⟨before, after, split, passed, first, found⟩ :=
    chain.seek_cases (fun e => decide (s.fid e = fid ∧ s.FE.later e = false)) short
  refine ⟨s.feAt (slotAfter .next (.head (feHash fid.volume fid.unique)) before), ?_, ?_⟩
  · rw [Package.findFE, found]
    rfl
  rw [split] at chain
  cases after with
  | nil =>
    rw [append_nil] at chain split
    refine .inl ⟨chain.load_end, ?_⟩
    rintro e inside here rfl
    have listed : e ∈ before := by
      rw [← split]
      simpa using ⟨inside, rfl⟩
    simpa [here] using passed e listed
  | cons e more =>
    rw [chain.load_slotAfter]
    have member : e ∈ before ++ e :: more := by simp
    rw [← split] at member
    have listed := (List.mem_filter.mp member).1
    have same : s.fid e = fid ∧ s.FE.later e = false := by simpa using first e rfl
    refine .inr ⟨?_, listed, same.2, same.1⟩
    exact intact.loose.fe_ne_zero (mem_append_right _ (mem_append_right _ listed))

theorem findCBPtr (intact : Intact held s l) (inside : fe ∈ l.entries) (host : Nat) : ∃ before after,
    (l.chained.filter fun c => s.CB.fhead c = fe) = before ++ after ∧ (∀ c ∈ before, s.CB.hhead c ≠ host) ∧
      (∀ c ∈ after.head?, s.CB.hhead c = host) ∧
      s.findCBPtr fe host = some (slotAfter .next (.first fe) before) := by
  have chain := intact.loose.shape.chain inside
  have short : (l.chained.filter fun c => s.CB.fhead c = fe).length < s.nblks + 2 := by
    have shorter := length_filter_le (fun c => decide (s.CB.fhead c = fe)) l.chained
    have bound := intact.chained_length
    omega
  obtain ⟨before, after, split, passed, first, found⟩ :=
    chain.seek_cases (fun c => decide (s.CB.hhead c = host)) short
  refine ⟨before, after, split, ?_, ?_, found⟩
  · exact fun c within => by simpa using passed c within
  · exact fun c within => by simpa using first c within

theorem linked_rest {before rest : List Nat} (intact : Intact held s l) (inside : fe ∈ l.entries)
    (split : (l.chained.filter fun c => s.CB.fhead c = fe) = before ++ rest) :
    Linked id s.CB.cnext (s.cbAt (slotAfter .next (.first fe) before)) rest := by
  have chain := intact.loose.shape.chain inside
  rw [split] at chain
  exact chain.drop.values

end Intact

structure Rest (s : Package) (l : Lists) (fe cb : Nat) (rest : List Nat) : Prop where
  linked : Linked id s.CB.cnext cb rest
  place : rest ≠ [] → fe ∈ l.entries ∧ ∃ before, (l.chained.filter fun c => s.CB.fhead c = fe) = before ++ rest

namespace Rest

variable {held : List Nat} {s : Package} {l : Lists} {fe cb c : Nat} {more : List Nat}

theorem of_first (intact : Intact held s l) (inside : fe ∈ l.entries) :
    Rest s l fe (s.FE.firstcb fe) (l.chained.filter fun c => s.CB.fhead c = fe) :=
  ⟨intact.linked_rest inside (nil_append _).symm, fun _ => ⟨inside, [], rfl⟩⟩

theorem ended (rest : Rest s l fe cb []) : cb = 0 := rest.linked

variable (rest : Rest s l fe cb (c :: more))
include rest

theorem head : cb = c ∧ c ≠ 0 := ⟨rest.linked.1, rest.linked.2.1⟩

theorem tail : Rest s l fe (s.CB.cnext c) more := by
  refine ⟨rest.linked.2.2, fun _ => ?_⟩
  obtain ⟨inside, before, split⟩ := rest.place (by simp)
  exact ⟨inside, before ++ [c], by rw [split, append_assoc]; rfl⟩

theorem mem {d : Nat} (inside : d ∈ c :: more) : d ∈ l.chained ∧ s.CB.fhead d = fe := by
  obtain ⟨-, before, split⟩ := rest.place (by simp)
  have member : d ∈ before ++ c :: more := mem_append_right _ inside
  rw [← split] at member
  simpa using member

theorem unlink {t : Package} (once : l.chained.Nodup)
    (labels : t.CB.fhead = update s.CB.fhead c 0) (intact : Intact held t (l.unlink s c)) :
    Rest t (l.unlink s c) fe (s.CB.cnext c) more := by
  obtain ⟨-, home⟩ := rest.mem mem_cons_self
  obtain ⟨listed, before, split⟩ := rest.place (by simp)
  cases more with
  | nil => exact ⟨rest.linked.2.2, nofun⟩
  | cons d more =>
    have different : ∀ e ∈ without l.chained c, t.CB.fhead e = s.CB.fhead e := by
      intro e within
      rw [labels, update_of_ne (mem_without.mp within).2]
    have last := once.filter fun e => s.CB.fhead e = fe
    rw [split] at last
    have other : d ≠ c := by
      have behind := (List.nodup_append.mp last).2.1
      rintro rfl
      simp at behind
    have stays : d ∈ without l.chained c := by
      refine mem_without.mpr ⟨(rest.mem (d := d) (by simp)).1, other⟩
    have inside : fe ∈ (l.unlink s c).entries := by
      refine Lists.mem_drop_entries.mpr ⟨listed, fun _ => ⟨d, stays, ?_⟩⟩
      rw [home]
      exact (rest.mem (d := d) (by simp)).2
    have left : ((l.unlink s c).chained.filter fun e => t.CB.fhead e = fe) = before ++ d :: more := by
      have same : ((l.unlink s c).chained.filter fun e => t.CB.fhead e = fe) =
          (without l.chained c).filter fun e => s.CB.fhead e = fe := by
        rw [Lists.unlink, Lists.drop_chained]
        apply filter_congr
        intro e within
        rw [different e within]
      rw [same, ← home]
      rw [← home] at split
      exact left_of_split once split
    have linked := intact.linked_rest inside left
    refine ⟨?_, fun _ => ⟨inside, before, left⟩⟩
    have next : s.CB.cnext c = d := rest.linked.2.2.1
    rw [next]
    exact linked.1 ▸ linked

end Rest

theorem Intact.setStatus {held : List Nat} {s : Package} {l : Lists} {cb : Nat} {status : Status}
    (intact : Intact held s l) (fine : status = .delayed ∨ s.CB.status cb ≠ .delayed) :
    Intact held (s.setStatus cb status) l where
  loose := { intact.loose with
    shape := { intact.loose.shape with }
    delayed := by
      intro c within later
      have old := intact.loose.delayed c within later
      by_cases this : c = cb
      · subst this
        rcases fine with same | other
        · rw [same]
          exact Function.update_self ..
        · exact absurd old other
      · refine Eq.trans ?_ old
        exact update_of_ne this .. }
  home := intact.home
  hosted := intact.hosted
  timed := intact.timed

def Remembered (cba : List (Nat × Nat)) : Prop := cba.length ≤ maxCbHosts ∧ ∀ c ∈ cba, c.2 ≤ 128

theorem Intact.collect {held : List Nat} {s : Package} {l : Lists} {hostindex n fe cb : Nat} {flag : Bool}
    {cba : List (Nat × Nat)} {rest : List Nat} (intact : Intact held s l) (todo : Rest s l fe cb rest)
    (enough : rest.length < n) (fine : Remembered cba) :
    ∃ cba' s', Package.collect hostindex flag n cb cba s = some (cba', s') ∧ Kept held s l s' ∧ Remembered cba' := by
  induction rest generalizing s l cb cba n with
  | nil =>
    cases n with
    | zero => cases enough
    | succ n =>
      refine ⟨cba, s, ?_, intact.kept, fine⟩
      rw [Package.collect, if_pos (.inl todo.ended)]
  | cons c more ih =>
    cases n with
    | zero => cases enough
    | succ n =>
      obtain ⟨rfl, nonzero⟩ := todo.head
      obtain ⟨inside, home⟩ := todo.mem mem_cons_self
      rw [Package.collect]
      split
      · exact ⟨cba, s, rfl, intact.kept, fine⟩
      rename_i going
      rw [not_or, not_le] at going
      split
      · split
        · -- the host is down, the callback is broken later
          have delayed : Intact held (s.setStatus cb .delayed) l := intact.setStatus (.inl rfl)
          obtain ⟨cba', s', done, kept, fine'⟩ := ih (s := s.setStatus cb .delayed) delayed ⟨todo.tail.linked, todo.tail.place⟩
            (by simpa using enough) fine
          exact ⟨cba', s', done, kept.trans rfl id, fine'⟩
        obtain ⟨c, done, labels, later, volid, next⟩ := intact.unlink inside
        have queue := intact.loose.queues cb ((intact.timed cb).mpr inside)
        have fine₁ : Remembered (cba ++ [(s.CB.hhead cb, s.CB.thead cb)]) := by
          refine ⟨?_, ?_⟩
          · rw [length_append, length_singleton]
            exact going.2
          intro e within
          rcases List.mem_append.mp within with old | new
          · exact fine.2 e old
          · rw [List.mem_singleton.mp new]
            exact queue.2
        obtain ⟨cba', s', done', kept, fine'⟩ := ih next
          (todo.unlink intact.loose.chained_nodup labels next) (by simpa using enough) fine₁
        refine ⟨cba', s', ?_, kept.trans (Lists.drop_apart ..) (fun full => full.unlink labels), fine'⟩
        simp only [done, bind_eq_bind, bind_some]
        exact done'
      · exact ih intact todo.tail (by simpa using enough) fine

theorem Intact.deleteCallBack {held : List Nat} {s : Package} {l : Lists} (intact : Intact held s l) (host : Nat)
    (fid : AFSFid) : ∃ s', s.deleteCallBack host fid = some s' ∧ Kept held s l s' := by
  obtain ⟨fe, found, none | ⟨some', inside, -, -⟩⟩ := intact.findFE fid
  · refine ⟨s, ?_, intact.kept⟩
    simp only [Package.deleteCallBack, found, none.1, bind_eq_bind, bind_some, if_true]
  obtain ⟨before, after, split, passed, first, slot⟩ := intact.findCBPtr inside host
  have chain := intact.loose.shape.chain inside
  rw [split] at chain
  cases after with
  | nil =>
    rw [append_nil] at chain
    refine ⟨s, ?_, intact.kept⟩
    simp only [Package.deleteCallBack, found, some', slot, chain.load_end, bind_eq_bind, bind_some, if_true, if_false]
  | cons cb more =>
    have here := chain.load_slotAfter
    have member : cb ∈ before ++ cb :: more := by simp
    rw [← split] at member
    simp only [mem_filter, decide_eq_true_eq] at member
    obtain ⟨listed, rfl⟩ := member
    have nonzero : cb ≠ 0 := intact.loose.cb_ne_zero (mem_append_right _ (mem_append_right _ listed))
    have early : ∀ c ∈ before, c ∈ l.chained ∧ c ≠ cb := by
      intro c within
      have place : c ∈ before ++ cb :: more := mem_append_left _ within
      rw [← split] at place
      refine ⟨(List.mem_filter.mp place).1, ?_⟩
      rintro rfl
      exact passed c within (first c rfl)
    obtain ⟨c, done, labels, later, volid, next⟩ := intact.unlinkPtr listed split early
    refine ⟨_, ?_, _, next, Lists.drop_apart .., fun full => full.unlink labels⟩
    simp only [Package.deleteCallBack, found, some', slot, here, nonzero, bind_eq_bind, bind_some, if_false]
    exact done

theorem Loose.discard {held : List Nat} {whole : Nat → Prop} {s : Package} {l : Lists} {cb : Nat}
    (loose : Loose held whole s l) (inside : cb ∈ l.chained) (given : ¬whole (s.CB.fhead cb)) :
    Loose held whole (s.freeCB cb) (l.cut cb) := by
  have nonzero : cb ≠ 0 := loose.cb_ne_zero (mem_append_right _ (mem_append_right _ inside))
  have labels : ∀ c ∈ without l.chained cb, (s.freeCB cb).CB.fhead c = s.CB.fhead c := fun c within =>
    update_of_ne (mem_without.mp within).2 ..
  have same : ∀ fe, whole fe → ((without l.chained cb).filter fun c => (s.freeCB cb).CB.fhead c = fe) =
      l.chained.filter fun c => s.CB.fhead c = fe := by
    intro fe known
    have relabel : ((without l.chained cb).filter fun c => (s.freeCB cb).CB.fhead c = fe) =
        (without l.chained cb).filter fun c => s.CB.fhead c = fe := by
      apply filter_congr
      intro c within
      rw [labels c within]
    rw [relabel, filter_without, without_of_notMem]
    intro member
    simp only [mem_filter, decide_eq_true_eq] at member
    exact given (member.2 ▸ known)
  refine { loose with
    shape := { loose.shape with
      freeCB := free_push loose.shape.freeCB nonzero (loose.notMem_free inside)
      chains := ?_ }
    blocks := ?_, nCBs := ?_, homes := ?_, ncbs := ?_, single := ?_, delayed := ?_ }
  · intro fe known
    have chain := loose.shape.chain known
    change Linked _ _ _ ((without l.chained cb).filter _)
    rw [same fe known]
    refine chain.congr rfl fun c within => ?_
    refine update_of_ne ?_ ..
    rintro rfl
    simp only [mem_filter, decide_eq_true_eq] at within
    exact given (within.2 ▸ known)
  · have moved := perm_cons_without inside loose.chained_nodup
    refine List.Perm.trans ?_ loose.blocks
    have front : (cb :: (l.freeCB ++ (held ++ without l.chained cb))).Perm
        (l.freeCB ++ (held ++ cb :: without l.chained cb)) := by
      refine List.perm_middle.symm.trans (List.Perm.append_left _ ?_)
      exact List.perm_middle.symm
    exact front.trans (List.Perm.append_left _ (List.Perm.append_left _ moved))
  · have room : l.freeCB.length + 1 ≤ s.nblks := by
      have lengths := loose.blocks.length_eq
      have positive := length_pos_of_mem inside
      simp only [length_append, length_range'] at lengths
      omega
    have count := loose.nCBs
    simp only [Package.freeCB, Lists.cut, length_cons]
    omega
  · intro c within
    rw [labels c within]
    exact loose.homes c (mem_without.mp within).1
  · intro fe known
    change s.FE.ncbs fe = ((without l.chained cb).filter _).length
    rw [same fe known]
    exact loose.ncbs fe known
  · intro c within c' within' sameFile sameHost
    rw [labels c within, labels c' within'] at sameFile
    exact loose.single c (mem_without.mp within).1 c' (mem_without.mp within').1 sameFile sameHost
  · intro c within later
    rw [labels c within] at later
    exact loose.delayed c (mem_without.mp within).1 later

structure Emptying (held : List Nat) (fe : Nat) (old s : Package) (l₀ l : Lists) (cb : Nat) (rest : List Nat) :
    Prop where
  loose : Loose held (fun e => e ∈ l.entries ∧ e ≠ fe) s l
  home : ∀ c ∈ l.chained, s.CB.fhead c ∈ l.entries
  hosted : ∀ c, c ∈ l.hosted ↔ c ∈ l.chained
  timed : ∀ c, c ∈ l.timed ↔ c ∈ l.chained
  linked : Linked id s.CB.cnext cb rest
  left : ∀ c, c ∈ rest ↔ c ∈ l.chained ∧ s.CB.fhead c = fe
  entries : l.entries = l₀.entries
  apart : l.apart = l₀.apart
  others : ∀ c ∈ l₀.chained, old.CB.fhead c ≠ fe → c ∈ l.chained ∧ s.CB.fhead c = old.CB.fhead c
  sameFE : s.FE.volid = old.FE.volid ∧ s.FE.vnode = old.FE.vnode ∧ s.FE.unique = old.FE.unique ∧
    s.FE.later = old.FE.later ∧ s.FE.fnext = old.FE.fnext ∧ s.hashTable = old.hashTable
  nblks : s.nblks = old.nblks

theorem Intact.emptying {held : List Nat} {s : Package} {l : Lists} {fe : Nat} (intact : Intact held s l)
    (inside : fe ∈ l.entries) :
    Emptying held fe s s l l (s.FE.firstcb fe) (l.chained.filter fun c => s.CB.fhead c = fe) where
  loose := intact.loose.weaken fun _ both => both.1
  home := intact.home
  hosted := intact.hosted
  timed := intact.timed
  linked := (Rest.of_first intact inside).linked
  left := by simp
  entries := rfl
  apart := rfl
  others := fun _ within _ => ⟨within, rfl⟩
  sameFE := ⟨rfl, rfl, rfl, rfl, rfl, rfl⟩
  nblks := rfl

namespace Emptying

variable {held : List Nat} {fe cb : Nat} {old s : Package} {l₀ l : Lists} {rest : List Nat}

theorem step (here : Emptying held fe old s l₀ l cb (cb :: rest)) : Emptying held fe old (((s.tDel cb).hDel cb).freeCB cb) l₀
      (Lists.cut { l with hosted := without l.hosted cb, timed := without l.timed cb } cb) (s.CB.cnext cb) rest := by
  obtain ⟨inside, home⟩ := (here.left cb).mp mem_cons_self
  have loose := (here.loose.tDel ((here.timed cb).mpr inside)).hDel ((here.hosted cb).mpr inside)
  have freed := Loose.discard (l := { l with hosted := without l.hosted cb, timed := without l.timed cb })
    loose inside fun known => known.2 home
  have once : (cb :: rest).Nodup := here.linked.nodup
  have labels : ∀ c, c ≠ cb → (((s.tDel cb).hDel cb).freeCB cb).CB.fhead c = s.CB.fhead c := fun c other =>
    update_of_ne other ..
  refine {
    loose := freed
    home := ?_, hosted := ?_, timed := ?_, linked := ?_, left := ?_
    entries := here.entries
    apart := here.apart
    others := ?_
    sameFE := here.sameFE
    nblks := here.nblks }
  · intro c within
    have both := mem_without.mp within
    rw [labels c both.2]
    exact here.home c both.1
  · intro c
    simp only [Lists.cut, mem_without, here.hosted]
  · intro c
    simp only [Lists.cut, mem_without, here.timed]
  · apply here.linked.2.2.congr_values
    intro c within
    refine update_of_ne ?_ ..
    rintro rfl
    exact (List.nodup_cons.mp once).1 within
  · intro c
    simp only [Lists.cut, mem_without]
    constructor
    · intro within
      have other : c ≠ cb := by
        rintro rfl
        exact (List.nodup_cons.mp once).1 within
      obtain ⟨listed, same⟩ := (here.left c).mp (mem_cons_of_mem _ within)
      exact ⟨⟨listed, other⟩, (labels c other).trans same⟩
    · rintro ⟨⟨listed, other⟩, same⟩
      rw [labels c other] at same
      exact (List.mem_cons.mp ((here.left c).mpr ⟨listed, same⟩)).resolve_left other
  · intro c within different
    obtain ⟨listed, same⟩ := here.others c within different
    have other : c ≠ cb := by
      rintro rfl
      exact different (same.symm.trans home)
    exact ⟨mem_without.mpr ⟨listed, other⟩, (labels c other).trans same⟩

theorem setNcbs (here : Emptying held fe old s l₀ l cb rest) (v : Nat) :
    Emptying held fe old { s with FE.ncbs := update s.FE.ncbs fe v } l₀ l cb rest :=
  { here with
    loose := { here.loose with
      shape := { here.loose.shape with }
      ncbs := fun e known => Eq.trans (update_of_ne known.2 ..) (here.loose.ncbs e known) } }

theorem alone (here : Emptying held fe old s l₀ l cb []) : ∀ c ∈ l.chained, s.CB.fhead c ≠ fe := by
  intro c within same
  exact not_mem_nil ((here.left c).mpr ⟨within, same⟩)

theorem finish {t : Package} (here : Emptying held fe old s l₀ l cb [])
    (freed : Loose held (fun e => (e ∈ l.entries ∧ e ≠ fe) ∧ e ≠ fe) t (l.cutFE fe)) (same : t.CB.fhead = s.CB.fhead) :
    Intact held t (l.cutFE fe) ∧ (Full old l₀ → Full t (l.cutFE fe)) := by
  refine ⟨⟨freed.weaken fun e within => ?_, ?_, here.hosted, here.timed⟩, ?_⟩
  · have both := mem_without.mp within
    exact ⟨both, both.2⟩
  · intro c within
    rw [same]
    exact mem_without.mpr ⟨here.home c within, here.alone c within⟩
  intro full e within
  have both := mem_without.mp within
  obtain ⟨c, listed, home⟩ := full e (here.entries ▸ both.1)
  obtain ⟨still, label⟩ := here.others c listed (by rw [home]; exact both.2)
  exact ⟨c, still, by rw [same, label, home]⟩

theorem freeFileList {n : Nat} (here : Emptying held fe old s l₀ l cb rest) (enough : rest.length < n) :
    ∃ s' l', Package.freeFileList fe n cb s = some s' ∧ Emptying held fe old s' l₀ l' 0 [] := by
  induction rest generalizing s l cb n with
  | nil =>
    cases n with
    | zero => cases enough
    | succ n =>
      have ended : cb = 0 := here.linked
      subst ended
      exact ⟨s, l, by rw [Package.freeFileList, if_pos rfl], here⟩
  | cons c more ih =>
    cases n with
    | zero => cases enough
    | succ n =>
      obtain ⟨first, nonzero, -⟩ := here.linked
      have first' : cb = c := first
      subst first'
      obtain ⟨s', l', done, last⟩ := ih (here.step.setNcbs _) (n := n) (by simpa using enough)
      refine ⟨s', l', ?_, last⟩
      rw [Package.freeFileList, if_neg nonzero]
      exact done

end Emptying

theorem Intact.deleteFileCallBacks {held : List Nat} {s : Package} {l : Lists} (intact : Intact held s l)
    (fid : AFSFid) : ∃ s', s.deleteFileCallBacks fid = some s' ∧ Kept held s l s' := by
  obtain ⟨fe, found, none | ⟨some', inside, -, -⟩⟩ := intact.findFE fid
  · refine ⟨s, ?_, intact.kept⟩
    simp only [Package.deleteFileCallBacks, found, none.1, bind_eq_bind, bind_some, if_true]
  have short : (l.chained.filter fun c => s.CB.fhead c = fe).length < s.nblks + 1 := by
    have shorter := length_filter_le (fun c => decide (s.CB.fhead c = fe)) l.chained
    have bound := intact.chained_length
    omega
  obtain ⟨s₁, l₁, emptied, last⟩ := (intact.emptying inside).freeFileList short
  obtain ⟨p, done, freed⟩ := last.loose.fDel (by rw [last.entries]; exact inside) last.alone
  obtain ⟨kept, full⟩ := last.finish freed rfl
  refine ⟨_, ?_, _, kept, last.apart, full⟩
  simp only [Package.deleteFileCallBacks, found, some', emptied, bind_eq_bind, bind_some, if_false]
  exact done

end OpenAFS.Callback
