import OpenAFS.Callback.Files

namespace OpenAFS.Callback

open Lib List
open Function (update update_self update_of_ne)

variable {rest : List Nat}

namespace Intact

variable {held : List Nat} {s : Package} {l : Lists} {cb fe : Nat}

theorem getCB (intact : Intact held s l) : s.getCB = (0, s) ∨ ∃ cb s' l', s.getCB = (cb, s') ∧ cb ≠ 0 ∧
    Intact (cb :: held) s' l' ∧ l'.apart = l.apart ∧ (Full s l → Full s' l') := by
  cases free : l.freeCB with
  | nil =>
    have ended := intact.loose.shape.freeCB
    rw [free] at ended
    have empty : s.CBfree = 0 := ended
    exact .inl (by rw [Package.getCB, if_pos empty])
  | cons cb rest =>
    have linked := intact.loose.shape.freeCB
    rw [free] at linked
    obtain ⟨first, nonzero, later⟩ := linked
    have first' : s.CBfree = cb := first
    refine .inr ⟨cb, { s with CBfree := s.CB.cnext s.CBfree, nCBs := s.nCBs + 1 }, { l with freeCB := rest }, ?_,
      nonzero, ⟨{ intact.loose with shape := { intact.loose.shape with freeCB := ?_ }, blocks := ?_, nCBs := ?_ },
        intact.home, intact.hosted, intact.timed⟩, rfl, id⟩
    · rw [Package.getCB, if_neg (by rw [first']; exact nonzero), first']
    · rw [first']
      exact later
    · have blocks := intact.loose.blocks
      rw [free] at blocks
      exact List.perm_middle.trans blocks
    · have count := intact.loose.nCBs
      rw [free, length_cons] at count
      dsimp only
      omega

theorem getFE (intact : Intact held s l) : s.getFE = (0, s) ∨ ∃ fe s' l', s.getFE = (fe, s') ∧ fe ≠ 0 ∧
    Intact held s' l' ∧ l'.apart = fe :: l.apart ∧ (Full s l → Full s' l') := by
  cases free : l.freeFE with
  | nil =>
    have ended := intact.loose.shape.freeFE
    rw [free] at ended
    have empty : s.FEfree = 0 := ended
    exact .inl (by rw [Package.getFE, if_pos empty])
  | cons fe rest =>
    have linked := intact.loose.shape.freeFE
    rw [free] at linked
    obtain ⟨first, nonzero, later⟩ := linked
    have first' : s.FEfree = fe := first
    refine .inr ⟨fe, { s with FEfree := s.FE.vnode s.FEfree, nFEs := s.nFEs + 1 },
      { l with freeFE := rest, apart := fe :: l.apart }, ?_, nonzero,
      ⟨{ intact.loose with
          shape := { intact.loose.shape with freeFE := ?_ }
          files := ?_, nFEs := ?_, homes := fun c within => .inl (intact.home c within) },
        intact.home, intact.hosted, intact.timed⟩, rfl, id⟩
    · rw [Package.getFE, if_neg (by rw [first']; exact nonzero), first']
    · rw [first']
      exact later
    · have files := intact.loose.files
      rw [free] at files
      exact List.perm_middle.trans files
    · have count := intact.loose.nFEs
      rw [free, length_cons] at count
      dsimp only
      omega

theorem held_notMem (intact : Intact (cb :: held) s l) : cb ∉ l.freeCB ∧ cb ∉ l.chained ∧ cb ≠ 0 := by
  have inside : cb ∈ l.freeCB ++ (cb :: held ++ l.chained) := by simp
  have once := intact.loose.once
  refine ⟨fun free => ?_, fun listed => ?_, intact.loose.cb_ne_zero inside⟩
  · exact (List.nodup_append.mp once).2.2 cb free cb (by simp) rfl
  · exact (List.nodup_append.mp once.of_append_right).2.2 cb mem_cons_self cb listed rfl

theorem freeCB (intact : Intact (cb :: held) s l) : Intact held (s.freeCB cb) { l with freeCB := cb :: l.freeCB } := by
  obtain ⟨unfree, unlisted, nonzero⟩ := intact.held_notMem
  have different : ∀ c ∈ l.chained, c ≠ cb := by
    rintro c within rfl
    exact unlisted within
  have labels : ∀ c ∈ l.chained, (s.freeCB cb).CB.fhead c = s.CB.fhead c := fun c within =>
    update_of_ne (different c within) ..
  refine ⟨{ intact.loose with
    shape := { intact.loose.shape with
      freeCB := free_push intact.loose.shape.freeCB nonzero unfree
      chains := intact.loose.shape.chains.congr (fun _ _ => rfl)
        (fun c within => update_of_ne (different c within) ..) labels }
    blocks := List.perm_middle.symm.trans intact.loose.blocks
    nCBs := ?_, homes := ?_, ncbs := ?_, single := ?_, delayed := ?_ }, ?_, intact.hosted, intact.timed⟩
  · have count := intact.loose.nCBs
    have total := intact.loose.blocks.length_eq
    simp only [length_append, length_cons, length_range'] at total
    simp only [Package.freeCB, length_cons]
    omega
  · intro c within
    rw [labels c within]
    exact intact.loose.homes c within
  · intro fe known
    have same : (l.chained.filter fun c => (s.freeCB cb).CB.fhead c = fe) = l.chained.filter fun c => s.CB.fhead c = fe := by
      apply filter_congr
      intro c within
      rw [labels c within]
    exact Eq.trans (intact.loose.ncbs fe known) (congrArg List.length same.symm)
  · intro c within c' within' sameFile sameHost
    rw [labels c within, labels c' within'] at sameFile
    exact intact.loose.single c within c' within' sameFile sameHost
  · intro c within later
    rw [labels c within] at later
    exact intact.loose.delayed c within later
  · intro c within
    rw [labels c within]
    exact intact.home c within

theorem freeFE (intact : Intact held s l) (place : l.apart = fe :: rest) :
    Intact held (s.freeFE fe) { l with freeFE := fe :: l.freeFE, apart := rest } := by
  have loose : Loose held (· ∈ l.entries) s { l with apart := fe :: rest } := by
    rw [← place]
    exact intact.loose
  have outside : fe ∉ l.entries := intact.loose.apart_notMem_entries (by rw [place]; exact mem_cons_self)
  refine ⟨(loose.freeFE ?_).weaken ?_, intact.home, intact.hosted, intact.timed⟩
  · rintro c within rfl
    exact outside (intact.home c within)
  rintro e within
  refine ⟨within, ?_⟩
  rintro rfl
  exact outside within

theorem enterFE {fid : AFSFid} (intact : Intact held s l) (place : l.apart = fe :: rest)
    (new : ∀ e ∈ l.entries, s.FE.later e = false → s.fid e ≠ fid) :
    Intact held (s.enterFE fe fid) { l with entries := fe :: l.entries, apart := rest } := by
  have apart : fe ∈ l.apart := by
    rw [place]
    exact mem_cons_self
  have outside : fe ∉ l.entries := intact.loose.apart_notMem_entries apart
  have nonzero : fe ≠ 0 := intact.loose.fe_ne_zero (mem_append_right _ (mem_append_left _ apart))
  have different : ∀ e ∈ l.entries, e ≠ fe := by
    rintro e within rfl
    exact outside within
  have away : ∀ c ∈ l.chained, s.CB.fhead c ≠ fe := fun c within => different _ (intact.home c within)
  have fids : ∀ e ∈ l.entries, (s.enterFE fe fid).fid e = s.fid e := by
    intro e within
    simp [Package.fid, Package.enterFE, update_of_ne (different e within)]
  have label : (s.enterFE fe fid).hash fe = feHash fid.volume fid.unique := by
    simp [Package.hash, Package.enterFE]
  have this : (s.enterFE fe fid).fid fe = fid := by
    simp [Package.fid, Package.enterFE]
  have laters : ∀ e ∈ l.entries, (s.enterFE fe fid).FE.later e = s.FE.later e := fun e within =>
    update_of_ne (different e within) ..
  refine ⟨{ intact.loose with
    shape := { intact.loose.shape with
      freeFE := intact.loose.shape.freeFE.congr_values fun e free => ?_
      table := intact.loose.shape.table.push nonzero ?_ ?_ ?_ ?_ ?_
      chains := ?_ }
    files := ?_, homes := ?_, ncbs := ?_, distinct := ?_, delayed := ?_ },
    fun c within => mem_cons_of_mem _ (intact.home c within), intact.hosted, intact.timed⟩
  · refine update_of_ne ?_ ..
    rintro rfl
    exact intact.loose.entry_notMem_free (mem_append_left _ apart) free
  · rw [label]
    exact update_self ..
  · rw [label]
    exact update_self ..
  · intro i _ other
    rw [label] at other
    exact update_of_ne other ..
  · exact fun e within => update_of_ne (different e within) ..
  · intro e within
    simp [Package.hash, Package.enterFE, update_of_ne (different e within)]
  · intro e listed
    rcases List.mem_cons.mp listed with rfl | old
    · have none : (l.chained.filter fun c => s.CB.fhead c = e) = [] := by
        rw [filter_eq_nil_iff]
        intro c within
        simpa using away c within
      change Linked _ _ _ (l.chained.filter fun c => s.CB.fhead c = e)
      rw [none]
      exact update_self ..
    · apply (intact.loose.shape.chain old).congr
      · exact update_of_ne (different e old) ..
      · exact fun _ _ => rfl
  · have files := intact.loose.files
    rw [place] at files
    exact (List.Perm.append_left _ perm_middle).trans files
  · exact fun c within => .inl (mem_cons_of_mem _ (intact.home c within))
  · intro e listed
    rcases List.mem_cons.mp listed with rfl | old
    · have none : (l.chained.filter fun c => s.CB.fhead c = e) = [] := by
        rw [filter_eq_nil_iff]
        intro c within
        simpa using away c within
      change update s.FE.ncbs e 0 e = (l.chained.filter fun c => s.CB.fhead c = e).length
      rw [none, update_self, length_nil]
    · exact Eq.trans (update_of_ne (different e old) ..) (intact.loose.ncbs e old)
  · intro e listed e' listed' here here' same
    rcases List.mem_cons.mp listed with rfl | old
    · rcases List.mem_cons.mp listed' with rfl | old'
      · rfl
      · rw [this, fids e' old'] at same
        rw [laters e' old'] at here'
        exact absurd same.symm (new e' old' here')
    rcases List.mem_cons.mp listed' with rfl | old'
    · rw [this, fids e old] at same
      rw [laters e old] at here
      exact absurd same (new e old here)
    rw [fids e old, fids e' old'] at same
    rw [laters e old] at here
    rw [laters e' old'] at here'
    exact intact.loose.distinct e old e' old' here here' same
  · intro c within later
    have old := intact.home c within
    exact intact.loose.delayed c within ((laters _ old).symm.trans later)

end Intact

def Package.linkCB (s : Package) (p : CbSlot) (cb fe : Nat) : Package :=
  { s.setCb p cb with
    FE.ncbs := update s.FE.ncbs fe (s.FE.ncbs fe + 1)
    CB.cnext := update (s.setCb p cb).CB.cnext cb 0
    CB.fhead := update s.CB.fhead cb fe }

theorem Loose.linkCB {held : List Nat} {whole : Nat → Prop} {s : Package} {l : Lists} {cb fe : Nat}
    (loose : Loose (cb :: held) whole s l) (inside : fe ∈ l.entries)
    (single : ∀ c ∈ l.chained, s.CB.fhead c = fe → s.CB.hhead c ≠ s.CB.hhead cb) (plain : s.FE.later fe = false) :
    Loose held whole (s.linkCB (slotAfter .next (.first fe) (l.chained.filter fun c => s.CB.fhead c = fe)) cb fe)
      { l with chained := l.chained ++ [cb] } := by
  have member : cb ∈ l.freeCB ++ (cb :: held ++ l.chained) := by simp
  have nonzero : cb ≠ 0 := loose.cb_ne_zero member
  have unfree : cb ∉ l.freeCB := fun free => (List.nodup_append.mp loose.once).2.2 cb free cb (by simp) rfl
  have unlisted : cb ∉ l.chained := fun listed =>
    (List.nodup_append.mp loose.once.of_append_right).2.2 cb mem_cons_self cb listed rfl
  have different : ∀ c ∈ l.chained, c ≠ cb := by
    rintro c within rfl
    exact unlisted within
  generalize slot : slotAfter CbSlot.next (.first fe) (l.chained.filter fun c => s.CB.fhead c = fe) = p
  have place : p = .first fe ∨ ∃ c ∈ l.chained, p = .next c := by
    rcases @slotAfter_mem _ CbSlot.next (.first fe) (l.chained.filter fun c => s.CB.fhead c = fe) with
      first | ⟨c, within, later⟩
    · exact .inl (slot ▸ first)
    · exact .inr ⟨c, (List.mem_filter.mp within).1, slot ▸ later⟩
  have elsewhere : p ≠ .next cb := by
    rintro rfl
    rcases place with first | ⟨c, within, same⟩
    · cases first
    · cases same
      exact unlisted within
  have loads : ∀ q, q ≠ .next cb → (s.linkCB p cb fe).cbAt q = (s.setCb p cb).cbAt q := by
    intro q other
    cases q with
    | first e => rfl
    | next c => exact update_of_ne (fun same => other (by rw [same])) ..
  have labels : ∀ c ∈ l.chained, (s.linkCB p cb fe).CB.fhead c = s.CB.fhead c := fun c within =>
    update_of_ne (different c within) ..
  have label : (s.linkCB p cb fe).CB.fhead cb = fe := update_self ..
  refine { loose with
    shape := { loose.shape with
      freeCB := loose.shape.freeCB.congr_values fun c free => ?_
      chains := loose.shape.chains.snoc nonzero first_injective (by rintro c i ⟨⟩) next_injective labels ?_ ?_ ?_ }
    blocks := ?_, homes := ?_, ncbs := ?_, single := ?_, delayed := ?_ }
  · have other : CbSlot.next c ≠ p := by
      rintro rfl
      rcases place with first | ⟨d, within, same⟩
      · cases first
      · cases same
        exact loose.notMem_free within free
    have away : CbSlot.next c ≠ .next cb := by
      rintro ⟨⟩
      exact unfree free
    have old := loads (.next c) away
    rw [cbAt_setCb, if_neg other] at old
    exact old
  · rw [label, slot, loads p elsewhere, cbAt_setCb, if_pos rfl]
  · exact update_self ..
  · intro q listed other
    rw [label, slot] at other
    rw [loads q, cbAt_setCb, if_neg other]
    rcases listed with ⟨i, -, rfl⟩ | ⟨c, within, rfl⟩
    · nofun
    · rintro ⟨⟩
      exact unlisted within
  · refine List.Perm.trans (List.Perm.append_left _ ?_) loose.blocks
    rw [← append_assoc]
    exact perm_append_singleton cb (held ++ l.chained)
  · intro c within
    rcases List.mem_append.mp within with old | last
    · rw [labels c old]
      exact loose.homes c old
    · rw [List.mem_singleton.mp last, label]
      exact .inl inside
  · intro e ok
    have same : (l.chained.filter fun c => (s.linkCB p cb fe).CB.fhead c = e) = l.chained.filter fun c => s.CB.fhead c = e := by
      apply filter_congr
      intro c within
      rw [labels c within]
    rw [filter_append, same, length_append, ← loose.ncbs e ok]
    by_cases this : fe = e
    · subst this
      rw [filter_cons_of_pos (by simpa using label), filter_nil, length_singleton]
      exact update_self ..
    · rw [filter_cons_of_neg (by rw [label]; simpa using this), filter_nil]
      exact update_of_ne (Ne.symm this) ..
  · intro c within c' within' sameFile sameHost
    rcases List.mem_append.mp within with old | last
    · rw [labels c old] at sameFile
      rcases List.mem_append.mp within' with old' | last'
      · rw [labels c' old'] at sameFile
        exact loose.single c old c' old' sameFile sameHost
      · rw [List.mem_singleton.mp last', label] at sameFile
        rw [List.mem_singleton.mp last'] at sameHost
        exact absurd sameHost (single c old sameFile)
    · rw [List.mem_singleton.mp last, label] at sameFile
      rw [List.mem_singleton.mp last] at sameHost ⊢
      rcases List.mem_append.mp within' with old' | last'
      · rw [labels c' old'] at sameFile
        exact absurd sameHost.symm (single c' old' sameFile.symm)
      · exact (List.mem_singleton.mp last').symm
  · intro c within later
    rcases List.mem_append.mp within with old | last
    · rw [labels c old] at later
      exact loose.delayed c old later
    · rw [List.mem_singleton.mp last, label] at later
      exact absurd (later.symm.trans plain) (by decide)

namespace Intact

variable {held : List Nat} {s : Package} {l : Lists} {cb fe host thead : Nat} {type : Status}

theorem insert (host : Nat) (type : Status) (intact : Intact (cb :: held) s l) (inside : fe ∈ l.entries) (plain : s.FE.later fe = false)
    (none : ∀ c ∈ l.chained, s.CB.fhead c = fe → s.CB.hhead c ≠ host) (queue : 1 ≤ thead ∧ thead ≤ 128) :
    Intact held (s.insert (slotAfter .next (.first fe) (l.chained.filter fun c => s.CB.fhead c = fe)) cb fe host thead type)
      { l with chained := l.chained ++ [cb], hosted := l.hosted ++ [cb], timed := l.timed ++ [cb] } := by
  obtain ⟨unfree, unlisted, nonzero⟩ := intact.held_notMem
  have different : ∀ c ∈ l.chained, c ≠ cb := by
    rintro c within rfl
    exact unlisted within
  have unhosted : cb ∉ l.hosted := fun within => unlisted ((intact.hosted cb).mp within)
  have untimed : cb ∉ l.timed := fun within => unlisted ((intact.timed cb).mp within)
  -- the callback gets its status, its host and its queue before it is on the list of the file entry
  have placed : Loose (cb :: held) (· ∈ l.entries) (((s.setStatus cb type).hAdd cb host).tAdd cb thead)
      { l with hosted := l.hosted ++ [cb], timed := l.timed ++ [cb] } := {
    intact.loose with
    shape := by
      have shape : Shape (s.setStatus cb type) (· ∈ l.entries) l := { intact.loose.shape with }
      exact (shape.hAdd nonzero unhosted).tAdd nonzero untimed
    single := by
      intro c within c' within' sameFile sameHost
      have old : update s.CB.hhead cb host c = s.CB.hhead c := update_of_ne (different c within) ..
      have old' : update s.CB.hhead cb host c' = s.CB.hhead c' := update_of_ne (different c' within') ..
      exact intact.loose.single c within c' within' sameFile (old.symm.trans (sameHost.trans old'))
    delayed := by
      intro c within later
      refine Eq.trans ?_ (intact.loose.delayed c within later)
      exact update_of_ne (different c within) ..
    queues := by
      intro c within
      change 1 ≤ update s.CB.thead cb thead c ∧ update s.CB.thead cb thead c ≤ 128
      rcases List.mem_append.mp within with old | last
      · rw [update_of_ne (different c ((intact.timed c).mp old))]
        exact intact.loose.queues c old
      · rw [List.mem_singleton.mp last, update_self]
        exact queue }
  have alone : ∀ c ∈ l.chained, s.CB.fhead c = fe → update s.CB.hhead cb host c ≠ update s.CB.hhead cb host cb := by
    intro c within sameFile
    rw [update_of_ne (different c within), update_self]
    exact none c within sameFile
  refine ⟨placed.linkCB inside alone plain, ?_, ?_, ?_⟩
  · intro c within
    change update s.CB.fhead cb fe c ∈ l.entries
    rcases List.mem_append.mp within with old | last
    · rw [update_of_ne (different c old)]
      exact intact.home c old
    · rw [List.mem_singleton.mp last, update_self]
      exact inside
  · intro c
    simp only [mem_append, intact.hosted]
  · intro c
    simp only [mem_append, intact.timed]

theorem requeue (intact : Intact held s l) (inside : cb ∈ l.chained) (queue : 1 ≤ thead ∧ thead ≤ 128) :
    Intact held ((s.tDel cb).tAdd cb thead) { l with timed := without l.timed cb ++ [cb] } where
  loose := by
    have taken := intact.loose.tDel ((intact.timed cb).mpr inside)
    have nonzero : cb ≠ 0 := intact.loose.cb_ne_zero (mem_append_right _ (mem_append_right _ inside))
    refine { taken with
      shape := taken.shape.tAdd nonzero (by rw [mem_without]; exact fun both => both.2 rfl)
      queues := ?_ }
    intro c within
    change 1 ≤ update s.CB.thead cb thead c ∧ update s.CB.thead cb thead c ≤ 128
    rcases List.mem_append.mp within with old | last
    · rw [update_of_ne (mem_without.mp old).2]
      exact intact.loose.queues c (mem_without.mp old).1
    · rw [List.mem_singleton.mp last, update_self]
      exact queue
  home := intact.home
  hosted := intact.hosted
  timed := by
    intro c
    simp only [mem_append, mem_without, mem_singleton, intact.timed]
    constructor
    · rintro (both | rfl)
      · exact both.1
      · exact inside
    intro listed
    by_cases this : c = cb
    · exact .inr this
    · exact .inl ⟨listed, this⟩

theorem renew (intact : Intact held s l) (inside : cb ∈ l.chained) (queue : 1 ≤ thead ∧ thead ≤ 128) :
    ∃ timed, Intact held (s.renew cb thead type) { l with timed := timed } ∧ (s.renew cb thead type).CB.fhead = s.CB.fhead := by
  unfold Package.renew
  by_cases plain : s.CB.status cb ≠ .delayed
  · have typed : Intact held (s.setStatus cb type) l := intact.setStatus (.inr plain)
    rw [if_pos plain]
    dsimp only
    split
    · exact ⟨_, typed.requeue inside queue, rfl⟩
    · exact ⟨l.timed, typed, rfl⟩
  · rw [if_neg plain]
    dsimp only
    split
    · exact ⟨_, intact.requeue inside queue, rfl⟩
    · exact ⟨l.timed, intact, rfl⟩

end Intact

def Queued (type : Status) (thead : Nat) : Prop :=
  type = .normal ∨ type = .volume ∨ type = .bulk ∨ (1 ≤ thead ∧ thead ≤ 128)

theorem tIndex_bounds (time : Nat) : 1 ≤ Package.tIndex time ∧ Package.tIndex time ≤ 128 := by
  unfold Package.tIndex
  omega

theorem deadline_bounds {type : Status} {thead : Nat} (s : Package) (ncbs : Nat) (fine : Queued type thead) :
    1 ≤ (s.deadline type ncbs thead).2 ∧ (s.deadline type ncbs thead).2 ≤ 128 := by
  cases type with
  | unset => simpa [Queued, Package.deadline] using fine
  | normal => exact tIndex_bounds _
  | delayed => simpa [Queued, Package.deadline] using fine
  | volume => exact tIndex_bounds _
  | bulk => exact tIndex_bounds _

namespace Intact

variable {held : List Nat} {s : Package} {l : Lists} {cb fe host thead : Nat} {type : Status} {fid : AFSFid}

theorem add_new (host : Nat) (type : Status) (intact : Intact (cb :: held) s l) (place : l.apart = fe :: rest)
    (new : ∀ e ∈ l.entries, s.FE.later e = false → s.fid e ≠ fid) (queue : 1 ≤ thead ∧ thead ≤ 128) :
    (s.enterFE fe fid).findCBPtr fe host = some (.first fe) ∧ (s.enterFE fe fid).cbAt (.first fe) = 0 ∧
      ∃ l', Intact held ((s.enterFE fe fid).insert (.first fe) cb fe host thead type) l' ∧ l'.apart = rest ∧
        (Full s l → Full ((s.enterFE fe fid).insert (.first fe) cb fe host thead type) l') := by
  have outside : fe ∉ l.entries := intact.loose.apart_notMem_entries (by rw [place]; exact mem_cons_self)
  have entered := intact.enterFE place new
  have none : (l.chained.filter fun c => (s.enterFE fe fid).CB.fhead c = fe) = [] := by
    rw [filter_eq_nil_iff]
    intro c within
    rw [decide_eq_true_eq]
    intro same
    exact outside (same ▸ intact.home c within)
  have empty : (s.enterFE fe fid).cbAt (.first fe) = 0 := update_self ..
  obtain ⟨before, after, split, -, -, slot⟩ := entered.findCBPtr mem_cons_self host
  have split' : (l.chained.filter fun c => (s.enterFE fe fid).CB.fhead c = fe) = before ++ after := split
  rw [none] at split'
  obtain ⟨rfl, rfl⟩ := List.append_eq_nil_iff.mp split'.symm
  have inserted := entered.insert host type mem_cons_self
    (update_self ..) (fun c within same => absurd (same ▸ intact.home c within) outside) queue
  have here : slotAfter CbSlot.next (.first fe) (l.chained.filter fun c => (s.enterFE fe fid).CB.fhead c = fe) = .first fe := by
    rw [none]
    rfl
  have inserted' := here ▸ inserted
  refine ⟨slot, empty, _, inserted', rfl, ?_⟩
  intro full e listed
  have relabel : ∀ c ∈ l.chained, update s.CB.fhead cb fe c = s.CB.fhead c := by
    intro c within
    rw [update_of_ne]
    rintro rfl
    exact intact.held_notMem.2.1 within
  rcases List.mem_cons.mp listed with rfl | old
  · exact ⟨cb, by simp, update_self ..⟩
  · obtain ⟨c, within, home⟩ := full e old
    exact ⟨c, mem_append_left _ within, (relabel c within).trans home⟩

theorem add_found (host : Nat) (type : Status) (intact : Intact (cb :: held) s l) (inside : fe ∈ l.entries)
    (plain : s.FE.later fe = false) (queue : 1 ≤ thead ∧ thead ≤ 128) : ∃ p, s.findCBPtr fe host = some p ∧
      ∃ l', Intact held (if s.cbAt p = 0 then s.insert p cb fe host thead type
          else (s.renew (s.cbAt p) thead type).freeCB cb) l' ∧ l'.apart = l.apart ∧
        (Full s l → Full (if s.cbAt p = 0 then s.insert p cb fe host thead type
          else (s.renew (s.cbAt p) thead type).freeCB cb) l') := by
  obtain ⟨before, after, split, passed, first, slot⟩ := intact.findCBPtr inside host
  have relabel : ∀ v, ∀ c ∈ l.chained, update s.CB.fhead cb v c = s.CB.fhead c := by
    intro v c within
    rw [update_of_ne]
    rintro rfl
    exact intact.held_notMem.2.1 within
  have chain := intact.loose.shape.chain inside
  refine ⟨_, slot, ?_⟩
  cases after with
  | nil =>
    rw [append_nil] at split
    rw [split] at chain
    rw [if_pos chain.load_end, ← split]
    refine ⟨_, intact.insert host type inside plain ?_ queue, rfl, ?_⟩
    · intro c within home
      apply passed c
      rw [← split]
      simpa using ⟨within, home⟩
    · intro full e listed
      obtain ⟨c, within, home⟩ := full e listed
      exact ⟨c, mem_append_left _ within, (relabel fe c within).trans home⟩
  | cons c more =>
    rw [split] at chain
    have here := chain.load_slotAfter
    have member : c ∈ before ++ c :: more := by simp
    rw [← split] at member
    have listed := (List.mem_filter.mp member).1
    have nonzero : c ≠ 0 := intact.loose.cb_ne_zero (mem_append_right _ (mem_append_right _ listed))
    rw [here, if_neg nonzero]
    obtain ⟨timed, renewed, labels⟩ := intact.renew listed queue
    refine ⟨_, renewed.freeCB, rfl, ?_⟩
    intro full e inside
    obtain ⟨d, within, home⟩ := full e inside
    refine ⟨d, within, ?_⟩
    change update (s.renew c thead type).CB.fhead cb 0 d = e
    rw [labels, relabel 0 d within]
    exact home

theorem addCallBack (intact : Intact (cb :: held) s l) (place : l.apart = fe :: rest)
    (fine : Queued type thead) :
    ∃ time s' l', s.addCallBack host fid thead type cb fe = some (time, s') ∧ Intact held s' l' ∧ l'.apart = rest ∧
      (Full s l → Full s' l') := by
  obtain ⟨found, search, ⟨rfl, new⟩ | ⟨some', inside, plain, -⟩⟩ := intact.findFE fid
  · obtain ⟨slot, empty, l', kept, apart, full⟩ := intact.add_new host type place new
      (deadline_bounds s 0 fine)
    refine ⟨(s.deadline type 0 thead).1 - serverBias, _, l', ?_, kept, apart, full⟩
    simp only [Package.addCallBack, search, Option.bind_eq_bind, Option.bind_some, if_true, slot, empty]
  obtain ⟨p, slot, l', kept, apart, full⟩ := intact.add_found host type inside plain
    (deadline_bounds s (s.FE.ncbs found) fine)
  refine ⟨(s.deadline type (s.FE.ncbs found) thead).1 - serverBias, _, _, ?_, kept.freeFE (apart.trans place), rfl, full⟩
  simp only [Package.addCallBack, search, Option.bind_eq_bind, Option.bind_some, some', if_false, slot]

end Intact

end OpenAFS.Callback
